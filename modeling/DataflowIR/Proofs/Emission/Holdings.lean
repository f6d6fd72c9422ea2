import DataflowIR.Proofs.Emission.Conservation
import DataflowIR.Proofs.Traversal.Agreement

namespace DataflowIR

open Session

variable {K : Binding → Prop} {σ α β : Type}

/-- All bindings within the expression satisfy `K`. -/
def Expr.Only (K : Binding → Prop) (e : Expr) : Prop :=
  ∀ b ∈ e.within, K b

def Binding.Only (K : Binding → Prop) (b : Binding) : Prop :=
  ∀ x ∈ b.within, K x

def Block.Only (K : Binding → Prop) (b : Block) : Prop :=
  ∀ x ∈ b.within, K x

theorem Expr.forall_withinAll {es : List Expr} :
    (∀ b ∈ Expr.withinAll es, K b) ↔ ∀ e ∈ es, e.Only K := by
  induction es with
  | nil => exact ⟨nofun, nofun⟩
  | cons e es ih => rw [withinAll, List.forall_mem_append, ih, List.forall_mem_cons, Only]

theorem Binding.forall_withinAll {bs : List Binding} :
    (∀ x ∈ Binding.withinAll bs, K x) ↔ ∀ b ∈ bs, b.Only K := by
  induction bs with
  | nil => exact ⟨nofun, nofun⟩
  | cons b bs ih => rw [withinAll, List.forall_mem_append, ih, List.forall_mem_cons, Only]

theorem Block.forall_withinAll {bs : List Block} :
    (∀ x ∈ Block.withinAll bs, K x) ↔ ∀ b ∈ bs, b.Only K := by
  induction bs with
  | nil => exact ⟨nofun, nofun⟩
  | cons b bs ih => rw [withinAll, List.forall_mem_append, ih, List.forall_mem_cons, Only]

theorem Binding.only_iff {b : Binding} : b.Only K ↔ K b ∧ b.value.Only K := by
  rw [Only, within_eq, List.forall_mem_cons, Expr.Only]

theorem Block.only_iff {b : Block} : b.Only K ↔ ∀ x ∈ b.bindings, x.Only K := by
  rw [Only, within_eq, Binding.forall_withinAll]

namespace Expr

theorem only_leaf (node : Node) (content : Leaf) : (Expr.leaf node content).Only K := nofun

theorem only_var (v : Var) : (Expr.var v).Only K := nofun

theorem only_shape (node : Node) (values : List Dim) : (Expr.shape node values).Only K := nofun

theorem only_prim (node : Node) (value : Dim) (dtype : DType) :
    (Expr.prim node value dtype).Only K := nofun

theorem only_tuple {node : Node} {fields : List Expr} :
    (Expr.tuple node fields).Only K ↔ ∀ e ∈ fields, e.Only K :=
  forall_withinAll

theorem only_call {node : Node} {callee : Expr} {args : List Expr} {attrs : Option Attrs}
    {sinfoArgs : List StructInfo} :
    (Expr.call node callee args attrs sinfoArgs).Only K ↔
      callee.Only K ∧ ∀ e ∈ args, e.Only K := by
  rw [Only, within, List.forall_mem_append, forall_withinAll, Only]

theorem only_ite {node : Node} {cond onTrue onFalse : Expr} :
    (Expr.ite node cond onTrue onFalse).Only K ↔
      cond.Only K ∧ onTrue.Only K ∧ onFalse.Only K := by
  rw [Only, within, List.forall_mem_append, List.forall_mem_append, Only, Only, Only]

theorem only_seq {node : Node} {blocks : List Block} {body : Expr} :
    (Expr.seq node blocks body).Only K ↔ (∀ b ∈ blocks, b.Only K) ∧ body.Only K := by
  rw [Only, within, List.forall_mem_append, Block.forall_withinAll, Only]

private theorem only_withSinfo {e : Expr} {tag : Nat} {i : StructInfo} :
    (e.withSinfo tag i).Only K ↔ e.Only K := by
  rw [Only, within_withSinfo, Only]

end Expr

/-- The bindings in the blocks under construction and in the recorded values, at any depth. -/
def Builder.bindings (b : Builder) : List Binding :=
  (b.frames.flatMap fun frame => Binding.withinAll frame.bindings) ++
    b.bound.entries.flatMap fun e => e.2.within

/-- All bindings in the builder satisfy `K`. -/
structure Builder.Holds (K : Binding → Prop) (b : Builder) : Prop where
  frames : ∀ frame ∈ b.frames, ∀ x ∈ frame.bindings, x.Only K
  bound : ∀ e ∈ b.bound.entries, e.2.Only K

theorem Builder.forall_bindings {b : Builder} : (∀ x ∈ b.bindings, K x) ↔ b.Holds K := by
  rw [bindings, List.forall_mem_append, List.forall_mem_flatMap, List.forall_mem_flatMap]
  simp only [Binding.forall_withinAll]
  exact ⟨fun h => ⟨h.1, h.2⟩, fun h => ⟨h.frames, h.bound⟩⟩

theorem Builder.holds_new (rules : Rules) : (Builder.new rules).Holds K := by
  exact ⟨nofun, nofun⟩

theorem Builder.Holds.lookup {b : Builder} (h : b.Holds K) {v : Var} {value : Expr}
    (hv : b.lookup v = some value) : value.Only K := by
  obtain ⟨before, after, hentries, -⟩ := List.lookup_eq_some_iff.mp hv
  exact h.bound (v.id, value) (hentries ▸ List.mem_append_right _ List.mem_cons_self)

/-- The builder goes on to hold only bindings that satisfy `K`, also where the computation fails,
and what it gives satisfies `Q`. -/
def Act.Yields (K : Binding → Prop) (act : Build σ α) (Q : α → Prop) : Prop :=
  ∀ s, s.builder.Holds K →
    (act.exec s).2.builder.Holds K ∧ ∀ a, (act.exec s).1 = .ok a → Q a

namespace Act.Yields

variable {act : Build σ α} {Q Q' : α → Prop} {R : β → Prop}

theorem mono (h : act.Yields K Q) (hQ : ∀ a, Q a → Q' a) : act.Yields K Q' := by
  intro s hs
  exact ⟨(h s hs).1, fun a ha => hQ a ((h s hs).2 a ha)⟩

theorem pure {a : α} (h : Q a) : (Pure.pure a : Build σ α).Yields K Q := by
  intro _ hs
  exact ⟨hs, fun _ hb => Except.ok.inj hb ▸ h⟩

theorem fail (f : Fault) : (Act.fail f : Build σ α).Yields K Q := by
  intro _ hs
  exact ⟨hs, fun _ => nofun⟩

theorem bind {next : α → Build σ β} (h : act.Yields K Q)
    (k : ∀ a, Q a → (next a).Yields K R) : (act >>= next).Yields K R := by
  intro s hs
  obtain ⟨ht, hQ⟩ := h s hs
  rw [exec_bind]
  revert ht hQ
  rcases act.exec s with ⟨r, t⟩
  intro ht hQ
  cases r with
  | ok a => exact k a (hQ a rfl) t ht
  | error f => exact ⟨ht, fun _ => nofun⟩

theorem attempt (h : act.Yields K Q) : act.attempt.Yields K fun r => ∀ a, r = .ok a → Q a := by
  intro s hs
  refine ⟨(h s hs).1, ?_⟩
  intro _ hr a ha
  exact (h s hs).2 a ((Except.ok.inj hr).trans ha)

theorem resume {r : Except Fault α} (h : ∀ a, r = .ok a → Q a) :
    (Act.resume r : Build σ α).Yields K Q := by
  intro s hs
  rw [exec_resume]
  exact ⟨hs, h⟩

/-- What leaves the builder as it is. -/
theorem of_builder_eq (h : ∀ s, (act.exec s).2.builder = s.builder) :
    act.Yields K fun _ => True := by
  intro s hs
  exact ⟨(h s).symm ▸ hs, fun _ _ => trivial⟩

theorem any (h : act.Yields K Q) : act.Yields K fun _ => True := by
  refine h.mono ?_
  intro _ _
  exact trivial

/-- A list visited element by element. -/
theorem each {γ : Type} {one : γ → Build σ β} {P : γ → Prop} (visit : List γ → Build σ (List β))
    (hnil : visit [] = Pure.pure [])
    (hcons : ∀ a as, visit (a :: as) = do return (← one a) :: (← visit as))
    (h : ∀ a, P a → (one a).Yields K R) {as : List γ} (has : ∀ a ∈ as, P a) :
    (visit as).Yields K fun bs => ∀ b ∈ bs, R b := by
  induction as with
  | nil =>
    rw [hnil]
    exact .pure nofun
  | cons a as ih =>
    obtain ⟨ha, has⟩ := List.forall_mem_cons.mp has
    rw [hcons]
    exact (h a ha).bind fun b hb => (ih has).bind fun bs hbs =>
      .pure (List.forall_mem_cons.mpr ⟨hb, hbs⟩)

end Act.Yields

namespace Session

theorem fresh_yields : (fresh : Build σ Nat).Yields K fun _ => True := by
  refine .of_builder_eq ?_
  intro _
  rfl

theorem freshMark_yields (span : Option Span) :
    (freshMark span : Build σ Mark).Yields K fun _ => True := by
  refine .of_builder_eq ?_
  intro _
  rfl

theorem report_yields (e : Event) : (report e : Build σ Unit).Yields K fun _ => True := by
  refine .of_builder_eq ?_
  intro _
  rfl

theorem getBuilder_yields : (getBuilder : Build σ Builder).Yields K (Builder.Holds K) := by
  intro _ hs
  exact ⟨hs, fun _ hb => Except.ok.inj hb ▸ hs⟩

theorem setRemap_yields (id : Id) (v : Var) :
    (setRemap id v : Build σ Unit).Yields K fun _ => True := by
  refine .of_builder_eq ?_
  intro _
  rfl

theorem openRemap_yields : (openRemap : Build σ Unit).Yields K fun _ => True := by
  refine .of_builder_eq ?_
  intro _
  rfl

theorem closeRemap_yields : (closeRemap : Build σ Unit).Yields K fun _ => True := by
  refine .of_builder_eq fun s => ?_
  rw [exec_closeRemap]
  cases s.remap.closeScope? <;> rfl

theorem beginScope_yields (params : List Var) :
    (beginScope params : Build σ Unit).Yields K fun _ => True := by
  intro _ hs
  exact ⟨⟨hs.frames, hs.bound⟩, fun _ _ => trivial⟩

theorem endScope_yields : (endScope : Build σ Unit).Yields K fun _ => True := by
  intro s hs
  rw [exec_endScope]
  cases s.builder.scopes with
  | nil => exact ⟨hs, fun _ _ => trivial⟩
  | cons => exact ⟨⟨hs.frames, hs.bound⟩, fun _ _ => trivial⟩

theorem beginBlock_yields (kind : BlockKind) :
    (beginBlock kind : Build σ Unit).Yields K fun _ => True := by
  intro _ hs
  refine ⟨?_, fun _ _ => trivial⟩
  refine ⟨?_, hs.bound⟩
  exact List.forall_mem_cons.mpr ⟨nofun, hs.frames⟩

theorem endBlock_yields : (endBlock : Build σ Block).Yields K (Block.Only K) := by
  intro s hs
  have hframes := hs.frames
  rw [exec_endBlock]
  cases hf : s.builder.frames with
  | nil => exact ⟨hs, fun _ => nofun⟩
  | cons frame rest =>
    rw [hf] at hframes
    obtain ⟨hframe, hrest⟩ := List.forall_mem_cons.mp hframes
    exact ⟨⟨hrest, hs.bound⟩, fun b hb => Except.ok.inj hb ▸ Block.only_iff.mpr hframe⟩

/-- The filled-in expression has the struct info that it had, if it had any. -/
theorem normalize_yields {e : Expr} (he : e.Only K) :
    (normalize e : Build σ Expr).Yields K fun e' =>
      e'.Only K ∧ ∀ i, e.sinfo = some i → e'.sinfo = some i := by
  intro s hs
  rw [exec_normalize]
  cases hm : s.builder.missingSinfo e with
  | error f => exact ⟨hs, fun _ => nofun⟩
  | ok r =>
    cases r with
    | none => exact ⟨hs, fun _ h => Except.ok.inj h ▸ ⟨he, fun _ => id⟩⟩
    | some i =>
      refine ⟨hs, fun _ h => Except.ok.inj h ▸ ⟨Expr.only_withSinfo.mpr he, fun j hj => ?_⟩⟩
      rw [Builder.missingSinfo_eq_none hj] at hm
      cases hm

theorem retype_yields (v : Var) (sinfo : Option StructInfo) :
    (retype v sinfo : Build σ Var).Yields K fun v' => ∀ i, sinfo = some i → v'.sinfo = some i := by
  cases sinfo with
  | none => exact .pure nofun
  | some i =>
    rw [retype]
    split
    · next hv => exact .pure fun _ h => hv.trans h
    · exact fresh_yields.bind fun _ _ => .pure fun _ h => h

private theorem requestName_yields (hint : String) :
    (requestName hint : Build σ String).Yields K fun _ => True := by
  intro _ hs
  exact ⟨⟨hs.frames, hs.bound⟩, fun _ _ => trivial⟩

private theorem freshId_yields (hint : String) :
    (freshId hint : Build σ Id).Yields K fun _ => True := by
  exact fresh_yields.bind fun _ _ => .pure trivial

theorem freshVar_yields (hint : String) (sinfo : Option StructInfo) (dataflow : Bool) :
    (freshVar hint sinfo dataflow : Build σ Var).Yields K fun v => v.sinfo = sinfo := by
  refine (requestName_yields _).bind fun _ _ => ?_
  refine (freshMark_yields _).bind fun _ _ => ?_
  exact (freshId_yields _).bind fun _ _ => .pure rfl

theorem emitBinding_yields {b : Binding} (hb : b.Only K) :
    (emitBinding b : Build σ Unit).Yields K fun _ => True := by
  intro s hs
  rw [exec_emitBinding]
  cases hp : s.builder.push b with
  | error f => exact ⟨hs, fun _ => nofun⟩
  | ok builder =>
    obtain ⟨frame, rest, hf, -, rfl⟩ := Builder.push_ok hp
    have hframes := hs.frames
    rw [hf] at hframes
    obtain ⟨hframe, hrest⟩ := List.forall_mem_cons.mp hframes
    refine ⟨⟨List.forall_mem_cons.mpr ⟨?_, hrest⟩, ?_⟩, fun _ _ => trivial⟩
    · exact List.forall_mem_append.mpr ⟨hframe, List.forall_mem_singleton.mpr hb⟩
    · cases b with
      | cast => exact hs.bound
      | bind mark v value =>
        refine List.forall_mem_cons.mpr ⟨(Binding.only_iff.mp hb).2, fun e he => ?_⟩
        exact hs.bound e (List.mem_filter.mp he).1

end Session

end DataflowIR
