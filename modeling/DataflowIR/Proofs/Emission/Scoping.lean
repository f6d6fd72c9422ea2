import DataflowIR.Proofs.Emission.Conservation
import DataflowIR.Proofs.Emission.Landing
import DataflowIR.Proofs.Lowering.Regular
import DataflowIR.Proofs.Scoping.Confinement

namespace DataflowIR

open Scope (Mention Op Walk Fit Lands Matches)
open Session Transformer

section Kinds

variable {kind : Id → Bool}

mutual

private theorem Expr.bound_of_isNormal {e : Expr} (h : e.isNormal) : e.bound = [] := by
  cases e with
  | leaf | var _ | shape | prim => rfl
  | tuple _ _ => exact Expr.boundAll_of_areNormal h
  | item | call | ite | seq | function => cases h

theorem Expr.boundAll_of_areNormal {es : List Expr} (h : Expr.areNormal es) :
    Expr.boundAll es = [] := by
  cases es with
  | nil => rfl
  | cons e es =>
    rw [Expr.areNormal, Bool.and_eq_true] at h
    rw [Expr.boundAll, Expr.bound_of_isNormal h.1, Expr.boundAll_of_areNormal h.2, List.append_nil]

end

mutual

/-- The variables that are bound are each of the kind of their identity. -/
theorem Expr.bound_of_fit {asBody : Bool} {e : Expr} (h : Fit kind (e.ops asBody)) :
    ∀ v ∈ e.bound, v.dataflow = kind v.id := by
  cases e with
  | leaf | var _ | shape | prim => nofun
  | tuple _ _ =>
    rw [Expr.bound, Expr.boundAll_of_areNormal (Expr.areNormal_of_fits h.mentions)]
    exact nofun
  | item _ whole _ =>
    exact show ∀ v ∈ whole.bound, v.dataflow = kind v.id from Expr.bound_of_fit h.item
  | call =>
    obtain ⟨hc, ha⟩ := h.call
    rw [Expr.bound, Expr.boundAll_of_areNormal (Expr.areNormal_of_fits ha), List.append_nil]
    exact Expr.bound_of_fit hc
  | ite =>
    obtain ⟨hc, ht, hf⟩ := h.ite
    exact List.forall_mem_append.mpr ⟨Expr.bound_of_fit hc,
      List.forall_mem_append.mpr ⟨Expr.bound_of_fit ht, Expr.bound_of_fit hf⟩⟩
  | seq =>
    obtain ⟨-, hb, hy⟩ := h.seq
    exact List.forall_mem_append.mpr ⟨Block.boundAll_of_fit hb, Expr.bound_of_fit hy⟩
  | function =>
    obtain ⟨hp, hb⟩ := h.function
    exact List.forall_mem_append.mpr ⟨hp, Expr.bound_of_fit hb⟩

theorem Binding.bound_of_fit {b : Binding} (h : Fit kind b.ops) :
    ∀ v ∈ b.bound, v.dataflow = kind v.id := by
  cases b with
  | bind => exact List.forall_mem_cons.mpr ⟨h.bind.2, Expr.bound_of_fit h.bind.1⟩
  | cast => exact List.forall_mem_cons.mpr ⟨h.cast.2, Expr.bound_of_fit h.cast.1⟩

theorem Binding.boundAll_of_fit {bs : List Binding} (h : Fit kind (Binding.opsAll bs)) :
    ∀ v ∈ Binding.boundAll bs, v.dataflow = kind v.id := by
  cases bs with
  | nil => nofun
  | cons _ _ =>
    refine List.forall_mem_append.mpr ?_
    exact ⟨Binding.bound_of_fit h.append.1, Binding.boundAll_of_fit h.append.2⟩

theorem Block.bound_of_fit {b : Block} (h : Fit kind b.ops) :
    ∀ v ∈ b.bound, v.dataflow = kind v.id := by
  cases b with
  | mk => exact Binding.boundAll_of_fit h.block

theorem Block.boundAll_of_fit {bs : List Block} (h : Fit kind (Block.opsAll bs)) :
    ∀ v ∈ Block.boundAll bs, v.dataflow = kind v.id := by
  cases bs with
  | nil => nofun
  | cons _ _ =>
    refine List.forall_mem_append.mpr ?_
    exact ⟨Block.bound_of_fit h.append.1, Block.boundAll_of_fit h.append.2⟩

end

end Kinds

namespace Scope

variable {known : String → Bool}

private theorem matches_start {base : Nat} {new : Multiset Id} (h : ∀ id ∈ new, base ≤ id.index) :
    Matches base new .start .start := by
  refine ⟨fun _ _ => .rfl, fun _ _ => .rfl, .nil, fun _ hs => hs, rfl, ?_⟩
  intro id hid
  exact ⟨h id hid, List.not_mem_nil, List.not_mem_nil, nofun⟩

/-- A run that succeeds still does so exactly where no handler acts at one of the moments. -/
theorem Lands.run_iff {acts : Moment → Bool} {ms : List Moment} {ops ops' : List Op} {n n' : Nat}
    {g : List Binding} (h : Lands acts ms false ops ops' n n' g)
    (hr : ∃ w, run known ops .start = some w)
    (hold : ∀ op ∈ ops, ∀ a, op.var? = some a → a.1.index < n) :
    (∃ w, run known ops' .start = some w) ↔ ∀ m ∈ ms, acts m = false := by
  obtain ⟨new, hn, h⟩ := h
  cases h with
  | well hq k =>
    refine ⟨fun _ => hq, fun _ => ?_⟩
    have hnew := hn.subset (Multiset.le_add_left new _)
    obtain ⟨w, hr⟩ := hr
    have hw := matches_start fun id hid => (hnew.mem id hid).1
    exact k.run hw rfl (fun _ => rfl) hnew.nodup hold hr
  | badly hm ha k =>
    refine ⟨?_, fun hq => ?_⟩
    · rintro ⟨w, hw⟩
      rw [run_eq_none_of_misplaced k] at hw
      cases hw
    · rw [hq _ hm] at ha
      cases ha

end Scope

namespace Module

variable {m : Module} {g : GlobalVar} {f : Function}

/-- A function that is there makes room for the other one. -/
private theorem exists_insert_eq (hf : (g, f) ∈ m.toList) : ∃ before after,
    m.functions.entries = before ++ (g.name, g, f) :: after ∧
      ∀ f', (m.insert g f').functions.entries = before ++ (g.name, g, f') :: after := by
  obtain ⟨⟨name, _⟩, he, rfl⟩ := List.mem_map.mp hf
  obtain rfl : g.name = name := m.named _ he
  obtain ⟨before, after, heq⟩ := List.append_of_mem he
  have hsorted := heq ▸ m.functions.sorted
  refine ⟨before, after, heq, fun f' => ?_⟩
  simp only [insert, Dictionary.insert, heq]
  exact Dictionary.insertEntry_append g.name (g, f) (g, f') hsorted

/-- A module in which another function took the place of one is well formed where that function
is. -/
private theorem wellFormed_insert_iff (hwf : m.wellFormed = .ok ()) (hf : (g, f) ∈ m.toList)
    (f' : Function) : (m.insert g f').wellFormed = .ok () ↔
      ∃ w, Scope.run m.contains f'.ops .start = some w := by
  obtain ⟨before, after, heq, hins⟩ := exists_insert_eq hf
  have hcontains : (m.insert g f').contains = m.contains := by
    funext name
    simp only [contains, Dictionary.contains, heq, hins, List.any_append, List.any_cons]
  rw [wellFormed_iff_run] at hwf ⊢
  simp only [toList, heq, hins, List.map_append, List.map_cons, List.forall_mem_append,
    List.forall_mem_cons] at hwf ⊢
  rw [hcontains]
  exact ⟨fun h => h.2.1, fun h => ⟨hwf.1, h, hwf.2.2⟩⟩

end Module

section Tables

variable {σ : Type}

/-- The step binds one constant. -/
def Act.AddsConstant (act : Build σ Unit) : Prop :=
  ∀ (V : Id → Var → Prop) s s', act.exec s = (.ok (), s') → ∃ b, s.Gets V [b] [b] s' ∧
    b.BindsConstant s.builder.inDataflow s.world.next s'.world.next

/-- The handler binds one constant and leaves its place to the default. -/
def Transformer.AddsConstant (h : Transformer σ) : Prop :=
  ∃ before : Site → Build σ Unit, (∀ site, (before site).AddsConstant) ∧
    h = surround before fun _ _ => pure ()

/-- The hook binds one constant and gives back the node. -/
def Hook.AddsConstant (h : Hook σ) : Prop :=
  ∃ after : Expr → Build σ Unit, (∀ e, (after e).AddsConstant) ∧ h = fun _ e => do
    after e
    return e

namespace TransformerTable

structure AddsConstants (t : TransformerTable σ) : Prop where
  handler : ∀ {slot h}, t.handler slot = some h → h.AddsConstant
  hook : ∀ {kind h}, t.hook kind = some h → Hook.AddsConstant h

/-- Whether the table has a handler for the moment, or else a hook. -/
def acts (t : TransformerTable σ) : Moment → Bool
  | .before site => (site.slot?.bind t.handler).isSome
  | .after site => (site.slot?.bind t.handler).isNone && (t.hookAt site).isSome

variable {t : TransformerTable σ} {m : Moment}

private theorem emits_of_addsConstant {act : Build σ Unit} (h : act.AddsConstant)
    (ha : t.acts m = true) :
    act.Emits (.constants t.acts) m := by
  intro V s a s' hs
  obtain ⟨b, hg, hb⟩ := h V s s' hs
  exact ⟨[b], hg, hg.next, by rw [if_pos ha]; exact ⟨b, rfl, hb⟩⟩

theorem emits_pure (ha : t.acts m = false) :
    (pure () : Build σ Unit).Emits (.constants t.acts) m := by
  intro V s a s' hs
  obtain ⟨-, rfl⟩ := Act.exec_pure_ok.mp hs
  exact ⟨[], .refl s, le_refl _, by rw [ha]; rfl⟩

theorem AddsConstants.surrounds (ht : t.AddsConstants) (site : Site) :
    t.transformer.Surrounds (.constants t.acts) site := by
  apply TransformerTable.surrounds
  · intro slot h hs hslot
    obtain ⟨before, hb, rfl⟩ := ht.handler hslot
    have h1 : t.acts (.before site) = true := by simp [acts, hs, hslot]
    have h2 : t.acts (.after site) = false := by simp [acts, hs, hslot]
    exact .handled _ _ (emits_of_addsConstant (hb site) h1) (fun _ => emits_pure h2) fun _ => rfl
  · intro h hnone hook
    have hbind : site.slot?.bind t.handler = none := Option.bind_eq_none_iff.mpr hnone
    have h1 : t.acts (.before site) = false := by simp [acts, hbind]
    have h2 : t.acts (.after site) = true := by simp [acts, hbind, hook]
    cases site with
    | exprKind e =>
      obtain ⟨after, ha, rfl⟩ := ht.hook hook
      refine .hooked (pure ()) after (emits_pure h1) (fun r => emits_of_addsConstant (ha r) h2) ?_
      intro self
      simp [runHook]
    | _ => cases hook
  · intro hnone hook
    have hbind : site.slot?.bind t.handler = none := Option.bind_eq_none_iff.mpr hnone
    have h1 : t.acts (.before site) = false := by simp [acts, hbind]
    have h2 : t.acts (.after site) = false := by simp [acts, hook]
    refine .handled (pure ()) (fun _ => pure ()) (emits_pure h1) (fun _ => emits_pure h2) ?_
    intro self
    simp

end TransformerTable

/-- Handlers that each bind a constant and leave their place to the default keep a well-formed
module well formed, whichever function is visited, exactly where none of them acts on a sequence of
blocks or on a block: what is emitted there comes to stand before the sequence, inside another one.
Each variable is to be of one kind, and no dataflow block to stand inside another. -/
theorem visit_wellFormed_iff {t : TransformerTable σ} (ht : t.AddsConstants) {fuel : Fuel}
    {m : Module} {g : GlobalVar} {f f' : Function} {s s' : Session σ}
    (hwf : m.wellFormed = .ok ()) (hf : (g, f) ∈ m.toList) (hk : f.OneKind)
    (hflat : f.toExpr.isFlat false) (htags : Below s.world.next f.toExpr.tags)
    (hids : Below s.world.next ((Scope.ids f.ops).map Id.index)) (hr : s.remap = .empty)
    (h : (run t.transformer fuel (.expr f.toExpr)).exec s = (.ok f'.toExpr, s')) :
    (m.insert g f').wellFormed = .ok () ↔ ∀ mo ∈ f.toExpr.seqMoments, t.acts mo = false := by
  obtain ⟨w, hrun⟩ := Module.wellFormed_iff_run.mp hwf (g, f) hf
  obtain ⟨kind, hfit⟩ := hk.fit hrun
  -- What replaces a use is always of the identity used and of its kind.
  have hbound : ∀ v ∈ f.toExpr.bound, v.Replaceable (Var.OfKind kind) := fun v hv v' hid hd =>
    ⟨hid, hd.trans (Expr.bound_of_fit hfit v hv)⟩
  have hremap : s.remap.Within (Var.OfKind kind) := by
    rw [hr]
    exact ⟨nofun, nofun⟩
  obtain ⟨_, _, -, hv⟩ := (run_conforms ht.surrounds fuel).expr hremap hbound h
  have hlands := hv.lands hfit hflat htags
  rw [Module.wellFormed_insert_iff hwf hf f']
  apply hlands.run_iff ⟨w, hrun⟩
  intro op hop a ha
  exact hids _ (List.mem_map_of_mem (List.mem_filterMap.mpr ⟨op, hop, by rw [ha]; rfl⟩))

private theorem Session.emit_addsConstant {node : Node} {values : List Literal} {shape : List Int}
    {dtype : DType} (hint : String) :
    (do let _ ← emit (.leaf node (.constant values shape dtype)) hint :
      Build σ Unit).AddsConstant := by
  intro V s s' h
  obtain ⟨_, s1, h1, h2⟩ := Act.exec_bind_ok.mp h
  obtain ⟨-, rfl⟩ := Act.exec_pure_ok.mp h2
  obtain ⟨b, hg, hb⟩ := emit_gets (V := V) h1
  exact ⟨b, hg, _, _, _, _, hb⟩

end Tables

namespace Scattered

def var (index : Nat) (name : String) (dataflow : Bool) : Var :=
  ⟨⟨⟨index, none⟩, none⟩, ⟨index, name⟩, dataflow⟩

def x : Var := var 0 "x" false

def y : Var := var 1 "y" false

def l : Var := var 2 "l" true

def g : Var := var 3 "g" false

def r : Var := var 4 "r" false

def bind (tag : Nat) (v : Var) (value : Expr) : Binding :=
  .bind ⟨tag, none⟩ v value

def function (param : Var) (blocks : List Block) (result : Var) : Function :=
  ⟨⟨⟨10, none⟩, none⟩, [param], .seq ⟨⟨11, none⟩, none⟩ blocks (.var result), .object, .empty⟩

def plain (bindings : List Binding) : Block :=
  .mk ⟨12, none⟩ .plain bindings

def dataflow (bindings : List Binding) : Block :=
  .mk ⟨13, none⟩ .dataflow bindings

def main : GlobalVar :=
  ⟨⟨⟨14, none⟩, none⟩, "main"⟩

def module (f : Function) : Module :=
  Module.empty.insert main f

def one : Build Unit Unit := do
  let _ ← emit (.leaf ⟨⟨15, none⟩, none⟩ (.constant [.int 1] [] .int64)) "c"

/-- A constant is bound at the slots, and after the nodes of the kinds. -/
def table (slots : List Slot) (kinds : List ExprKind) : TransformerTable Unit where
  handler slot := if slot ∈ slots then some (surround (fun _ => one) fun _ _ => pure ()) else none
  hook kind := if kind ∈ kinds then some fun _ e => do one; return e else none
  strict := false

theorem table_addsConstants (slots : List Slot) (kinds : List ExprKind) :
    (table slots kinds).AddsConstants := by
  constructor
  · intro slot h hs
    simp only [table, Option.ite_none_right_eq_some, Option.some.injEq] at hs
    exact ⟨_, fun _ => emit_addsConstant "c", hs.2.symm⟩
  · intro kind h hs
    simp only [table, Option.ite_none_right_eq_some, Option.some.injEq] at hs
    exact ⟨_, fun _ => emit_addsConstant "c", hs.2.symm⟩

def visit (t : TransformerTable Unit) (f : Function) : Except Fault Expr × Session Unit :=
  (run t.transformer (.ofNat 40) (.expr f.toExpr)).exec (.new () .standard ⟨30, []⟩)

/-- The function that a visit gives. -/
def visited (t : TransformerTable Unit) (f : Function) : Option Function :=
  (visit t f).1.toOption.bind Expr.asFunction?

private theorem exists_visit {t : TransformerTable Unit} {f : Function} (h : (visited t f).isSome) :
    ∃ f', visited t f = some f' ∧ visit t f = (.ok f'.toExpr, (visit t f).2) := by
  obtain ⟨f', hf⟩ := Option.isSome_iff_exists.mp h
  obtain ⟨e, he, hfun⟩ := Option.bind_eq_some_iff.mp hf
  obtain rfl := Expr.eq_toExpr_of_asFunction? hfun
  exact ⟨f', hf, Prod.ext (Except.toOption_eq_some_iff.mp he) rfl⟩

/-- The table takes the module to one that is not well formed. -/
def Breaks (t : TransformerTable Unit) (f : Function) : Prop :=
  t.AddsConstants ∧ (module f).wellFormed = .ok () ∧ ∃ f' s', visit t f = (.ok f'.toExpr, s') ∧
    ((module f).insert main f').wellFormed ≠ .ok ()

theorem Breaks.of_visited {t : TransformerTable Unit} {f : Function} (ht : t.AddsConstants)
    (hwf : (module f).wellFormed.isOk)
    (h : (visited t f).any fun f' => !((module f).insert main f').wellFormed.isOk) :
    Breaks t f := by
  have hs : (visited t f).isSome := by
    cases hv : visited t f with
    | none => simp [hv] at h
    | some => rfl
  obtain ⟨f', hf, hvisit⟩ := exists_visit hs
  refine ⟨ht, Module.wellFormed_of_isOk hwf, f', _, hvisit, ?_⟩
  intro hok
  simp [hf, hok, Except.isOk, Except.toBool] at h

/-- A dataflow block with a function in it, and a conditional after them. -/
def nested : Function :=
  function x [
    dataflow [bind 20 l (.var x),
      bind 21 g (function y [plain [bind 22 (var 5 "z" false) (.var l)]] y).toExpr],
    plain [bind 23 r (.ite ⟨⟨24, none⟩, none⟩ (.var x) (.var x) (.var g))]] r

def single : Function :=
  function x [plain [bind 20 g (.var x)]] g

/-- A dataflow block inside a dataflow block. -/
def inner : Function :=
  function x [dataflow [
    bind 20 r (function y [dataflow [bind 21 l (.var y)]] y).toExpr, bind 22 g (.var x)]] g

/-- The identity of `g` is that of a dataflow variable, too. -/
def shared : Function :=
  function x [plain [bind 20 g (.var x)],
    dataflow [bind 21 (var 3 "g" true) (.tuple ⟨⟨22, none⟩, none⟩ [.var x])],
    plain [bind 23 r (.var g)]] r

end Scattered

open Scattered in
theorem visit_wellFormed_nested : ∃ f' s',
    visit (table [.exprKind .var, .binding] [.dataflowVar, .ite]) nested = (.ok f'.toExpr, s') ∧
      ((module nested).insert main f').wellFormed = .ok () := by
  obtain ⟨f', -, h⟩ := exists_visit (t := table [.exprKind .var, .binding] [.dataflowVar, .ite])
    (f := nested) (by decide +kernel)
  have hwf : (module nested).wellFormed = .ok () := Module.wellFormed_of_isOk (by decide +kernel)
  have hk : nested.OneKind := by decide +kernel
  refine ⟨f', _, h, (visit_wellFormed_iff (table_addsConstants _ _) hwf (List.mem_singleton_self _)
    hk (by decide +kernel) (by decide +kernel) (by decide +kernel) rfl h).mpr ?_⟩
  decide +kernel

open Scattered in
/-- A handler for sequences, one for blocks, a dataflow block inside another and an identity of both
kinds each take a well-formed module to one that is not. -/
theorem visit_breaks_wellFormed :
    Breaks (table [.exprKind .seqExpr] []) single ∧ Breaks (table [.block] []) single ∧
      Breaks (table [.exprKind .var] []) inner ∧ Breaks (table [.exprKind .var] []) shared := by
  refine ⟨.of_visited (table_addsConstants _ _) ?_ ?_, .of_visited (table_addsConstants _ _) ?_ ?_,
    .of_visited (table_addsConstants _ _) ?_ ?_, .of_visited (table_addsConstants _ _) ?_ ?_⟩
  all_goals decide +kernel

end DataflowIR
