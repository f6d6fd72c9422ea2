import DataflowIR.Proofs.Emission.Insertions
import DataflowIR.Proofs.Emission.Steps

namespace DataflowIR

open Scope (Op Mention Fit Extends)

/-- The identities are different ones, made while the supply went from `n` to `n'`. -/
structure Minted (n n' : Nat) (ids : Multiset Id) : Prop where
  le : n ≤ n'
  nodup : ids.Nodup
  mem : ∀ id ∈ ids, n ≤ id.index ∧ id.index < n'

namespace Minted

variable {n n1 n' : Nat} {ids ids' : Multiset Id}

theorem zero (h : n ≤ n') : Minted n n' 0 := by
  exact ⟨h, Multiset.nodup_zero, nofun⟩

theorem add (h : Minted n n1 ids) (k : Minted n1 n' ids') : Minted n n' (ids + ids') := by
  refine ⟨h.le.trans k.le, ?_, ?_⟩
  · refine Multiset.nodup_add.mpr ⟨h.nodup, k.nodup, Multiset.disjoint_left.mpr ?_⟩
    intro id hid hid'
    have hlt := (h.mem id hid).2
    have hle := (k.mem id hid').1
    omega
  · intro id hid
    obtain hid | hid := Multiset.mem_add.mp hid
    · exact ⟨(h.mem id hid).1, (h.mem id hid).2.trans_le k.le⟩
    · exact ⟨h.le.trans (k.mem id hid).1, (k.mem id hid).2⟩

theorem subset (h : Minted n n' ids) (hs : ids' ≤ ids) : Minted n n' ids' := by
  refine ⟨h.le, Multiset.nodup_of_le hs h.nodup, ?_⟩
  intro id hid
  exact h.mem id (Multiset.mem_of_le hs hid)

theorem of_eq (h : Minted n n' ids) (he : ids' = ids) : Minted n n' ids' := by
  rw [he]
  exact h

end Minted

namespace Binding

/-- The identities of the variables bound, in the order of the bindings. -/
def newIds (bs : List Binding) : Multiset Id :=
  (bs.map fun b => b.var.id : List Id)

theorem newIds_append (bs cs : List Binding) : newIds (bs ++ cs) = newIds bs + newIds cs := by
  rw [newIds, List.map_append, ← Multiset.coe_add, newIds, newIds]

/-- A constant is bound, to a dataflow variable in a dataflow block only. -/
structure HoldsConstant (d : Bool) (b : Binding) : Prop where
  value : ∃ node values shape dtype, b.value = .leaf node (.constant values shape dtype)
  dataflow : b.var.dataflow = true → d = true

/-- A constant is bound to a new variable. -/
def BindsConstant (d : Bool) (n n' : Nat) (b : Binding) : Prop :=
  ∃ node values shape dtype, b.Binds d n (.leaf node (.constant values shape dtype)) n'

theorem BindsConstant.holds {d : Bool} {n n' : Nat} {b : Binding} (h : b.BindsConstant d n n') :
    b.HoldsConstant d := by
  obtain ⟨node, values, shape, dtype, hb⟩ := h
  refine ⟨?_, hb.dataflow⟩
  have hv := hb.value
  generalize b.value = value at hv
  cases hv with
  | kept => exact ⟨_, _, _, _, rfl⟩
  | filled => exact ⟨_, _, _, _, rfl⟩

end Binding

/-- Bindings of constants to new variables. -/
structure Extras (d : Bool) (n n' : Nat) (g : List Binding) : Prop where
  constants : ∀ b ∈ g, b.HoldsConstant d
  fresh : Minted n n' (Binding.newIds g)

namespace Extras

variable {d : Bool} {n n1 n' : Nat} {g g' : List Binding}

theorem nil (h : n ≤ n') : Extras d n n' [] := by
  exact ⟨nofun, .zero h⟩

theorem append (h : Extras d n n1 g) (k : Extras d n1 n' g') : Extras d n n' (g ++ g') := by
  refine ⟨List.forall_mem_append.mpr ⟨h.constants, k.constants⟩, ?_⟩
  rw [Binding.newIds_append]
  exact h.fresh.add k.fresh

/-- The operations of the new bindings may be inserted where a dataflow block is open if one is open
where they were emitted. -/
theorem inserted {c : Bool} (h : Extras d n n' g) (hd : d = true → c = true) :
    Extends c [] (Binding.opsAll g) c (Binding.newIds g) := by
  obtain ⟨h, -⟩ := h
  induction g with
  | nil => exact .nil
  | cons b g ih =>
    obtain ⟨hb, hg⟩ := List.forall_mem_cons.mp h
    obtain ⟨node, values, shape, dtype, hv⟩ := hb.value
    have hdef : ∀ {ops}, Extends c [] ops c (Binding.newIds g) →
        Extends c [] (.define b.var.id b.var.dataflow :: ops) c (Binding.newIds (b :: g)) :=
      .define fun ht => hd (hb.dataflow ht)
    cases b with
    | bind mark v value =>
      obtain rfl := hv
      exact hdef (.grant trivial (ih hg))
    | cast mark v value sinfo =>
      obtain rfl := hv
      exact .grant trivial (hdef (ih hg))

end Extras

/-- One constant is bound at each moment of those that `acts` has. -/
def Emissions.constants (acts : Moment → Bool) : Emissions where
  emits m d n bs n' :=
    n ≤ n' ∧ if acts m then ∃ b, bs = [b] ∧ b.BindsConstant d n n' else bs = []
  le h := h.1

section Constants

variable {acts : Moment → Bool} {V : Id → Var → Prop}

namespace Emissions.Row

variable {d : Bool} {ms : List Moment} {n n' : Nat} {x : List Binding}

theorem extras (h : (Emissions.constants acts).Row d ms n x n') : Extras d n n' x := by
  induction h with
  | nil h => exact .nil h
  | cons h hm _ ih =>
    refine (Extras.nil h).append (.append ?_ ih)
    obtain ⟨hn, hm⟩ := hm
    split at hm
    · obtain ⟨b, rfl, hb⟩ := hm
      refine ⟨List.forall_mem_singleton.mpr hb.holds, hn, Multiset.nodup_singleton _, ?_⟩
      intro id hid
      obtain rfl := Multiset.mem_singleton.mp hid
      obtain ⟨_, _, _, _, hb⟩ := hb
      exact ⟨hb.le, hb.lt⟩
    · obtain rfl := hm
      exact .nil hn

theorem eq_nil_iff (h : (Emissions.constants acts).Row d ms n x n') :
    x = [] ↔ ∀ m ∈ ms, acts m = false := by
  induction h with
  | nil => exact ⟨fun _ => nofun, fun _ => rfl⟩
  | @cons m ms _ _ _ _ _ y _ hm _ ih =>
    rw [List.append_eq_nil_iff, List.forall_mem_cons, ih]
    apply and_congr_left'
    obtain ⟨-, hm⟩ := hm
    cases hacts : acts m with
    | true =>
      rw [if_pos hacts] at hm
      obtain ⟨b, rfl, -⟩ := hm
      simp
    | false =>
      rw [hacts] at hm
      exact ⟨fun _ => rfl, fun _ => hm⟩

end Emissions.Row

mutual

theorem Expr.Visits.extras {e e' : Expr} {g l : List Binding} {d : Bool} {n n' : Nat}
    (h : Expr.Visits (.constants acts) V d n e g l e' n') : Extras d n n' g := by
  match h with
  | .mk hb hw _ ha => exact hb.extras.append ((Expr.Walks.extras hw).append ha.extras)

theorem Expr.Walks.extras {e e' : Expr} {g l : List Binding} {d : Bool} {n n' : Nat}
    (hwalks : Expr.Walks (.constants acts) V d n e g l e' n') : Extras d n n' g := by
  match hwalks with
  | .leaf | .var _ => exact .nil (le_refl _)
  | .shape h | .prim h => exact h.extras
  | .tuple hf _ => exact Expr.VisitAll.extras hf
  | .item hw _ => exact Expr.Visits.extras hw
  | .call hc ht ha _ =>
    refine (Expr.Visits.extras hc).append ?_
    exact ht.extras.append (Expr.VisitAll.extras ha)
  | .ite hc ht hf _ =>
    have h := (Expr.Visits.extras hc).append (.nil (ht.le.trans hf.le))
    rwa [List.append_nil] at h
  | .seq hb hy _ =>
    have h := (Block.VisitAll.extras hb).append (.nil hy.le)
    rwa [List.append_nil] at h
  | .function hp hb _ =>
    have h := hp.extras.append (.nil hb.le)
    rwa [List.append_nil] at h

theorem Expr.VisitAll.extras {es es' : List Expr} {g l : List Binding} {d : Bool} {n n' : Nat}
    (h : Expr.VisitAll (.constants acts) V d n es g l es' n') : Extras d n n' g := by
  match h with
  | .nil => exact .nil (le_refl _)
  | .cons he hs => exact (Expr.Visits.extras he).append (Expr.VisitAll.extras hs)

theorem Block.Visits.extras {b b' : Block} {g l : List Binding} {d : Bool} {n n' : Nat}
    (hvisits : Block.Visits (.constants acts) V d n b g l b' n') : Extras d n n' g := by
  match hvisits with
  | .mk hb hv _ ha =>
    have h := (hb.extras.append (.nil hv.le)).append ha.extras
    rwa [List.append_nil] at h

theorem Block.VisitAll.extras {bs bs' : List Block} {g l : List Binding} {d : Bool} {n n' : Nat}
    (h : Block.VisitAll (.constants acts) V d n bs g l bs' n') : Extras d n n' g := by
  match h with
  | .nil => exact .nil (le_refl _)
  | .cons hb hs => exact (Block.Visits.extras hb).append (Block.VisitAll.extras hs)

end

/-- Nothing is emitted around blocks where no handler acts on one of them. -/
theorem Block.VisitAll.eq_nil_iff {bs bs' : List Block} {g l : List Binding} {d : Bool} {n n' : Nat}
    (h : Block.VisitAll (.constants acts) V d n bs g l bs' n') :
    g = [] ↔ ∀ m ∈ bs.flatMap Block.around, acts m = false := by
  induction bs generalizing n g l bs' with
  | nil =>
    cases h
    exact ⟨fun _ => nofun, fun _ => rfl⟩
  | cons b bs ih =>
    cases h with
    | cons hb hs =>
      cases hb with
      | mk hb _ _ ha =>
        rw [List.append_eq_nil_iff, List.append_eq_nil_iff, hb.eq_nil_iff, ha.eq_nil_iff, ih hs,
          List.flatMap_cons, List.forall_mem_append, Block.around, List.forall_mem_append]

end Constants

/-- A variable of the identity, of its kind. -/
def Var.OfKind (kind : Id → Bool) (id : Id) (w : Var) : Prop :=
  w.id = id ∧ w.dataflow = kind id

section Mentions

variable {E : Emissions} {kind : Id → Bool} {d : Bool} {n n' : Nat} {g l : List Binding}

theorem Var.OfKind.mention_eq {v w : Var} (h : w = v ∨ Var.OfKind kind v.id w)
    (hv : (Mention.var v.id v.dataflow).Fits kind) :
    Mention.var w.id w.dataflow = .var v.id v.dataflow := by
  obtain rfl | ⟨hid, hd⟩ := h
  · rfl
  · rw [hid, hd, show v.dataflow = kind v.id from hv]

mutual

/-- What may be an argument mentions what it did. -/
theorem Expr.Visits.mentions {d : Bool} {n n' : Nat} {e e' : Expr} {g l : List Binding}
    (hfit : ∀ m ∈ e.mentions, m.Fits kind) (h : Expr.Visits E (Var.OfKind kind) d n e g l e' n') :
    e'.mentions = e.mentions := by
  match h with
  | .mk _ hw hf _ =>
    rw [← Expr.Walks.mentions hfit hw]
    cases hf with
    | kept => rfl
    | filled => exact Expr.mentions_withNode _ _

theorem Expr.Walks.mentions {d : Bool} {n n' : Nat} {e e' : Expr} {g l : List Binding}
    (hfit : ∀ m ∈ e.mentions, m.Fits kind)
    (hwalks : Expr.Walks E (Var.OfKind kind) d n e g l e' n') : e'.mentions = e.mentions := by
  match hwalks with
  | .leaf | .shape _ | .prim _ => rfl
  | .var h =>
    refine congrArg (fun m => [m]) ?_
    exact Var.OfKind.mention_eq h (hfit _ (List.mem_singleton_self _))
  | .tuple hf hs =>
    have hall := Expr.VisitAll.mentions hfit hf
    cases hs with
    | same => rfl
    | changed => exact hall
  | .item .. | .call .. | .ite .. | .seq .. | .function .. =>
    exact (hfit _ (List.mem_singleton_self _)).elim

theorem Expr.VisitAll.mentions {d : Bool} {n n' : Nat} {es es' : List Expr} {g l : List Binding}
    (hfit : ∀ m ∈ Expr.mentionsAll es, m.Fits kind)
    (h : Expr.VisitAll E (Var.OfKind kind) d n es g l es' n') :
    Expr.mentionsAll es' = Expr.mentionsAll es := by
  match h with
  | .nil => rfl
  | .cons he hs =>
    obtain ⟨h1, h2⟩ := List.forall_mem_append.mp hfit
    rw [Expr.mentionsAll, Expr.Visits.mentions h1 he, Expr.VisitAll.mentions h2 hs,
      Expr.mentionsAll]

end

theorem Expr.Visits.ops_of_sameAs {e e' : Expr} {asBody : Bool} (hfit : Fit kind (e.ops asBody))
    (h : Expr.Visits E (Var.OfKind kind) d n e g l e' n') (ht : Below n e.tags) (hs : e'.sameAs e)
    (asBody' : Bool) : e'.ops asBody' = e.ops asBody' := by
  obtain rfl | ⟨v, w, rfl, rfl, hw⟩ := h.eq_of_sameAs (ht _ e.tag_mem_tags) hs
  · rfl
  · exact congrArg (fun m => [Op.mention m]) (Var.OfKind.mention_eq (.inr hw) hfit.cons.1)

theorem Expr.Scoped.ops_of_sameAs {e e' : Expr} (hfit : Fit kind (e.ops true))
    (h : Expr.Scoped E (Var.OfKind kind) n e l e' n') (ht : Below n e.tags) (hs : e'.sameAs e) :
    e'.ops true = e.ops true := by
  cases h with
  | bare h => exact h.ops_of_sameAs hfit ht hs true
  | prefaced h _ hm =>
    -- The sequence around has a new tag, which no node of `e` has.
    have htag : _ = e.tag := beq_iff_eq.mp hs
    have hlt := ht _ e.tag_mem_tags
    have hn := h.le
    simp only [Expr.tag, Expr.node] at htag hlt
    omega

end Mentions

end DataflowIR
