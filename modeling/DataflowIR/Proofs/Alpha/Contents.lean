import DataflowIR.Analysis.AlphaEquiv
import Mathlib.Tactic.Tauto

namespace DataflowIR

/-- The test holds of values with one canonical content that is proper. -/
def Equates {α β : Type} (test : α → α → Bool) (canonical : α → β) (Proper : β → Prop) : Prop :=
  ∀ x y, test x y = true ↔ canonical x = canonical y ∧ Proper (canonical x)

namespace Equates

variable {α β : Type} {test : α → α → Bool} {canonical : α → β} {Proper : β → Prop}

theorem symm (h : Equates test canonical Proper) {x y : α} (hxy : test x y = true) :
    test y x = true := by
  obtain ⟨he, hp⟩ := (h x y).mp hxy
  exact (h y x).mpr ⟨he.symm, he ▸ hp⟩

theorem trans (h : Equates test canonical Proper) {x y z : α} (hxy : test x y = true)
    (hyz : test y z = true) : test x z = true := by
  obtain ⟨he, hp⟩ := (h x y).mp hxy
  exact (h x z).mpr ⟨he.trans ((h y z).mp hyz).1, hp⟩

theorem list [BEq α] (h : Equates (α := α) (· == ·) canonical Proper) :
    Equates (α := List α) (· == ·) (List.map canonical) (∀ c ∈ ·, Proper c) := by
  intro xs
  induction xs with
  | nil =>
    intro ys
    cases ys <;> simp
  | cons x xs ih =>
    intro ys
    cases ys with
    | nil => simp
    | cons y ys =>
      have hx := h x y
      have hxs := ih ys
      simp only at hx hxs
      simp only [List.cons_beq_cons, Bool.and_eq_true, hx, hxs, List.map_cons, List.cons.injEq,
        List.forall_mem_cons]
      exact and_and_and_comm

theorem option [BEq α] (h : Equates (α := α) (· == ·) canonical Proper) :
    Equates (α := Option α) (· == ·) (Option.map canonical) (∀ c ∈ ·, Proper c) := by
  intro x y
  cases x <;> cases y
  · simp
  · simp
  · simp
  · simpa using h _ _

end Equates

namespace Binary64

def canonical (x : Binary64) : Binary64 :=
  if x.isZero then ⟨0⟩ else x

theorem isNaN_of_isZero {x : Binary64} (h : x.isZero) : x.isNaN = false := by
  simp only [isZero, Bool.and_eq_true, beq_iff_eq] at h
  simp [isNaN, h.1]

private theorem canonical_eq_iff {x y : Binary64} :
    x.canonical = y.canonical ↔ x = y ∨ x.isZero ∧ y.isZero := by
  have hzero : (⟨0⟩ : Binary64).isZero = true := by decide
  unfold canonical
  by_cases hx : x.isZero <;> by_cases hy : y.isZero
  · simp [hx, hy]
  · rw [if_pos hx, if_neg hy]
    refine iff_of_false ?_ ?_
    · rintro rfl
      exact hy hzero
    · rintro (rfl | h)
      · exact hy hx
      · exact hy h.2
  · rw [if_neg hx, if_pos hy]
    refine iff_of_false ?_ ?_
    · rintro rfl
      exact hx hzero
    · rintro (rfl | h)
      · exact hx hy
      · exact hx h.1
  · simp [hx, hy]

theorem isNaN_canonical (x : Binary64) : x.canonical.isNaN = x.isNaN := by
  unfold canonical
  split
  · next h => rw [isNaN_of_isZero h, isNaN_of_isZero (by decide)]
  · rfl

theorem equates : Equates equal canonical fun x => x.isNaN = false := by
  intro x y
  have hbits : x.bits = y.bits ↔ x = y := ⟨congrArg Binary64.mk, congrArg bits⟩
  simp only [equal, isNaN_canonical, canonical_eq_iff, Bool.and_eq_true, Bool.or_eq_true,
    Bool.not_eq_true', beq_iff_eq, hbits]
  constructor
  · exact fun h => ⟨h.2, h.1.1⟩
  · rintro ⟨he, hx⟩
    refine ⟨⟨hx, ?_⟩, he⟩
    obtain rfl | ⟨-, hy⟩ := he
    · exact hx
    · exact isNaN_of_isZero hy

end Binary64

namespace Literal

def canonical : Literal → Literal
  | float value => float value.canonical
  | l => l

def Proper : Literal → Prop
  | float value => value.isNaN = false
  | _ => True

theorem equates : Equates (· == ·) canonical Proper := by
  intro x y
  cases x <;> cases y
  case float.float x y =>
    have hb : (float x == float y) = x.equal y := rfl
    simpa [hb, canonical, Proper] using Binary64.equates x y
  all_goals simp [canonical, Proper, BEq.beq, instBEqLiteral.beq]

end Literal

namespace AttrValue

def canonical : AttrValue → AttrValue
  | float value => float value.canonical
  | a => a

def Proper : AttrValue → Prop
  | float value => value.isNaN = false
  | _ => True

theorem equates : Equates (· == ·) canonical Proper := by
  intro x y
  cases x <;> cases y
  case float.float x y =>
    have hb : (float x == float y) = x.equal y := rfl
    simpa [hb, canonical, Proper] using Binary64.equates x y
  case ints.ints x y =>
    have hb : (ints x == ints y) = (x == y) := rfl
    simp [hb, canonical, Proper]
  all_goals simp [canonical, Proper, BEq.beq, instBEqAttrValue.beq]

end AttrValue

namespace Attrs

def canonical (a : Attrs) : List (String × AttrValue) :=
  a.entries.map fun e => (e.1, e.2.canonical)

def Proper (entries : List (String × AttrValue)) : Prop :=
  ∀ e ∈ entries, e.2.Proper

theorem equates : Equates (α := Attrs) (· == ·) canonical Proper := by
  have hentry : Equates (α := String × AttrValue) (· == ·) (fun e => (e.1, e.2.canonical))
      fun e => e.2.Proper := by
    intro e e'
    have hb : (e == e') = (e.1 == e'.1 && e.2 == e'.2) := rfl
    have hv := AttrValue.equates e.2 e'.2
    simp only at hv
    simp only [hb, Bool.and_eq_true, beq_iff_eq, hv, Prod.mk.injEq, and_assoc]
  exact fun a a' => hentry.list a.entries a'.entries

end Attrs

namespace Leaf

def canonical : Leaf → Leaf
  | constant values dims elem => constant (values.map Literal.canonical) dims elem
  | l => l

def Proper : Leaf → Prop
  | constant values _ _ => ∀ v ∈ values, v.Proper
  | _ => True

theorem equates : Equates equal canonical Proper := by
  intro l l'
  cases l <;> cases l'
  case constant.constant values dims elem values' dims' elem' =>
    have hv := Literal.equates.list values values'
    simp only at hv
    simp only [equal, canonical, Proper, Bool.and_eq_true, beq_iff_eq, hv, constant.injEq]
    tauto
  all_goals simp [equal, canonical, Proper]

end Leaf

end DataflowIR
