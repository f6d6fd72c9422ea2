import DataflowIR.Proofs.Rewrite.Steps
import Mathlib.Data.List.Induction

namespace DataflowIR

inductive RemapStep where
  | insert (id : Id) (v : Var)
  | openScope
  | closeScope
  deriving DecidableEq

namespace RemapStep

def perform? : RemapStep → Remap → Option Remap
  | insert id v, r => some (r.insert id v)
  | openScope, r => some r.openScope
  | closeScope, r => r.closeScope?

/-- One step after the other, unless a scope is closed where none is open. -/
def run? : List RemapStep → Remap → Option Remap
  | [], r => some r
  | step :: rest, r => (step.perform? r).bind (run? rest)

def closings (n : Nat) : List RemapStep :=
  List.replicate n closeScope

/-- What is put in and what is closed falls into the scope that is open before the first of the
steps, or into one that they opened themselves: of the steps before it, no more close a scope than
open one. So it is in particular where no beginning of the steps closes more than it opens. -/
def Inside (steps : List RemapStep) : Prop :=
  ∀ (i : Nat) (h : i < steps.length), steps[i] ≠ openScope →
    (steps.take i).count closeScope ≤ (steps.take i).count openScope

instance (steps : List RemapStep) : Decidable (Inside steps) :=
  Nat.decidableBallLT steps.length fun i h => steps[i] ≠ openScope →
    (steps.take i).count closeScope ≤ (steps.take i).count openScope

/-- No more scopes are closed than these steps and the one before them opened. Something may be put
in when all of those are closed. -/
def NoneBelow (steps : List RemapStep) : Prop :=
  ∀ (i : Nat) (h : i < steps.length), steps[i] = closeScope →
    (steps.take i).count closeScope ≤ (steps.take i).count openScope

instance (steps : List RemapStep) : Decidable (NoneBelow steps) :=
  Nat.decidableBallLT steps.length fun i h => steps[i] = closeScope →
    (steps.take i).count closeScope ≤ (steps.take i).count openScope

private theorem run?_append (steps more : List RemapStep) (r : Remap) :
    run? (steps ++ more) r = (run? steps r).bind (run? more) := by
  induction steps generalizing r with
  | nil => rfl
  | cons step rest ih =>
    rw [List.cons_append, run?, run?, Option.bind_assoc]
    exact Option.bind_congr fun t _ => ih t

theorem Inside.of_append {steps more : List RemapStep} (h : Inside (steps ++ more)) :
    Inside steps := by
  intro i hi hstep
  have hle := h i (by rw [List.length_append]; omega)
  rw [List.getElem_append_left hi, List.take_append_of_le_length (Nat.le_of_lt hi)] at hle
  exact hle hstep

theorem Inside.last {before : List RemapStep} {step : RemapStep} (h : Inside (before ++ [step]))
    (hstep : step ≠ openScope) : before.count closeScope ≤ before.count openScope := by
  have hle := h before.length (by simp)
  rw [List.getElem_concat_length rfl, List.take_left] at hle
  exact hle hstep

end RemapStep

open RemapStep

namespace Remap

/-- The same replacements and the same record of changes; the tables may list their entries in
another order. -/
structure Alike (r s : Remap) : Prop where
  get? : r.get? = s.get?
  scopes : r.scopes = s.scopes

namespace Alike

variable {r s : Remap}

theorem refl (r : Remap) : r.Alike r := by
  exact ⟨rfl, rfl⟩

theorem symm (h : r.Alike s) : s.Alike r := by
  exact ⟨h.get?.symm, h.scopes.symm⟩

theorem insert (h : r.Alike s) (id : Id) (v : Var) : (r.insert id v).Alike (s.insert id v) where
  get? := by
    funext k
    have hk : r.table.get? k = s.table.get? k := congrFun h.get? k
    change (r.table.insert id v).get? k = (s.table.insert id v).get? k
    rw [IdTable.get?_insert, IdTable.get?_insert, hk]
  scopes := by
    unfold Remap.insert
    rw [h.scopes, h.get?]

theorem openScope (h : r.Alike s) : r.openScope.Alike s.openScope := by
  exact ⟨h.get?, congrArg (List.cons []) h.scopes⟩

theorem closeScope? (h : r.Alike s) {u : Remap} (hu : r.closeScope? = some u) :
    ∃ w, s.closeScope? = some w ∧ u.Alike w := by
  obtain ⟨table, scopes⟩ := r
  obtain ⟨table', scopes'⟩ := s
  obtain rfl : scopes = scopes' := h.scopes
  cases scopes with
  | nil => cases hu
  | cons changes rest =>
    cases hu
    exact ⟨_, rfl, funext (undo_congr (congrFun h.get?) changes), rfl⟩

theorem perform? (h : r.Alike s) (step : RemapStep) {u : Remap} (hu : step.perform? r = some u) :
    ∃ w, step.perform? s = some w ∧ u.Alike w := by
  cases step with
  | insert id v =>
    cases hu
    exact ⟨_, rfl, h.insert id v⟩
  | openScope =>
    cases hu
    exact ⟨_, rfl, h.openScope⟩
  | closeScope => exact h.closeScope? hu

theorem run? (h : r.Alike s) {steps : List RemapStep} {u : Remap}
    (hu : RemapStep.run? steps r = some u) :
    ∃ w, RemapStep.run? steps s = some w ∧ u.Alike w := by
  induction steps generalizing r s with
  | nil =>
    cases hu
    exact ⟨s, rfl, h⟩
  | cons step rest ih =>
    obtain ⟨t, ht, hrest⟩ := Option.bind_eq_some_iff.mp hu
    obtain ⟨t', ht', halike⟩ := h.perform? step ht
    obtain ⟨w, hw, hend⟩ := ih halike hrest
    exact ⟨w, Option.bind_eq_some_iff.mpr ⟨t', ht', hw⟩, hend⟩

/-- No later steps tell the two apart. -/
private theorem map_run? (h : r.Alike s) (steps : List RemapStep) :
    (RemapStep.run? steps r).map Remap.get? = (RemapStep.run? steps s).map Remap.get? := by
  ext answers
  simp only [Option.map_eq_some_iff]
  constructor
  · rintro ⟨u, hu, rfl⟩
    obtain ⟨w, hw, halike⟩ := h.run? hu
    exact ⟨w, hw, halike.get?.symm⟩
  · rintro ⟨u, hu, rfl⟩
    obtain ⟨w, hw, halike⟩ := h.symm.run? hu
    exact ⟨w, hw, halike.get?.symm⟩

end Alike

/-- What is put in is undone with the innermost scope. -/
private theorem closeScope?_insert {r u : Remap} (hu : r.closeScope? = some u) (id : Id) (v : Var) :
    ∃ w, (r.insert id v).closeScope? = some w ∧ u.Alike w := by
  obtain ⟨table, scopes⟩ := r
  cases scopes with
  | nil => cases hu
  | cons changes rest =>
    cases hu
    refine ⟨⟨undo (table.insert id v) ((id, table.get? id) :: changes), rest⟩, rfl, ?_, rfl⟩
    exact funext fun k => (undo_congr (IdTable.get?_set_insert table id v) changes k).symm

/-- Closing the `depth` innermost scopes of the table brings `r` back. -/
inductive Above (r : Remap) : Nat → Remap → Prop
  | level {s : Remap} (h : r.Alike s) : Above r 0 s
  | scope {depth : Nat} {s t : Remap} (hc : s.closeScope? = some t) (h : Above r depth t) :
      Above r (depth + 1) s

namespace Above

variable {r s t : Remap} {depth : Nat}

theorem congr (h : Above r depth s) (ha : s.Alike t) : Above r depth t := by
  induction h generalizing t with
  | level hs => exact .level ⟨hs.get?.trans ha.get?, hs.scopes.trans ha.scopes⟩
  | scope hc _ ih =>
    obtain ⟨u, hu, halike⟩ := ha.closeScope? hc
    exact .scope hu (ih halike)

theorem openScope (h : Above r depth s) : Above r (depth + 1) s.openScope :=
  .scope rfl h

theorem insert (h : Above r (depth + 1) s) (id : Id) (v : Var) :
    Above r (depth + 1) (s.insert id v) := by
  obtain _ | ⟨hc, h⟩ := h
  obtain ⟨u, hu, halike⟩ := closeScope?_insert hc id v
  exact .scope hu (h.congr halike)

private theorem length_scopes (h : Above r depth s) :
    s.scopes.length = depth + r.scopes.length := by
  induction h with
  | level h => rw [h.scopes, Nat.zero_add]
  | @scope depth s t hc _ ih =>
    obtain ⟨table, scopes⟩ := s
    cases scopes with
    | nil => cases hc
    | cons changes rest =>
      cases hc
      rw [List.length_cons, ih, Nat.succ_add]

theorem closings (h : Above r depth s) :
    ∃ t, run? (RemapStep.closings depth) s = some t ∧ r.Alike t := by
  induction h with
  | @level s h => exact ⟨s, rfl, h⟩
  | scope hc _ ih =>
    obtain ⟨u, hu, halike⟩ := ih
    exact ⟨u, Option.bind_eq_some_iff.mpr ⟨_, hc, hu⟩, halike⟩

/-- Above `r` no step fails, and each leads to a place above `r` or to `r` itself. -/
theorem perform? (h : Above r depth s) (step : RemapStep) (hd : step ≠ .openScope → depth ≠ 0) :
    ∃ u depth', step.perform? s = some u ∧ Above r depth' u ∧
      depth' + [step].count .closeScope = depth + [step].count .openScope := by
  cases step with
  | openScope => exact ⟨_, depth + 1, rfl, h.openScope, rfl⟩
  | insert id v =>
    obtain ⟨depth, rfl⟩ := Nat.exists_eq_succ_of_ne_zero (hd nofun)
    exact ⟨_, depth + 1, rfl, h.insert id v, rfl⟩
  | closeScope =>
    obtain ⟨depth, rfl⟩ := Nat.exists_eq_succ_of_ne_zero (hd nofun)
    obtain _ | ⟨hc, h⟩ := h
    exact ⟨_, depth, hc, h, rfl⟩

end Above

/-- By induction on the steps from their end: what stands before the last step is a run of its
own. -/
private theorem above_run? (r : Remap) {steps : List RemapStep} (h : Inside steps) :
    ∃ s depth, run? steps r.openScope = some s ∧ Above r depth s ∧
      depth + steps.count .closeScope = 1 + steps.count .openScope := by
  induction steps using List.reverseRecOn with
  | nil => exact ⟨r.openScope, 1, rfl, (Above.level (.refl r)).openScope, rfl⟩
  | append_singleton before step ih =>
    obtain ⟨s, depth, hs, habove, hdepth⟩ := ih h.of_append
    have hd : step ≠ .openScope → depth ≠ 0 := by
      intro hstep h0
      have hle := h.last hstep
      omega
    obtain ⟨u, depth', hu, habove', hdepth'⟩ := habove.perform? step hd
    refine ⟨u, depth', ?_, habove', ?_⟩
    · rw [run?_append, hs, Option.bind_some, run?, hu]
      rfl
    · rw [List.count_append, List.count_append]
      omega

/-- A scope is opened, steps are taken in it, and scopes are closed down to where it was opened: no
step fails, every replacement is what it was, the scopes around are the same, and no later steps
show that anything was done. -/
theorem closed_restores (r : Remap) (steps : List RemapStep) (h : Inside steps) :
    ∃ s t, run? steps r.openScope = some s ∧ r.scopes.length ≤ s.scopes.length ∧
      run? (closings (s.scopes.length - r.scopes.length)) s = some t ∧
      (∀ id, t.get? id = r.get? id) ∧ t.scopes = r.scopes ∧
      ∀ later, (run? later t).map Remap.get? = (run? later r).map Remap.get? := by
  obtain ⟨s, depth, hs, habove, -⟩ := above_run? r h
  have hlen := habove.length_scopes
  obtain ⟨t, ht, halike⟩ := habove.closings
  refine ⟨s, t, hs, by omega, ?_, ?_, halike.scopes.symm, ?_⟩
  · rw [hlen, Nat.add_sub_cancel]
    exact ht
  · exact fun id => (congrFun halike.get? id).symm
  · exact fun later => (halike.map_run? later).symm

end Remap

namespace Undoing

def x : Var :=
  .make ⟨0, none⟩ ⟨1, "x"⟩ none false

def y : Var :=
  .make ⟨2, none⟩ ⟨3, "y"⟩ none false

def z : Var :=
  .make ⟨4, none⟩ ⟨5, "z"⟩ none true

/-- One scope is open, and `x` was replaced in it. -/
def around : Remap :=
  Remap.empty.openScope.insert x.id y

/-- Replacements that were there, new ones and repeated ones, in scopes one inside the other. The
first of the scopes is closed on the way and opened again. -/
def nested : List RemapStep :=
  [.insert x.id z, .insert y.id x, .openScope, .insert x.id y, .insert x.id x, .closeScope,
    .insert y.id z, .closeScope, .openScope, .insert z.id x, .openScope, .insert x.id z]

end Undoing

open Undoing in
theorem Remap.closed_restores_nested : Inside nested ∧
    ∃ s t, run? nested around.openScope = some s ∧ around.scopes.length ≤ s.scopes.length ∧
      run? (closings (s.scopes.length - around.scopes.length)) s = some t ∧
      (∀ id, t.get? id = around.get? id) ∧ t.scopes = around.scopes ∧
      ∀ later, (run? later t).map Remap.get? = (run? later around).map Remap.get? := by
  have h : Inside nested := by decide
  exact ⟨h, Remap.closed_restores around nested h⟩

open Undoing in
/-- What is put in after the scope was closed belongs to the scope around it, and stays. -/
theorem Remap.insert_after_close_stays :
    ¬∀ (r : Remap) (steps : List RemapStep), NoneBelow steps →
      ∃ s t, run? steps r.openScope = some s ∧
        run? (closings (s.scopes.length - r.scopes.length)) s = some t ∧
        ∀ id, t.get? id = r.get? id := by
  intro h
  obtain ⟨s, t, hs, ht, hget⟩ := h around [.closeScope, .insert z.id x] (by decide)
  cases hs
  cases ht
  have hstays := hget z.id
  revert hstays
  decide

end DataflowIR
