import DataflowIR.Pass.Pipeline
import Mathlib.Logic.Function.Basic

namespace DataflowIR

theorem Pass.normalize_ne : Pass.normalize ≠ .explicitMemory := by
  decide

theorem Pass.fusedMultiplyAdd_ne : Pass.fusedMultiplyAdd ≠ .explicitMemory := by
  decide

/-- What the default passes carry along while they rewrite a function: the replacement variables, the
values bound so far, and the next unused tag. Blocks under construction and scopes are left out; they
are as before after every expression. -/
structure Trail where
  remap : Id → Option Var
  bound : Id → Option Expr
  next : Nat

namespace Trail

def empty (next : Nat) : Trail :=
  ⟨fun _ => none, fun _ => none, next⟩

/-- One tag is used. -/
def tick (t : Trail) : Trail :=
  { t with next := t.next + 1 }

def replace (t : Trail) (id : Id) (v : Var) : Trail :=
  { t with remap := Function.update t.remap id (some v) }

def replaceIfChanged (t : Trail) (v new : Var) : Trail :=
  if new.sameAs v then t else t.replace v.id new

/-- The end of a scope undoes its replacements. -/
def leave (t outer : Trail) : Trail :=
  { t with remap := outer.remap }

/-- A cast records no value. -/
def record (t : Trail) : Binding → Trail
  | .bind _ v value => { t with bound := Function.update t.bound v.id (some value) }
  | .cast .. => t

def retype (t : Trail) (v : Var) (sinfo : Option StructInfo) : Var × Trail :=
  match sinfo with
  | some s => if v.sinfo = some s then (v, t) else (v.withSinfo t.next s, t.tick)
  | none => (v, t)

/-- The variable of a definition. Only the pass that makes memory explicit changes it, from a
dataflow variable into a regular one. -/
def define (p : Pass) (t : Trail) (v : Var) : Var × Trail :=
  if p = .explicitMemory ∧ v.dataflow then
    let v' := Var.make ⟨t.next, v.span⟩ v.id v.sinfo false
    (v', t.tick.replace v.id v')
  else (v, t)

def defineAll (p : Pass) (t : Trail) : List Var → List Var × Trail
  | [] => ([], t)
  | v :: vs =>
    let (v', t) := t.define p v
    let (vs', t) := t.defineAll p vs
    (v' :: vs', t)

/-- The factors bound to a variable that holds a product. -/
def factors? (t : Trail) (e : Expr) : Option (Expr × Expr) :=
  e.asVar?.bind (fun v => t.bound v.id) |>.bind Expr.asCall?
    |>.bind (·.binaryOperands? "relax.multiply")

/-- The factors and the addend, where an addition has a bound product on its left. -/
def fusion? (t : Trail) (e : Expr) : Option (Expr × Expr × Expr) :=
  match e.asCall?.bind (·.binaryOperands? "relax.add") with
  | none => none
  | some (lhs, addend) => (t.factors? lhs).map fun (a, b) => (a, b, addend)

@[simp] theorem tick_remap (t : Trail) : t.tick.remap = t.remap := rfl
@[simp] theorem tick_bound (t : Trail) : t.tick.bound = t.bound := rfl
@[simp] theorem tick_next (t : Trail) : t.tick.next = t.next + 1 := rfl
@[simp] theorem leave_remap (t outer : Trail) : (t.leave outer).remap = outer.remap := rfl
@[simp] theorem leave_bound (t outer : Trail) : (t.leave outer).bound = t.bound := rfl
@[simp] theorem leave_next (t outer : Trail) : (t.leave outer).next = t.next := rfl

@[simp] theorem record_remap (t : Trail) (b : Binding) : (t.record b).remap = t.remap := by
  cases b <;> rfl

@[simp] theorem record_next (t : Trail) (b : Binding) : (t.record b).next = t.next := by
  cases b <;> rfl

@[simp] theorem replaceIfChanged_bound (t : Trail) (v new : Var) :
    (t.replaceIfChanged v new).bound = t.bound := by
  unfold replaceIfChanged; split <;> rfl

@[simp] theorem replaceIfChanged_next (t : Trail) (v new : Var) :
    (t.replaceIfChanged v new).next = t.next := by
  unfold replaceIfChanged; split <;> rfl

/-- The variable keeps its identity and its kind, and the trail loses at most a tag. -/
theorem retype_eq {t t' : Trail} {v v' : Var} {sinfo : Option StructInfo}
    (h : t.retype v sinfo = (v', t')) :
    v'.id = v.id ∧ v'.dataflow = v.dataflow ∧ v'.sinfo = sinfo.or v.sinfo ∧
      t'.remap = t.remap ∧ t'.bound = t.bound := by
  unfold retype at h
  split at h
  · split at h
    · next hs =>
      cases h
      exact ⟨rfl, rfl, hs, rfl, rfl⟩
    · cases h
      exact ⟨rfl, rfl, rfl, rfl, rfl⟩
  · cases h
    exact ⟨rfl, rfl, rfl, rfl, rfl⟩

/-- The variable is the old one, or a node of its own. -/
theorem retype_eq_or_tag {t t' : Trail} {v v' : Var} {sinfo : Option StructInfo}
    (h : t.retype v sinfo = (v', t')) : v' = v ∨ v'.tag = t.next := by
  unfold retype at h
  split at h
  · split at h
    · cases h
      exact .inl rfl
    · cases h
      exact .inr rfl
  · cases h
    exact .inl rfl

theorem define_eq {p : Pass} (hp : p ≠ .explicitMemory) (t : Trail) (v : Var) :
    t.define p v = (v, t) := by
  rw [define, if_neg fun h => hp h.1]

theorem defineAll_eq {p : Pass} (hp : p ≠ .explicitMemory) (t : Trail) (vs : List Var) :
    t.defineAll p vs = (vs, t) := by
  induction vs with
  | nil => rfl
  | cons v vs ih => simp only [defineAll, define_eq hp, ih]

end Trail

end DataflowIR
