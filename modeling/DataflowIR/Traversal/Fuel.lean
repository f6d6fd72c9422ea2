import DataflowIR.Expr.Basic

namespace DataflowIR

/-- How many places of a traversal may lie one below the other. The steps are counted out one at a
time as a traversal goes down: a tree in which nodes are shared may be far too large to count. -/
inductive Fuel where
  | spent
  /-- One step, and what is left after it. -/
  | step (rest : Unit → Fuel)

namespace Fuel

instance : Inhabited Fuel := ⟨spent⟩

def toNat : Fuel → Nat
  | spent => 0
  | step rest => (rest ()).toNat + 1

/-- Before what is left, `n` steps more. -/
def before (rest : Unit → Fuel) : Nat → Fuel
  | 0 => rest ()
  | n + 1 => step fun _ => before rest n

def ofNat (n : Nat) : Fuel :=
  before (fun _ => spent) n

theorem toNat_before (rest : Unit → Fuel) (n : Nat) :
    (before rest n).toNat = (rest ()).toNat + n := by
  induction n with
  | zero => rfl
  | succ n ih => simp only [before, toNat, ih, Nat.add_assoc]

@[simp] theorem toNat_ofNat (n : Nat) : (ofNat n).toNat = n := by
  simp [ofNat, toNat_before, toNat]

/-- How the steps are worked out makes no difference. -/
theorem eq_of_toNat_eq {f g : Fuel} (h : f.toNat = g.toNat) : f = g := by
  induction f generalizing g with
  | spent =>
    cases g with
    | spent => rfl
    | step rest => simp [toNat] at h
  | step rest ih =>
    cases g with
    | spent => simp [toNat] at h
    | step rest' =>
      simp only [toNat, Nat.add_right_cancel_iff] at h
      exact congrArg step (funext fun u => ih u h)

end Fuel

theorem Expr.size_pos (e : Expr) : 0 < e.size := by
  cases e <;> simp only [Expr.size] <;> omega

theorem Binding.size_pos (b : Binding) : 0 < b.size := by
  cases b <;> simp only [Binding.size] <;> omega

theorem Block.size_pos (b : Block) : 0 < b.size := by
  cases b
  simp only [Block.size]
  omega

theorem Expr.size_le_of_mem {e : Expr} {es : List Expr} (h : e ∈ es) :
    e.size ≤ Expr.sizeOfList es := by
  induction h with
  | head es => exact Nat.le_add_right _ _
  | tail e' _ ih => exact Nat.le_trans ih (Nat.le_add_left _ _)

theorem Binding.size_le_of_mem {b : Binding} {bs : List Binding} (h : b ∈ bs) :
    b.size ≤ Binding.sizeOfList bs := by
  induction h with
  | head bs => exact Nat.le_add_right _ _
  | tail b' _ ih => exact Nat.le_trans ih (Nat.le_add_left _ _)

theorem Block.size_le_of_mem {b : Block} {bs : List Block} (h : b ∈ bs) :
    b.size ≤ Block.sizeOfList bs := by
  induction h with
  | head bs => exact Nat.le_add_right _ _
  | tail b' _ ih => exact Nat.le_trans ih (Nat.le_add_left _ _)

mutual

/-- Four steps for each node of the tree. -/
def Expr.fuelBefore (rest : Unit → Fuel) : Expr → Fuel
  | .leaf .. | .var _ | .shape .. | .prim .. => Fuel.before rest 4
  | .tuple _ fields => Fuel.before (fun _ => Expr.fuelBeforeAll rest fields) 4
  | .item _ whole _ => Fuel.before (fun _ => whole.fuelBefore rest) 4
  | .call _ callee args _ _ =>
    Fuel.before (fun _ => callee.fuelBefore fun _ => Expr.fuelBeforeAll rest args) 4
  | .ite _ cond onTrue onFalse =>
    Fuel.before (fun _ => cond.fuelBefore fun _ => onTrue.fuelBefore fun _ =>
      onFalse.fuelBefore rest) 4
  | .seq _ blocks body =>
    Fuel.before (fun _ => Block.fuelBeforeAll (fun _ => body.fuelBefore rest) blocks) 4
  | .function _ _ body _ _ => Fuel.before (fun _ => body.fuelBefore rest) 4

def Expr.fuelBeforeAll (rest : Unit → Fuel) : List Expr → Fuel
  | [] => rest ()
  | e :: es => e.fuelBefore fun _ => Expr.fuelBeforeAll rest es

def Binding.fuelBefore (rest : Unit → Fuel) : Binding → Fuel
  | .bind _ _ value | .cast _ _ value _ => Fuel.before (fun _ => value.fuelBefore rest) 4

def Binding.fuelBeforeAll (rest : Unit → Fuel) : List Binding → Fuel
  | [] => rest ()
  | b :: bs => b.fuelBefore fun _ => Binding.fuelBeforeAll rest bs

def Block.fuelBefore (rest : Unit → Fuel) : Block → Fuel
  | .mk _ _ bindings => Fuel.before (fun _ => Binding.fuelBeforeAll rest bindings) 4

def Block.fuelBeforeAll (rest : Unit → Fuel) : List Block → Fuel
  | [] => rest ()
  | b :: bs => b.fuelBefore fun _ => Block.fuelBeforeAll rest bs

end

mutual

theorem Expr.toNat_fuelBefore (rest : Unit → Fuel) (e : Expr) :
    (e.fuelBefore rest).toNat = (rest ()).toNat + 4 * e.size := by
  cases e with
  | leaf | var _ | shape | prim => exact Fuel.toNat_before rest 4
  | tuple _ fields =>
    have h := Expr.toNat_fuelBeforeAll rest fields
    simp only [Expr.fuelBefore, Expr.size, Fuel.toNat_before]
    omega
  | item _ whole _ =>
    have h := Expr.toNat_fuelBefore rest whole
    simp only [Expr.fuelBefore, Expr.size, Fuel.toNat_before]
    omega
  | call _ callee args _ _ =>
    have hargs := Expr.toNat_fuelBeforeAll rest args
    have hcallee := Expr.toNat_fuelBefore (fun _ => Expr.fuelBeforeAll rest args) callee
    simp only [Expr.fuelBefore, Expr.size, Fuel.toNat_before]
    omega
  | ite _ cond onTrue onFalse =>
    have hfalse := Expr.toNat_fuelBefore rest onFalse
    have htrue := Expr.toNat_fuelBefore (fun _ => onFalse.fuelBefore rest) onTrue
    have hcond := Expr.toNat_fuelBefore
      (fun _ => onTrue.fuelBefore fun _ => onFalse.fuelBefore rest) cond
    simp only [Expr.fuelBefore, Expr.size, Fuel.toNat_before]
    omega
  | seq _ blocks body =>
    have hbody := Expr.toNat_fuelBefore rest body
    have hblocks := Block.toNat_fuelBeforeAll (fun _ => body.fuelBefore rest) blocks
    simp only [Expr.fuelBefore, Expr.size, Fuel.toNat_before]
    omega
  | function _ _ body _ _ =>
    have h := Expr.toNat_fuelBefore rest body
    simp only [Expr.fuelBefore, Expr.size, Fuel.toNat_before]
    omega

theorem Expr.toNat_fuelBeforeAll (rest : Unit → Fuel) (es : List Expr) :
    (Expr.fuelBeforeAll rest es).toNat = (rest ()).toNat + 4 * Expr.sizeOfList es := by
  cases es with
  | nil => rfl
  | cons e es =>
    have hrest := Expr.toNat_fuelBeforeAll rest es
    have h := Expr.toNat_fuelBefore (fun _ => Expr.fuelBeforeAll rest es) e
    simp only [Expr.fuelBeforeAll, Expr.sizeOfList]
    omega

theorem Binding.toNat_fuelBefore (rest : Unit → Fuel) (b : Binding) :
    (b.fuelBefore rest).toNat = (rest ()).toNat + 4 * b.size := by
  cases b with
  | bind _ _ value =>
    have h := Expr.toNat_fuelBefore rest value
    simp only [Binding.fuelBefore, Binding.size, Fuel.toNat_before]
    omega
  | cast _ _ value _ =>
    have h := Expr.toNat_fuelBefore rest value
    simp only [Binding.fuelBefore, Binding.size, Fuel.toNat_before]
    omega

theorem Binding.toNat_fuelBeforeAll (rest : Unit → Fuel) (bs : List Binding) :
    (Binding.fuelBeforeAll rest bs).toNat = (rest ()).toNat + 4 * Binding.sizeOfList bs := by
  cases bs with
  | nil => rfl
  | cons b bs =>
    have hrest := Binding.toNat_fuelBeforeAll rest bs
    have h := Binding.toNat_fuelBefore (fun _ => Binding.fuelBeforeAll rest bs) b
    simp only [Binding.fuelBeforeAll, Binding.sizeOfList]
    omega

theorem Block.toNat_fuelBefore (rest : Unit → Fuel) (b : Block) :
    (b.fuelBefore rest).toNat = (rest ()).toNat + 4 * b.size := by
  cases b with
  | mk _ _ bindings =>
    have h := Binding.toNat_fuelBeforeAll rest bindings
    simp only [Block.fuelBefore, Block.size, Fuel.toNat_before]
    omega

theorem Block.toNat_fuelBeforeAll (rest : Unit → Fuel) (bs : List Block) :
    (Block.fuelBeforeAll rest bs).toNat = (rest ()).toNat + 4 * Block.sizeOfList bs := by
  cases bs with
  | nil => rfl
  | cons b bs =>
    have hrest := Block.toNat_fuelBeforeAll rest bs
    have h := Block.toNat_fuelBefore (fun _ => Block.fuelBeforeAll rest bs) b
    simp only [Block.fuelBeforeAll, Block.sizeOfList]
    omega

end

/-- Enough for a traversal that passes each place below the expression once. -/
def Expr.fuel (e : Expr) : Fuel :=
  e.fuelBefore fun _ => Fuel.ofNat 4

theorem Expr.fuel_eq_ofNat (e : Expr) : e.fuel = Fuel.ofNat (4 * e.size + 4) := by
  apply Fuel.eq_of_toNat_eq
  rw [Expr.fuel, Expr.toNat_fuelBefore, Fuel.toNat_ofNat, Fuel.toNat_ofNat, Nat.add_comm]

end DataflowIR
