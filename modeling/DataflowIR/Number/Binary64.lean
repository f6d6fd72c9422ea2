namespace DataflowIR

/-- A binary floating-point value: a sign bit, eleven exponent bits, fifty-two fraction bits. -/
structure Binary64 where
  bits : UInt64
  deriving Inhabited

namespace Binary64

def isNegative (x : Binary64) : Bool :=
  x.bits.toNat >>> 63 = 1

def exponent (x : Binary64) : Nat :=
  (x.bits.toNat >>> 52) % 2048

def fraction (x : Binary64) : Nat :=
  x.bits.toNat % Nat.pow 2 52

def isNaN (x : Binary64) : Bool :=
  x.exponent == 2047 && x.fraction != 0

def isInfinite (x : Binary64) : Bool :=
  x.exponent == 2047 && x.fraction == 0

def isZero (x : Binary64) : Bool :=
  x.exponent == 0 && x.fraction == 0

/-- A NaN differs from every value, and the two zeros are equal. -/
def equal (x y : Binary64) : Bool :=
  !x.isNaN && !y.isNaN && (x.bits == y.bits || (x.isZero && y.isZero))

instance : BEq Binary64 := ⟨equal⟩

/-- The finite value is `mantissa * 2 ^ scale`, up to its sign. -/
def mantissa (x : Binary64) : Nat :=
  if x.exponent = 0 then x.fraction else Nat.pow 2 52 + x.fraction

def scale (x : Binary64) : Int :=
  if x.exponent = 0 then -1074 else x.exponent - 1075

theorem equal_comm (x y : Binary64) : equal x y = equal y x := by
  simp only [equal, Bool.and_comm (!x.isNaN), BEq.comm (a := x.bits), Bool.and_comm x.isZero]

theorem equal_trans {x y z : Binary64} (hxy : equal x y = true) (hyz : equal y z = true) :
    equal x z = true := by
  obtain ⟨xb⟩ := x
  obtain ⟨yb⟩ := y
  obtain ⟨zb⟩ := z
  simp only [equal, Bool.and_eq_true, Bool.or_eq_true, beq_iff_eq] at hxy hyz ⊢
  rcases hxy with ⟨⟨hx, _⟩, hxy⟩
  rcases hyz with ⟨⟨_, hz⟩, hyz⟩
  refine ⟨⟨hx, hz⟩, ?_⟩
  rcases hxy with rfl | ⟨hx0, hy0⟩
  · exact hyz
  · rcases hyz with rfl | ⟨_, hz0⟩
    · exact Or.inr ⟨hx0, hy0⟩
    · exact Or.inr ⟨hx0, hz0⟩

end Binary64

end DataflowIR
