import DataflowIR.Type.DType

namespace DataflowIR

/-- A symbolic integer. The index determines it: two of one name are different. -/
structure SymVar where
  index : Nat
  name : String
  dtype : DType
  deriving DecidableEq, Inhabited

inductive DimOp where
  | add
  | sub
  | mul
  | floorDiv
  | floorMod
  deriving DecidableEq

def DimOp.symbol : DimOp → String
  | add => "+"
  | sub => "-"
  | mul => "*"
  | floorDiv => "//"
  | floorMod => "%"

inductive Dim where
  | int (value : Int)
  | sym (v : SymVar)
  | binary (op : DimOp) (lhs rhs : Dim)
  deriving DecidableEq, Inhabited

namespace Dim

def isCompound : Dim → Bool
  | binary .. => true
  | _ => false

/-- An operand that is itself an operation stands in parentheses. -/
def text : Dim → String
  | int value => toString value
  | sym v => v.name
  | binary op lhs rhs =>
    operand lhs.isCompound lhs.text ++ " " ++ op.symbol ++ " " ++
      operand rhs.isCompound rhs.text
where
  operand (compound : Bool) (text : String) : String :=
    if compound then "(" ++ text ++ ")" else text

/-- The symbolic variables of `d` not already in `seen`, appended to it in the order of their
first occurrence. -/
def addSyms (seen : List SymVar) : Dim → List SymVar
  | int _ => seen
  | sym v => if v ∈ seen then seen else seen ++ [v]
  | binary _ lhs rhs => rhs.addSyms (lhs.addSyms seen)

def syms (d : Dim) : List SymVar :=
  d.addSyms []

def addSymsOfList (seen : List SymVar) (ds : List Dim) : List SymVar :=
  ds.foldl addSyms seen

/-- Put `f v` for each symbolic variable `v`. -/
def subst (f : SymVar → Dim) : Dim → Dim
  | int value => int value
  | sym v => f v
  | binary op lhs rhs => binary op (lhs.subst f) (rhs.subst f)

end Dim

end DataflowIR
