import DataflowIR.Expr.View
import DataflowIR.Fault

namespace DataflowIR

namespace Leaf

/-- The struct info of a new leaf, if its content determines it. -/
def sinfo? : Leaf → Option StructInfo
  | constant _ dims elem => some (.tensorOfShape (dims.map .int) elem)
  | runtimeShape => some (.shape none StructInfo.unknownNdim)
  | externFunc _ => some (.opaqueFunc .object)
  | globalVar _ => none
  | op _ => none
  | str _ => some .object
  | dtype _ => some .object

/-- A constant of rank zero. -/
def scalar (value : Literal) (elem : DType) : Leaf :=
  constant [value] [] elem

/-- A constant tensor; there is one value for each index of the shape. -/
def tensor (values : List Literal) (dims : List Int) (elem : DType) : Except Fault Leaf :=
  let expected := dims.foldl (· * ·) (1 : Int)
  if expected = values.length then .ok (constant values dims elem)
  else .error (.constantSize dims expected values.length)

end Leaf

/-- The struct infos of all the expressions, if all have one. -/
def sinfos? : List Expr → Option (List StructInfo)
  | [] => some []
  | e :: es =>
    match e.sinfo, sinfos? es with
    | some s, some ss => some (s :: ss)
    | _, _ => none

/-- The struct info of a field, if the tuple has it. -/
def itemSinfo? (whole : Expr) (index : Nat) : Option StructInfo :=
  match whole.sinfo with
  | some (.tuple fields) => fields[index]?
  | _ => none

/-- The struct info of a function with these parameters. -/
def functionSinfo (params : List Var) (ret : StructInfo) : StructInfo :=
  .func (params.map fun v => v.sinfo.getD .object) ret

namespace Expr

def mkLeaf (mark : Mark) (content : Leaf) : Expr :=
  leaf ⟨mark, content.sinfo?⟩ content

def mkOp (tag : Nat) (name : String) : Expr :=
  mkLeaf ⟨tag, none⟩ (.op name)

def mkShape (mark : Mark) (values : List Dim) : Expr :=
  shape ⟨mark, some (.shapeOf values)⟩ values

def mkPrim (mark : Mark) (value : Dim) (dtype : DType) : Expr :=
  prim ⟨mark, some (.prim dtype)⟩ value dtype

def mkTuple (mark : Mark) (fields : List Expr) : Expr :=
  tuple ⟨mark, (sinfos? fields).map .tuple⟩ fields

def mkItem (mark : Mark) (whole : Expr) (index : Nat) : Expr :=
  item ⟨mark, itemSinfo? whole index⟩ whole index

def mkCall (mark : Mark) (callee : Expr) (args : List Expr) (attrs : Option Attrs)
    (sinfoArgs : List StructInfo) : Expr :=
  call ⟨mark, none⟩ callee args attrs sinfoArgs

def mkIte (mark : Mark) (cond onTrue onFalse : Expr) : Expr :=
  ite ⟨mark, none⟩ cond onTrue onFalse

def mkSeq (mark : Mark) (blocks : List Block) (body : Expr) : Expr :=
  seq ⟨mark, body.sinfo⟩ blocks body

/-- Without a return struct info, that of the body is taken. -/
def mkFunction (mark : Mark) (params : List Var) (body : Expr) (ret : Option StructInfo)
    (attrs : Attrs) : Expr :=
  let ret := ret.getD body.sinfoOrObject
  function ⟨mark, some (functionSinfo params ret)⟩ params body ret attrs

end Expr

namespace Var

def make (mark : Mark) (id : Id) (sinfo : Option StructInfo) (dataflow : Bool) : Var :=
  ⟨⟨mark, sinfo⟩, id, dataflow⟩

end Var

end DataflowIR
