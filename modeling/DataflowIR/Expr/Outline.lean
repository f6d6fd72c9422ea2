import DataflowIR.Expr.Kind
import DataflowIR.Expr.View
import DataflowIR.Module

namespace DataflowIR

def Dim.outline : Dim → String
  | int value => toString value
  | sym v => v.name ++ "#" ++ toString v.index
  | binary op lhs rhs => "(" ++ lhs.outline ++ " " ++ op.symbol ++ " " ++ rhs.outline ++ ")"

namespace Outline

/-- Items in brackets, with commas alone between them. -/
def brackets (items : List String) : String :=
  "[" ++ String.intercalate "," items ++ "]"

def dims : Option (List Dim) → String
  | some ds => brackets (ds.map Dim.outline)
  | none => "-"

end Outline

mutual

def StructInfo.outline : StructInfo → String
  | .object => "Object"
  | .prim dtype => "Prim(" ++ dtype.text ++ ")"
  | .shape values ndim => "Shape(" ++ Outline.dims values ++ "," ++ toString ndim ++ ")"
  | .tensor dims dtype ndim =>
    "Tensor(" ++ Outline.dims dims ++ "," ++ dtype.text ++ "," ++ toString ndim ++ ")"
  | .tuple fields => "Tuple(" ++ String.intercalate "," (StructInfo.outlines fields) ++ ")"
  | .func params ret =>
    "Func(" ++ Outline.brackets (StructInfo.outlines params) ++ "," ++ ret.outline ++ ")"
  | .opaqueFunc ret => "Func(-," ++ ret.outline ++ ")"

def StructInfo.outlines : List StructInfo → List String
  | [] => []
  | s :: ss => s.outline :: StructInfo.outlines ss

end

namespace Outline

/-- Identities in the order of their numbers. -/
abbrev Numbering := List Id

/-- The hint and the number of an identity; a new one gets the next number. -/
def label (id : Id) : StateM Numbering String := do
  let ids ← get
  let n := ids.idxOf id
  if n = ids.length then set (ids ++ [id])
  return id.hint ++ "#" ++ toString n

def sinfo : Option StructInfo → String
  | some s => s.outline
  | none => "-"

def span : Option Span → String
  | some s => " ~" ++ s.text
  | none => ""

variable (known : Nat → Bool)

def star (tag : Nat) : String :=
  if known tag then "*" else ""

def nodeLine (depth : Nat) (kind : ExprKind) (node : Node) (payload : String) : String :=
  toString depth ++ " " ++ kind.name ++ star known node.tag ++ payload ++ span node.span ++
    " :" ++ sinfo node.sinfo

def leafPayload : Leaf → String
  | .constant values shape dtype =>
    " " ++ brackets (values.map Literal.text) ++ " " ++ brackets (shape.map toString) ++ " " ++
      dtype.text
  | .runtimeShape => ""
  | .externFunc name | .globalVar name | .op name | .str name => " " ++ name
  | .dtype value => " " ++ value.text

def attrsText : Option Attrs → String
  | some a => Attrs.text a
  | none => "-"

def varLine (depth : Nat) (v : Var) : StateM Numbering String := do
  return nodeLine known depth (Expr.var v).kind v.node (" " ++ (← label v.id))

def varLines (depth : Nat) : List Var → StateM Numbering (List String)
  | [] => pure []
  | v :: vs => return (← varLine known depth v) :: (← varLines depth vs)

def markLine (depth : Nat) (name : String) (mark : Mark) : String :=
  toString depth ++ " " ++ name ++ star known mark.tag ++ span mark.span

mutual

def ofExpr (depth : Nat) : Expr → StateM Numbering (List String)
  | .leaf node content => return [nodeLine known depth content.kind node (leafPayload content)]
  | .var v => return [← varLine known depth v]
  | .shape node values =>
    return [nodeLine known depth .shapeExpr node (" " ++ brackets (values.map Dim.outline))]
  | .prim node value dtype =>
    return [nodeLine known depth .primValue node (" " ++ value.outline ++ " " ++ dtype.text)]
  | .tuple node fields =>
    return nodeLine known depth .tuple node "" :: (← ofExprs (depth + 1) fields)
  | .item node whole index =>
    return nodeLine known depth .tupleItem node (" " ++ toString index) ::
      (← ofExpr (depth + 1) whole)
  | .call node callee args attrs sinfoArgs =>
    let payload := " " ++ attrsText attrs ++ " sargs=" ++
      brackets (StructInfo.outlines sinfoArgs)
    return nodeLine known depth .call node payload :: (← ofExpr (depth + 1) callee) ++
      (← ofExprs (depth + 1) args)
  | .ite node cond onTrue onFalse =>
    return nodeLine known depth .ite node "" :: (← ofExpr (depth + 1) cond) ++
      (← ofExpr (depth + 1) onTrue) ++ (← ofExpr (depth + 1) onFalse)
  | .seq node blocks body =>
    return nodeLine known depth .seqExpr node "" :: (← ofBlocks (depth + 1) blocks) ++
      (← ofExpr (depth + 1) body)
  | .function node params body ret attrs =>
    let payload := " " ++ Attrs.text attrs ++ " ret=" ++ ret.outline
    return nodeLine known depth .function node payload :: (← varLines known (depth + 1) params) ++
      (← ofExpr (depth + 1) body)

def ofExprs (depth : Nat) : List Expr → StateM Numbering (List String)
  | [] => pure []
  | e :: es => return (← ofExpr depth e) ++ (← ofExprs depth es)

def ofBinding (depth : Nat) : Binding → StateM Numbering (List String)
  | .bind mark v value =>
    return markLine known depth "bind" mark :: (← varLine known (depth + 1) v) ::
      (← ofExpr (depth + 1) value)
  | .cast mark v value sinfo =>
    return (markLine known depth "cast" mark ++ " :" ++ sinfo.outline) ::
      (← varLine known (depth + 1) v) :: (← ofExpr (depth + 1) value)

def ofBindings (depth : Nat) : List Binding → StateM Numbering (List String)
  | [] => pure []
  | b :: bs => return (← ofBinding depth b) ++ (← ofBindings depth bs)

def ofBlock (depth : Nat) : Block → StateM Numbering (List String)
  | .mk mark .plain bindings =>
    return markLine known depth "block" mark :: (← ofBindings (depth + 1) bindings)
  | .mk mark .dataflow bindings =>
    return markLine known depth "dataflow" mark :: (← ofBindings (depth + 1) bindings)

def ofBlocks (depth : Nat) : List Block → StateM Numbering (List String)
  | [] => pure []
  | b :: bs => return (← ofBlock depth b) ++ (← ofBlocks depth bs)

end

def ofFunctions : List (GlobalVar × Function) → StateM Numbering (List String)
  | [] => pure []
  | (g, f) :: rest =>
    return ("@" ++ g.name) :: (← ofExpr known 1 f.toExpr) ++ (← ofFunctions rest)

/-- Per function its name and its outline. -/
def ofModule (m : Module) : StateM Numbering (List String) :=
  ofFunctions known m.toList

/-- The line of a variable without its depth. -/
def ofVar (v : Var) : StateM Numbering String :=
  return String.ofList ((← varLine known 0 v).toList.drop 2)

end Outline

/-- The kind of an expression, with its text when it is a leaf. -/
def Expr.shortText (e : Expr) : String :=
  match e with
  | .leaf .. | .var _ | .shape .. | .prim .. => e.kind.name ++ " " ++ e.text
  | .tuple .. | .item .. | .call .. | .ite .. | .seq .. | .function .. => e.kind.name

/-- The kind of a block and the number of its bindings. -/
def Block.shortText (b : Block) : String :=
  b.kind.name ++ "(" ++ toString b.bindings.length ++ ")"

end DataflowIR
