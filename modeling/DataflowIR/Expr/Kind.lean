import DataflowIR.Expr.Basic

namespace DataflowIR

inductive ExprKind where
  | constant
  | tuple
  | var
  | dataflowVar
  | shapeExpr
  | runtimeDepShape
  | externFunc
  | globalVar
  | function
  | call
  | seqExpr
  | ite
  | op
  | tupleItem
  | primValue
  | stringImm
  | dataTypeImm
  deriving DecidableEq, Inhabited

namespace ExprKind

def all : List ExprKind :=
  [.constant, .tuple, .var, .dataflowVar, .shapeExpr, .runtimeDepShape, .externFunc,
   .globalVar, .function, .call, .seqExpr, .ite, .op, .tupleItem, .primValue, .stringImm,
   .dataTypeImm]

/-- The position in `all`. -/
def index (k : ExprKind) : Nat := k.ctorIdx

def name : ExprKind → String
  | constant => "Constant"
  | tuple => "Tuple"
  | var => "Var"
  | dataflowVar => "DataflowVar"
  | shapeExpr => "ShapeExpr"
  | runtimeDepShape => "RuntimeDepShape"
  | externFunc => "ExternFunc"
  | globalVar => "GlobalVar"
  | function => "Function"
  | call => "Call"
  | seqExpr => "SeqExpr"
  | ite => "If"
  | op => "Op"
  | tupleItem => "TupleGetItem"
  | primValue => "PrimValue"
  | stringImm => "StringImm"
  | dataTypeImm => "DataTypeImm"

/-- The name within the names of handlers. -/
def stem : ExprKind → String
  | constant => "constant"
  | tuple => "tuple"
  | var => "var"
  | dataflowVar => "dataflow_var"
  | shapeExpr => "shape_expr"
  | runtimeDepShape => "runtime_dep_shape"
  | externFunc => "extern_func"
  | globalVar => "global_var"
  | function => "function"
  | call => "call"
  | seqExpr => "seq_expr"
  | ite => "if"
  | op => "op"
  | tupleItem => "tuple_getitem"
  | primValue => "prim_value"
  | stringImm => "string_imm"
  | dataTypeImm => "data_type_imm"

def handlerName (k : ExprKind) : String :=
  "visit_" ++ k.stem ++ "_"

/-- The name of the hook that runs on a node after its children. -/
def postOrderName (k : ExprKind) : String :=
  "rewrite_" ++ k.stem ++ "_post_order"

theorem mem_all (k : ExprKind) : k ∈ all := by
  cases k <;> decide

theorem getElem?_all_index (k : ExprKind) : all[k.index]? = some k := by
  cases k <;> rfl

end ExprKind

def Leaf.kind : Leaf → ExprKind
  | constant .. => .constant
  | runtimeShape => .runtimeDepShape
  | externFunc _ => .externFunc
  | globalVar _ => .globalVar
  | op _ => .op
  | str _ => .stringImm
  | dtype _ => .dataTypeImm

def Expr.kind : Expr → ExprKind
  | leaf _ content => content.kind
  | var v => if v.dataflow then .dataflowVar else .var
  | shape .. => .shapeExpr
  | prim .. => .primValue
  | tuple .. => .tuple
  | item .. => .tupleItem
  | call .. => .call
  | ite .. => .ite
  | seq .. => .seqExpr
  | function .. => .function

inductive BindingKind where
  | bind
  | cast
  deriving DecidableEq, Inhabited

namespace BindingKind

def all : List BindingKind := [.bind, .cast]

def name : BindingKind → String
  | bind => "VarBinding"
  | cast => "MatchCast"

def handlerName : BindingKind → String
  | bind => "visit_var_binding_"
  | cast => "visit_match_cast_"

end BindingKind

def Binding.kind : Binding → BindingKind
  | bind .. => .bind
  | cast .. => .cast

namespace BlockKind

def all : List BlockKind := [.plain, .dataflow]

def name : BlockKind → String
  | plain => "Binding"
  | dataflow => "Dataflow"

def handlerName : BlockKind → String
  | plain => "visit_binding_block_"
  | dataflow => "visit_dataflow_block_"

end BlockKind

/-- The kind of a variable where it is defined: as a parameter or by a binding. -/
inductive VarKind where
  | regular
  | dataflow
  deriving DecidableEq, Inhabited

namespace VarKind

def all : List VarKind := [.regular, .dataflow]

def name : VarKind → String
  | regular => "Var"
  | dataflow => "DataflowVar"

def handlerName : VarKind → String
  | regular => "visit_var_def_"
  | dataflow => "visit_dataflow_var_def_"

end VarKind

def Var.kind (v : Var) : VarKind :=
  if v.dataflow then .dataflow else .regular

end DataflowIR
