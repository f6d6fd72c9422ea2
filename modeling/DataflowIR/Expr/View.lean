import DataflowIR.Expr.Basic

namespace DataflowIR

structure Function where
  node : Node
  params : List Var
  body : Expr
  ret : StructInfo
  attrs : Attrs

structure Call where
  node : Node
  callee : Expr
  args : List Expr
  attrs : Option Attrs
  sinfoArgs : List StructInfo

/-- A reference to the function of that name. -/
structure GlobalVar where
  node : Node
  name : String

def Function.toExpr (f : Function) : Expr :=
  .function f.node f.params f.body f.ret f.attrs

def Call.toExpr (c : Call) : Expr :=
  .call c.node c.callee c.args c.attrs c.sinfoArgs

def GlobalVar.toExpr (g : GlobalVar) : Expr :=
  .leaf g.node (.globalVar g.name)

def Expr.asFunction? : Expr → Option Function
  | .function node params body ret attrs => some ⟨node, params, body, ret, attrs⟩
  | _ => none

def Expr.asCall? : Expr → Option Call
  | .call node callee args attrs sinfoArgs => some ⟨node, callee, args, attrs, sinfoArgs⟩
  | _ => none

def Expr.asGlobalVar? : Expr → Option GlobalVar
  | .leaf node (.globalVar name) => some ⟨node, name⟩
  | _ => none

/-- The name of an operator. -/
def Expr.asOp? : Expr → Option String
  | .leaf _ (.op name) => some name
  | _ => none

/-- Whether the callee is the operator of that name. -/
def Call.isOp (c : Call) (name : String) : Bool :=
  c.callee.asOp? == some name

/-- The operands of a call of that operator on two arguments. -/
def Call.binaryOperands? (c : Call) (name : String) : Option (Expr × Expr) :=
  match c.args with
  | [a, b] => if c.isOp name then some (a, b) else none
  | _ => none

@[simp] theorem Function.asFunction?_toExpr (f : Function) :
    f.toExpr.asFunction? = some f := rfl

@[simp] theorem Call.asCall?_toExpr (c : Call) : c.toExpr.asCall? = some c := rfl

theorem Expr.eq_toExpr_of_asFunction? {e : Expr} {f : Function}
    (h : e.asFunction? = some f) : e = f.toExpr := by
  cases e <;> simp_all [Expr.asFunction?, Function.toExpr]
  subst h; exact ⟨rfl, rfl, rfl, rfl, rfl⟩

theorem Expr.eq_toExpr_of_asCall? {e : Expr} {c : Call} (h : e.asCall? = some c) :
    e = c.toExpr := by
  cases e <;> simp_all [Expr.asCall?, Call.toExpr]
  subst h; exact ⟨rfl, rfl, rfl, rfl, rfl⟩

end DataflowIR
