import DataflowIR.Traversal.Transformer

namespace DataflowIR.Transformer

open Session

variable {σ : Type} (self : (s : Site) → Build σ s.Result)

/-- The arguments of a call or the fields of a tuple in reverse, or the branches of a conditional
exchanged; any other expression as it is. -/
def swapParts (e : Expr) : Build σ Expr := do
  match e with
  | .call _ callee args attrs sinfoArgs =>
    return .mkCall (← freshMark none) callee args.reverse attrs sinfoArgs
  | .tuple _ fields => return .mkTuple (← freshMark none) fields.reverse
  | .ite _ cond onTrue onFalse => return .mkIte (← freshMark none) cond onFalse onTrue
  | e => return e

/-- A call of the operator on the expression. -/
def wrapInCall (op : String) (e : Expr) : Build σ Expr :=
  return .mkCall (← freshMark none) (.mkOp (← fresh) op) [e] none []

def annotate (s : StructInfo) (e : Expr) : Build σ Expr :=
  return e.withSinfo (← fresh) s

/-- The value bound to the expression, when it is a variable bound to a value that `accepts`. -/
def followBinding (accepts : Expr → Bool) (e : Expr) : Build σ Expr := do
  match e.asVar? with
  | none => return e
  | some v =>
    match ← lookup v with
    | some value => return if accepts value then value else e
    | none => return e

def inScopes : List Expr → Build σ (List Expr)
  | [] => pure []
  | e :: es => return (← inScope self e []) :: (← inScopes es)

/-- A call with each argument visited in a scope of its own, if the expression is a call. -/
def scopeArguments? (e : Expr) : Option (Build σ Expr) :=
  match e with
  | .call _ callee args attrs sinfoArgs => some do
    let callee ← self (.expr callee)
    let args ← inScopes self args
    return .mkCall (← freshMark none) callee args attrs sinfoArgs
  | _ => none

/-- Emit the binding as a cast to the struct info of its value, of a new variable that later uses
refer to. -/
def recast (b : Binding) : Build σ Unit := do
  let value ← self (.expr b.value)
  let v ← emitCast value value.sinfoOrObject b.var.hint
  setRemap b.var.id v

/-- A variable of the same identity and of the given kind, which later uses refer to. -/
def changeKind (dataflow : Bool) (v : Var) : Build σ Var := do
  let v' := Var.make (← freshMark v.span) v.id v.sinfo dataflow
  setRemap v.id v'
  return v'

/-- A variable of a new identity, which later uses refer to. -/
def renew (hint : String) (v : Var) : Build σ Var := do
  let v' := Var.make (← freshMark none) (← freshId hint) v.sinfo v.dataflow
  setRemap v.id v'
  return v'

/-- A block without bindings, as a new node. -/
def emptyBlock : Build σ Block :=
  return .mk (← freshMark none) .plain []

end DataflowIR.Transformer
