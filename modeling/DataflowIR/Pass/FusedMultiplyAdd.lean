import DataflowIR.Traversal.Transformer

namespace DataflowIR.Transformer

open Session

/-- The factors bound to a variable that holds a product. -/
def factors? (b : Builder) (e : Expr) : Option (Expr × Expr) :=
  e.asVar?.bind b.lookup |>.bind Expr.asCall? |>.bind (·.binaryOperands? "relax.multiply")

/-- The fused call keeps the span and the struct info of the addition. -/
def fuseAddition (e : Expr) : Build Unit Expr := do
  match e.asCall?.bind (·.binaryOperands? "relax.add") with
  | none => return e
  | some (lhs, addend) =>
    match factors? (← getBuilder) lhs with
    | none => return e
    | some (a, b) =>
      report (.fused lhs)
      return .call ⟨← freshMark e.span, e.sinfo⟩ (.mkOp (← fresh) "relax.ewise_fma")
        [a, b, addend] none []

/-- The sum `add(multiply(a, b), c)` becomes `ewise_fma(a, b, c)` when the product is bound to a
variable earlier in the function. The binding of the product stays. -/
def fuseMultiplyAdd : Transformer Unit :=
  fun self s =>
    match s with
    | .exprKind (.call node callee args attrs sinfoArgs) => do
      fuseAddition (← walkExpr self (.call node callee args attrs sinfoArgs))
    | s => walk self s

end DataflowIR.Transformer
