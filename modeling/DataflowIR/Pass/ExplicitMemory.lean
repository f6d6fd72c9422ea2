import DataflowIR.Traversal.Actions

namespace DataflowIR.Transformer

open Session

/-- The shape, the function and the packed arguments of a destination-passing call. -/
def destinationPassing? (c : Call) : Option (Expr × Expr × Expr) :=
  match c.args with
  | [shape, f, packed] => if c.isOp "relax.call_dps" then some (shape, f, packed) else none
  | _ => none

/-- The struct info of what the call gives: its first struct info argument, else that of the
variable it is bound to. -/
def destinationSinfo (c : Call) (v : Var) : StructInfo :=
  (c.sinfoArgs.head?.or v.sinfo).getD .object

/-- The call becomes an allocation, a call of `f` that gets the allocation as its last argument, and
a binding of the variable to the allocation. -/
def lowerCall (self : (s : Site) → Build Unit s.Result) (mark : Mark) (v : Var)
    (out : StructInfo) (shape f packed : Expr) : Build Unit Unit := do
  let shape ← self (.expr shape)
  let f ← self (.expr f)
  let packed ← self (.expr packed)
  let args := packed.asTuple?.getD [packed]
  let op := Expr.mkOp (← fresh) "relax.builtin.alloc_tensor"
  let alloc ← emit (.call ⟨← freshMark none, some out⟩ op [shape] none [out]) "alloc"
  report (.lowered v alloc)
  let _ ← emit (.mkCall (← freshMark none) f (args ++ [.var alloc]) none []) "call"
  let v' ← retype (← self (.varDef v)) (some out)
  remapIfChanged v v'
  emitBinding (.bind (← freshMark mark.span) v' (.var alloc))

def lowerBinding (self : (s : Site) → Build Unit s.Result) (b : Binding) :
    Build Unit Unit :=
  match b with
  | .cast .. => walkBinding self b
  | .bind mark v value =>
    match value.asCall? with
    | none => walkBinding self b
    | some c =>
      match destinationPassing? c with
      | none => walkBinding self b
      | some (shape, f, packed) =>
        lowerCall self mark v (destinationSinfo c v) shape f packed

/-- Since lowered calls have effects, dataflow blocks become plain blocks and dataflow variables
regular variables. -/
def makeMemoryExplicit : Transformer Unit :=
  fun self s =>
    match s with
    | .bindingKind b => lowerBinding self b
    | .blockKind b => walkBlockAs self .plain b
    | .varDefKind v => if v.dataflow then changeKind false v else walkVarDef self v
    | s => walk self s

end DataflowIR.Transformer
