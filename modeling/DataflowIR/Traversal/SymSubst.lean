import DataflowIR.Traversal.Transformer

namespace DataflowIR.Transformer

/-- Every dimension and every struct info that is passed is replaced, and the default does the rest. -/
def substSyms {σ : Type} (f : SymVar → Dim) : Transformer σ :=
  fun self s =>
    match s with
    | .type t => pure (t.subst f)
    | .dim d => pure (d.subst f)
    | s => walk self s

end DataflowIR.Transformer
