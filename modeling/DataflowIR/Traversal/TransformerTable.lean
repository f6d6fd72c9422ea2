import DataflowIR.Traversal.Transformer

namespace DataflowIR

/-- What a hook makes of a rebuilt node, given how the traversal goes on elsewhere. -/
abbrev Hook (σ : Type) := ((s : Site) → Build σ s.Result) → Expr → Build σ Expr

/-- A kind of expression takes either a handler, which stands in for the default, or a hook that runs
on the node after it was rebuilt from what lies below. -/
structure TransformerTable (σ : Type) where
  handler : Slot → Option (Transformer σ)
  hook : ExprKind → Option (Hook σ)
  /-- Whether a kind without a handler and without a hook is an error. -/
  strict : Bool

namespace TransformerTable

variable {σ : Type}

def empty : TransformerTable σ := ⟨fun _ => none, fun _ => none, false⟩

def supply (t : TransformerTable σ) (slot : Slot) (h : Transformer σ) : TransformerTable σ :=
  { t with handler := fun s => if s = slot then some h else t.handler s }

def supplyHook (t : TransformerTable σ) (kind : ExprKind) (h : Hook σ) : TransformerTable σ :=
  { t with hook := fun k => if k = kind then some h else t.hook k }

/-- The first kind with both a handler and a hook. -/
def conflict? (t : TransformerTable σ) : Option ExprKind :=
  ExprKind.all.find? fun k => (t.handler (.exprKind k)).isSome && (t.hook k).isSome

/-- The hook that runs at a place, if no handler stands in for the default there. -/
def hookAt (t : TransformerTable σ) : Site → Option (Hook σ)
  | .exprKind e => t.hook e.kind
  | _ => none

/-- Rebuild the node, fill in its struct info, and run the hook on it. -/
def runHook (h : Hook σ) : Transformer σ :=
  fun self s =>
    match s with
    | .exprKind e => do
      let e' ← Session.normalize (← Transformer.walk self (.exprKind e))
      h self e'
    | s => Transformer.walk self s

def transformerAt (t : TransformerTable σ) (slot : Slot) (s : Site) : Transformer σ :=
  match t.handler slot, t.hookAt s with
  | some h, _ => h
  | none, some hook => runHook hook
  | none, none =>
    if t.strict && slot.isOfKind then fun _ _ => Act.fail (.handlerMissing slot.name)
    else Transformer.walk

def transformer (t : TransformerTable σ) : Transformer σ :=
  fun self s =>
    match s.slot? with
    | some slot => t.transformerAt slot s self s
    | none => Transformer.walk self s

/-- The transformer of a table in which no kind has both a handler and a hook. -/
def build (t : TransformerTable σ) : Except Fault (Transformer σ) :=
  match t.conflict? with
  | some kind => .error (.handlersConflict kind)
  | none => .ok t.transformer

end TransformerTable

end DataflowIR
