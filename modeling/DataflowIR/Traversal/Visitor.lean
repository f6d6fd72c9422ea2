import DataflowIR.Act
import DataflowIR.Traversal.Fuel
import DataflowIR.Traversal.Site

namespace DataflowIR

/-- What happens at a place, given how the traversal goes on elsewhere. -/
abbrev Visitor (σ : Type) := (Site → Act σ Unit) → Site → Act σ Unit

namespace Visitor

variable {σ : Type}

def visitAll (self : Site → Act σ Unit) : List Site → Act σ Unit
  | [] => pure ()
  | s :: rest => do
    self s
    visitAll self rest

/-- The default: go on to the places below. -/
def walk : Visitor σ :=
  fun self s => visitAll self s.below

/-- The traversal of a visitor, with `fuel` as the greatest number of places that lie one below
the other. -/
def run (v : Visitor σ) : (fuel : Fuel) → Site → Act σ Unit
  | .spent, _ => Act.fail .outOfFuel
  | .step rest, s => v (run v (rest ())) s

/-- Run at the expressions that a test picks, after the places below them. -/
def afterExprs (act : Expr → Act σ Unit) : Visitor σ :=
  fun self s => do
    walk self s
    match s with
    | .expr e => act e
    | _ => pure ()

end Visitor

/-- Every expression below `e` and `e` itself, those below before those above. -/
def Expr.postOrder (e : Expr) : Except Fault (List Expr) :=
  let collect : Visitor (List Expr) :=
    Visitor.afterExprs fun x => modify (x :: ·)
  match (collect.run e.fuel (.expr e)).exec [] with
  | (.ok (), found) => .ok found.reverse
  | (.error f, _) => .error f

/-- A visitor that runs the handlers supplied for the slots of the places. -/
structure VisitorTable (σ : Type) where
  handler : Slot → Option (Visitor σ)
  /-- Whether a kind without a handler is an error. -/
  strict : Bool

namespace VisitorTable

variable {σ : Type}

def empty : VisitorTable σ := ⟨fun _ => none, false⟩

def supply (t : VisitorTable σ) (slot : Slot) (h : Visitor σ) : VisitorTable σ :=
  { t with handler := fun s => if s = slot then some h else t.handler s }

def visitor (t : VisitorTable σ) : Visitor σ :=
  fun self s =>
    match s.slot? with
    | none => Visitor.walk self s
    | some slot =>
      match t.handler slot with
      | some h => h self s
      | none =>
        if t.strict && slot.isOfKind then Act.fail (.handlerMissing slot.name)
        else Visitor.walk self s

end VisitorTable

/-- Handlers that compute a value by the kind of the expression. There is no default: a kind
without a handler is an error. -/
abbrev Evaluator (σ α : Type) := ExprKind → Option ((Expr → Act σ α) → Expr → Act σ α)

namespace Evaluator

variable {σ α : Type}

def run (ev : Evaluator σ α) : (fuel : Fuel) → Expr → Act σ α
  | .spent, _ => Act.fail .outOfFuel
  | .step rest, e =>
    match ev e.kind with
    | some h => h (run ev (rest ())) e
    | none => Act.fail (.handlerMissing e.kind.handlerName)

end Evaluator

end DataflowIR
