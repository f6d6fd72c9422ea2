import DataflowIR.Traversal.Transformer

namespace DataflowIR.Module

open Session

variable {σ : Type} (r : Transformer σ) (rules : Rules) (fuel : Expr → Fuel)

/-- The new function, if it is not the same node. -/
def transformFunction (name : String) (f : Function) : Build σ (Option Function) := do
  modify fun s => { s with builder := .new rules, remap := .empty }
  let old := f.toExpr
  match ← Act.attempt (r.run (fuel old) (.expr old)) with
  | .error fault =>
    dropBuilder
    Act.fail fault
  | .ok new =>
    if new.sameAs old then
      report (.functionUnchanged name)
      dropBuilder
      return none
    else
      match new.asFunction? with
      | some f' =>
        report (.functionChanged name)
        dropBuilder
        return some f'
      | none =>
        dropBuilder
        Act.fail (.notAFunction name new.kind)

/-- The functions that changed. -/
def transformEach : List (GlobalVar × Function) → Build σ (List (GlobalVar × Function))
  | [] => pure []
  | (g, f) :: rest => do
    match ← transformFunction r rules fuel g.name f with
    | some f' => return (g, f') :: (← transformEach rest)
    | none => transformEach rest

def insertAll (m : Module) (fs : List (GlobalVar × Function)) : Module :=
  fs.foldl (fun m e => m.insert e.1 e.2) m

/-- The module with every function transformed, if any changed. -/
def transform (m : Module) : Build σ (Option Module) := do
  match ← transformEach r rules fuel m.toList with
  | [] => return none
  | changed => return some (m.insertAll changed)

end DataflowIR.Module
