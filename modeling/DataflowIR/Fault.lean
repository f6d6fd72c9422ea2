import DataflowIR.Expr.Kind
import DataflowIR.Expr.Text

namespace DataflowIR

inductive Fault where
  | constantSize (shape : List Int) (expected : Int) (given : Nat)
  | endBlockOutsideBlock
  | endScopeOutsideScope
  | endRemapOutsideScope
  | emitOutsideBlock
  | castOutsideBlock
  | outputOutsideDataflow
  | bindingOutsideBlock (v : Var)
  | dataflowVarInPlainBlock (v : Var)
  | parameterBoundAgain (v : Var)
  | notATensor (callee : Expr) (found : StructInfo)
  | dtypesDiffer (callee : Expr) (first other : DType)
  | noArguments (callee : Expr)
  | itemOutOfRange (index size : Nat)
  | handlerMissing (name : String)
  | handlersConflict (kind : ExprKind)
  | notAFunction (name : String) (kind : ExprKind)
  | unknownPass (name : String)
  /-- The printer needs a level below the greatest one; the program stops. -/
  | levelOverflow
  /-- Raised by a handler or an inference rule of the client. -/
  | raised (message : String)
  | outOfFuel
  deriving Inhabited

namespace Fault

def message : Fault → String
  | constantSize shape expected given =>
    "constant of shape " ++ Text.inBrackets (shape.map toString) ++ " needs " ++
      toString expected ++ " values, got " ++ toString given
  | endBlockOutsideBlock => "end_block called while no block is being built"
  | endScopeOutsideScope => "end_scope called without a matching begin_scope"
  | endRemapOutsideScope => "pop_scope called without a matching push_scope"
  | emitOutsideBlock => "emit called while no block is being built"
  | castOutsideBlock => "emit_match_cast called while no block is being built"
  | outputOutsideDataflow => "emit_output is only allowed inside a dataflow block"
  | bindingOutsideBlock v => "cannot emit " ++ v.text ++ ": no block is being built"
  | dataflowVarInPlainBlock v =>
    "dataflow var " ++ v.text ++ " cannot be bound outside a dataflow block"
  | parameterBoundAgain v => "parameter " ++ v.text ++ " cannot be bound again"
  | notATensor callee found =>
    callee.text ++ " expects tensor arguments, got " ++ found.text
  | dtypesDiffer callee first other =>
    callee.text ++ " got mismatching dtypes " ++ first.text ++ " and " ++ other.text
  | noArguments callee => callee.text ++ " expects arguments"
  | itemOutOfRange index size =>
    "index " ++ toString index ++ " is out of range for a tuple of " ++ toString size ++
      " fields"
  | handlerMissing name => "handler `" ++ name ++ "` is not implemented"
  | handlersConflict kind =>
    "cannot supply both `" ++ kind.handlerName ++ "` and `" ++ kind.postOrderName ++
      "` for " ++ kind.name
  | notAFunction name kind =>
    "rewriting @" ++ name ++ " gave a " ++ kind.name ++ " instead of a Function"
  | unknownPass name => "Unknown pass: " ++ name
  | levelOverflow => "attempt to add with overflow"
  | raised message => message
  | outOfFuel => "the traversal did not end"

end Fault

end DataflowIR
