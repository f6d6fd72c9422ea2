import DataflowIR.Analysis.Violation
import DataflowIR.Module

namespace DataflowIR

/-- From the least severe to the most severe. -/
inductive Severity where
  | trace
  | debug
  | info
  | warn
  deriving DecidableEq, Inhabited

namespace Severity

def rank : Severity → Nat
  | trace => 0
  | debug => 1
  | info => 2
  | warn => 3

def name : Severity → String
  | trace => "TRACE"
  | debug => "DEBUG"
  | info => "INFO"
  | warn => "WARN"

end Severity

inductive Event where
  | blockBegun (depth : Nat) (kind : BlockKind)
  | blockEnded (depth : Nat) (count : Nat)
  | emitted (depth : Nat) (b : Binding)
  | remapped (id : Id) (v : Var)
  | builderDropped (unfinished : Nat)
  | functionChanged (name : String)
  | functionUnchanged (name : String)
  | passBegun (name : String)
  | moduleBefore (pass : String) (m : Module)
  | fused (product : Expr)
  | lowered (v alloc : Var)
  | illFormed (v : Violation)
  | heading (title : String) (m : Module)

namespace Event

def severity : Event → Severity
  | emitted .. | remapped .. => .trace
  | blockBegun .. | blockEnded .. | functionChanged _ | functionUnchanged _ | passBegun _
  | fused _ | lowered .. | illFormed _ => .debug
  | moduleBefore .. | heading .. => .info
  | builderDropped _ => .warn

def message : Event → String
  | blockBegun depth .plain => Text.spaces depth ++ "begin binding block"
  | blockBegun depth .dataflow => Text.spaces depth ++ "begin dataflow block"
  | blockEnded depth count =>
    Text.spaces depth ++ "end block with " ++ toString count ++ " binding(s)"
  | emitted depth b => Text.spaces depth ++ "emit " ++ b.text
  | remapped id v => "remap " ++ id.hint ++ " to " ++ v.text
  | builderDropped unfinished =>
    "BlockBuilder dropped with " ++ toString unfinished ++ " unfinished block(s)"
  | functionChanged name => Text.spaces 1 ++ "@" ++ name ++ " changed"
  | functionUnchanged name => Text.spaces 1 ++ "@" ++ name ++ " unchanged"
  | passBegun name => "Running pass " ++ name
  | moduleBefore pass m =>
    "// ----- // IR Dump Before " ++ pass ++ " //----- //\n" ++ m.text ++ "\n\n"
  | fused product => "fusing " ++ product.text ++ " into ewise_fma"
  | lowered v alloc => "lowering " ++ v.text ++ " into " ++ alloc.text
  | illFormed v => "module is not well formed: " ++ v.message
  | heading title m => title ++ ":\n```\n" ++ m.text ++ "\n```\n"

def text (e : Event) : String :=
  e.severity.name ++ " " ++ e.message

end Event

end DataflowIR
