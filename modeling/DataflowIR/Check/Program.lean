import DataflowIR.Analysis.WellFormed
import DataflowIR.Pass.Arguments

namespace DataflowIR.Check

inductive ProgramFault where
  | illFormed (v : Violation) (m : Module)
  | transformFailed (f : Fault)
  | nothingChanged

namespace ProgramFault

def message : ProgramFault → String
  | illFormed v m => "module is not well formed: " ++ v.message ++ "\n" ++ m.text
  | transformFailed f => "called `Result::unwrap()` on an `Err` value: " ++ f.message
  | nothingChanged => "Expected changes"

end ProgramFault

def verify (m : Module) : Except ProgramFault Unit :=
  match m.wellFormed with
  | .ok () => .ok ()
  | .error v => .error (.illFormed v m)

/-- The passes that the arguments ask for. -/
def pipelineOf (args : List String) : Pipeline :=
  ⟨Arguments.passNames args, args.contains ("--" ++ Arguments.printOption)⟩

def heading (stage : String) (args : List String) (m : Module) : Event :=
  .heading (stage ++ " (transform " ++ Text.quotedList args ++ ")") m

/-- The module after the passes that the arguments ask for; the module is reported before and
after them. -/
def transform (args : List String) (m : Module) (w : World) :
    Except ProgramFault Module × World :=
  let w := w.report (heading "Before" args m)
  match ((pipelineOf args).run m).exec w with
  | (.error f, w) => (.error (.transformFailed f), w)
  | (.ok none, w) => (.error .nothingChanged, w)
  | (.ok (some m'), w) => (.ok m', w.report (heading "After" args m'))

end DataflowIR.Check
