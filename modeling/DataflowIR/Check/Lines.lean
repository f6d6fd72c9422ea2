import DataflowIR.Text.Lines
import DataflowIR.Text.Quoted

namespace DataflowIR.Check

inductive LineFault where
  /-- One of the texts has no line of that number. -/
  | noLine (index : Nat)
  | linesDiffer (actual expected : String)
  /-- The expected line of that number does not occur where it should. -/
  | notFound (expected : List String) (index : Nat)
  deriving DecidableEq

namespace LineFault

/-- The expected lines, the missing one marked. -/
def markedLines (expected : List String) (index : Nat) : List String :=
  expected.mapIdx fun i line => if i = index then line ++ "   <== missing" else line

/-- `caller` says where the check was asked for. -/
def message (caller : String) : LineFault → String
  | noLine index =>
    "Expected line " ++ toString index ++ " not found in output: called from " ++ caller
  | linesDiffer actual expected =>
    "assertion `left == right` failed: called from " ++ caller ++
      "\n  left: " ++ Text.quoted actual ++ "\n right: " ++ Text.quoted expected
  | notFound expected index =>
    "A line is missing from the output:\n```" ++
      String.join ((markedLines expected index).map ("\n" ++ ·)) ++
      "\n```\nwhen called from " ++ caller

end LineFault

def compareFrom (index : Nat) : List String → List String → Except LineFault Unit
  | [], [] => .ok ()
  | a :: as, e :: es =>
    if a = e then compareFrom (index + 1) as es else .error (.linesDiffer a e)
  | _, _ => .error (.noLine index)

/-- Whether the texts, blanks around them aside, have the same lines. -/
def linesExact (actual expected : String) : Except LineFault Unit :=
  compareFrom 0 (Text.lines (Text.trim actual)) (Text.lines (Text.trim expected))

/-- What follows the first line in which `part` occurs. -/
def afterOccurrence (part : List Char) : List (List Char) → Option (List (List Char))
  | [] => none
  | line :: rest => if Text.occursIn part line then some rest else afterOccurrence part rest

/-- The number of the first expected line that does not occur after the occurrences of those
before it. A blank line is expected nowhere. -/
def firstMissing (index : Nat) (actual : List (List Char)) : List (List Char) → Option Nat
  | [] => none
  | line :: rest =>
    let part := Text.trimChars line
    if part.isEmpty then firstMissing (index + 1) actual rest
    else
      match afterOccurrence part actual with
      | some remaining => firstMissing (index + 1) remaining rest
      | none => some index

/-- Whether the expected lines occur in the lines of the output, in their order and each in a line
of its own. -/
def linesContain (actual expected : String) : Except LineFault Unit :=
  let actualLines := Text.linesFrom [] (Text.trimChars actual.toList)
  let expectedLines := Text.linesFrom [] (Text.trimChars expected.toList)
  match firstMissing 0 actualLines expectedLines with
  | some index => .error (.notFound (expectedLines.map String.ofList) index)
  | none => .ok ()

end DataflowIR.Check
