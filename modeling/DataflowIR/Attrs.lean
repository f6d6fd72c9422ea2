import DataflowIR.Dictionary
import DataflowIR.Number.Shortest
import DataflowIR.Text.Layout
import DataflowIR.Type.DType

namespace DataflowIR

def boolText (b : Bool) : String :=
  if b then "true" else "false"

inductive Literal where
  | bool (value : Bool)
  | int (value : Int)
  | float (value : Binary64)
  deriving BEq, Inhabited

def Literal.text : Literal → String
  | bool value => boolText value
  | int value => toString value
  | float value => value.text

inductive AttrValue where
  | bool (value : Bool)
  | int (value : Int)
  | float (value : Binary64)
  | str (value : String)
  | dtype (value : DType)
  | ints (values : List Int)
  deriving BEq, Inhabited

/-- A string stands between quotes as it is, without escapes. -/
def AttrValue.text : AttrValue → String
  | bool value => boolText value
  | int value => toString value
  | float value => value.text
  | str value => "\"" ++ value ++ "\""
  | dtype value => value.text
  | ints values => Text.inBrackets (values.map toString)

abbrev Attrs := Dictionary AttrValue

def Attrs.text (a : Attrs) : String :=
  "\x7b" ++ Text.commaSep (a.entries.map fun e => e.1 ++ " = " ++ e.2.text) ++ "\x7d"

end DataflowIR
