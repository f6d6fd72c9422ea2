import DataflowIR.Text.Printed

namespace DataflowIR.Text

/-- A code point in braces, in lower-case hexadecimal digits. -/
def codePointEscape (c : Char) : List Char :=
  '\\' :: 'u' :: '\x7b' :: Nat.toDigits 16 c.toNat ++ ['\x7d']

def escape (c : Char) : List Char :=
  match c with
  | '\x00' => ['\\', '0']
  | '\t' => ['\\', 't']
  | '\r' => ['\\', 'r']
  | '\n' => ['\\', 'n']
  | '"' => ['\\', '"']
  | '\\' => ['\\', '\\']
  | c => if isPrinted c then [c] else codePointEscape c

def quotedChars (cs : List Char) : List Char :=
  '"' :: cs.flatMap escape ++ ['"']

def quoted (s : String) : String :=
  String.ofList (quotedChars s.toList)

/-- Strings in brackets, each quoted. -/
def quotedList (ss : List String) : String :=
  "[" ++ String.intercalate ", " (ss.map quoted) ++ "]"

end DataflowIR.Text
