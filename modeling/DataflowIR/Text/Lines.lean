namespace DataflowIR.Text

/-- The characters with the property White_Space. -/
def isBlank (c : Char) : Bool :=
  let n := c.toNat
  (0x9 ≤ n && n ≤ 0xD) || n == 0x20 || n == 0x85 || n == 0xA0 || n == 0x1680 ||
    (0x2000 ≤ n && n ≤ 0x200A) || n == 0x2028 || n == 0x2029 || n == 0x202F || n == 0x205F ||
    n == 0x3000

theorem isBlank_of_isWhitespace {c : Char} (h : c.isWhitespace = true) : isBlank c = true := by
  simp only [Char.isWhitespace, Bool.or_eq_true, decide_eq_true_eq] at h
  rcases h with ((rfl | rfl) | rfl) | rfl <;> decide

def trimChars (cs : List Char) : List Char :=
  ((cs.dropWhile isBlank).reverse.dropWhile isBlank).reverse

/-- The reversed characters of a line without a carriage return before its end. -/
def dropReturn : List Char → List Char
  | '\r' :: cs => cs
  | cs => cs

/-- The lines of the text, where `current` holds the reversed start of the first. A line ends with
a line feed or a carriage return and a line feed; the last one may end with the text. -/
def linesFrom (current : List Char) : List Char → List (List Char)
  | [] => if current.isEmpty then [] else [current.reverse]
  | c :: cs =>
    if c = '\n' then (dropReturn current).reverse :: linesFrom [] cs
    else linesFrom (c :: current) cs

def lines (s : String) : List String :=
  (linesFrom [] s.toList).map String.ofList

def trim (s : String) : String :=
  String.ofList (trimChars s.toList)

/-- Whether `part` stands somewhere in the characters. -/
def occursIn (part : List Char) : List Char → Bool
  | [] => part.isEmpty
  | c :: cs => part.isPrefixOf (c :: cs) || occursIn part cs

end DataflowIR.Text
