namespace DataflowIR.Text

/-- Two blanks per level; a negative level has none. -/
def spaces (level : Int) : String :=
  String.ofList (List.replicate (2 * level.toNat) ' ')

def commaSep (items : List String) : String :=
  String.intercalate ", " items

def inParens (items : List String) : String :=
  "(" ++ commaSep items ++ ")"

def inBrackets (items : List String) : String :=
  "[" ++ commaSep items ++ "]"

theorem spaces_neg {level : Int} (h : level ≤ 0) : spaces level = "" := by
  simp [spaces, Int.toNat_of_nonpos h]

end DataflowIR.Text
