namespace DataflowIR

structure Span where
  source : String
  line : Nat
  column : Nat
  deriving DecidableEq, Inhabited

def Span.text (s : Span) : String :=
  s.source ++ ":" ++ toString s.line ++ ":" ++ toString s.column

end DataflowIR
