namespace DataflowIR

/-- `void` stands for an unknown element type. -/
inductive DType where
  | int (bits : Nat)
  | uint (bits : Nat)
  | float (bits : Nat)
  | bool
  | handle
  | void
  deriving DecidableEq, Inhabited

namespace DType

def int64 : DType := .int 64

def text : DType → String
  | int bits => "int" ++ toString bits
  | uint bits => "uint" ++ toString bits
  | float bits => "float" ++ toString bits
  | bool => "bool"
  | handle => "handle"
  | void => "void"

end DType

end DataflowIR
