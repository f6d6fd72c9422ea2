import DataflowIR.Type.StructInfo

namespace DataflowIR

def Dim.symbols : Dim → List SymVar
  | int _ => []
  | sym v => [v]
  | binary _ lhs rhs => lhs.symbols ++ rhs.symbols

namespace StructInfo

mutual

def symbols : StructInfo → List SymVar
  | object | prim _ => []
  | shape values _ => (values.getD []).flatMap Dim.symbols
  | tensor dims _ _ => (dims.getD []).flatMap Dim.symbols
  | tuple fields => symbolsAll fields
  | func params ret => symbolsAll params ++ ret.symbols
  | opaqueFunc ret => ret.symbols

def symbolsAll : List StructInfo → List SymVar
  | [] => []
  | s :: rest => s.symbols ++ symbolsAll rest

end

end StructInfo

end DataflowIR
