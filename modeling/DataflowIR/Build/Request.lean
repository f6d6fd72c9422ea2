import DataflowIR.Build.Session

namespace DataflowIR

inductive Request where
  | beginBlock (kind : BlockKind)
  | endBlock
  | beginScope (params : List Var)
  | endScope
  | emit (value : Expr) (hint : String)
  | emitOutput (value : Expr) (hint : String)
  | emitCast (value : Expr) (sinfo : StructInfo) (hint : String)
  | emitBinding (b : Binding)
  | normalize (e : Expr)
  | name (hint : String)
  | number

inductive Answer where
  | done
  | block (b : Block)
  | var (v : Var)
  | expr (e : Expr)
  | name (text : String)
  | number (n : Nat)

def Session.serve {σ : Type} : Request → Build σ Answer
  | .beginBlock kind => do beginBlock kind; return .done
  | .endBlock => return .block (← endBlock)
  | .beginScope params => do beginScope params; return .done
  | .endScope => do endScope; return .done
  | .emit value hint => return .var (← emit value hint)
  | .emitOutput value hint => return .var (← emitOutput value hint)
  | .emitCast value sinfo hint => return .var (← emitCast value sinfo hint)
  | .emitBinding b => do emitBinding b; return .done
  | .normalize e => return .expr (← normalize e)
  | .name hint => return .name (← requestName hint)
  | .number => return .number (← fresh)

end DataflowIR
