import DataflowIR.Expr.Kind
import DataflowIR.Expr.Text

namespace DataflowIR

inductive Violation where
  | misplacedSeq
  | globalVarUndefined (name : String)
  | varUndefined (v : Var)
  | varRedefined (v : Var)
  | dataflowVarUsedOutside (v : Var)
  | dataflowVarUndefined (v : Var)
  | dataflowVarDefinedOutside (v : Var)
  | dataflowVarRedefined (v : Var)
  | argumentNotNormal (e : Expr)
  | fieldNotNormal (e : Expr)
  | conditionalInDataflow
  | symUndefinedInType (v : SymVar) (s : StructInfo)
  | symUndefinedInDim (v : SymVar) (d : Dim)
  deriving Inhabited

namespace Violation

def notNormalText (what : String) (e : Expr) : String :=
  what ++ " must be in A-normal form, found " ++ e.kind.name ++ ": " ++ e.text

def symUndefinedText (v : SymVar) (place : String) : String :=
  "symbolic var " ++ v.name ++ " in " ++ place ++ " is not defined"

def message : Violation → String
  | misplacedSeq => "SeqExpr only allowed as the body of a Function or a branch of an If"
  | globalVarUndefined name => "GlobalVar @" ++ name ++ " is not defined"
  | varUndefined v => "Var " ++ v.text ++ " is not defined"
  | varRedefined v => "Var " ++ v.text ++ " is defined more than once"
  | dataflowVarUsedOutside v => "DataflowVar " ++ v.text ++ " is used outside a DataflowBlock"
  | dataflowVarUndefined v => "DataflowVar " ++ v.text ++ " is not defined"
  | dataflowVarDefinedOutside v =>
    "DataflowVar " ++ v.text ++ " is defined outside a DataflowBlock"
  | dataflowVarRedefined v => "DataflowVar " ++ v.text ++ " is defined more than once"
  | argumentNotNormal e => notNormalText "Call arguments" e
  | fieldNotNormal e => notNormalText "Tuple fields" e
  | conditionalInDataflow => "If is not allowed inside a DataflowBlock"
  | symUndefinedInType v s => symUndefinedText v s.text
  | symUndefinedInDim v d => symUndefinedText v d.text

end Violation

end DataflowIR
