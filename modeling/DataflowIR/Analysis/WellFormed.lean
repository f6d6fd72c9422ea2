import DataflowIR.Analysis.Violation
import DataflowIR.Act
import DataflowIR.Module

namespace DataflowIR

/-- What is in scope at a place of the check. -/
structure Scope where
  vars : List Id
  dataflowVars : List Id
  syms : List SymVar
  inDataflow : Bool

namespace Scope

def empty : Scope := ⟨[], [], [], false⟩

def defineSyms (sc : Scope) (s : StructInfo) : Scope :=
  { sc with syms := s.syms ++ sc.syms }

def defineVar (sc : Scope) (v : Var) : Except Violation Scope :=
  if v.dataflow then
    if !sc.inDataflow then .error (.dataflowVarDefinedOutside v)
    else if v.id ∈ sc.dataflowVars then .error (.dataflowVarRedefined v)
    else .ok { sc with dataflowVars := v.id :: sc.dataflowVars }
  else if v.id ∈ sc.vars then .error (.varRedefined v)
  else .ok { sc with vars := v.id :: sc.vars }

/-- A parameter defines the symbolic variables of its struct info, then itself. -/
def defineParam (sc : Scope) (v : Var) : Except Violation Scope :=
  let sc := match v.sinfo with
    | some s => sc.defineSyms s
    | none => sc
  sc.defineVar v

def defineParams (sc : Scope) : List Var → Except Violation Scope
  | [] => .ok sc
  | v :: vs => do (← sc.defineParam v).defineParams vs

def useVar (sc : Scope) (v : Var) : Except Violation Scope :=
  if v.dataflow then
    if !sc.inDataflow then .error (.dataflowVarUsedOutside v)
    else if v.id ∈ sc.dataflowVars then .ok sc
    else .error (.dataflowVarUndefined v)
  else if v.id ∈ sc.vars then .ok sc
  else .error (.varUndefined v)

def useDim (sc : Scope) (d : Dim) : Except Violation Scope :=
  match d.syms.find? fun v => v ∉ sc.syms with
  | some v => .error (.symUndefinedInDim v d)
  | none => .ok sc

def useDims (sc : Scope) : List Dim → Except Violation Scope
  | [] => .ok sc
  | d :: ds => do (← sc.useDim d).useDims ds

def useType (sc : Scope) (s : StructInfo) : Except Violation Scope :=
  match s.syms.find? fun v => v ∉ sc.syms with
  | some v => .error (.symUndefinedInType v s)
  | none => .ok sc

def useTypes (sc : Scope) : List StructInfo → Except Violation Scope
  | [] => .ok sc
  | s :: ss => do (← sc.useType s).useTypes ss

end Scope

mutual

/-- Whether the expression may be an argument or a field: a leaf or a tuple of such. -/
def Expr.isNormal : Expr → Bool
  | .leaf .. | .var _ | .shape .. | .prim .. => true
  | .tuple _ fields => Expr.areNormal fields
  | .item .. | .call .. | .ite .. | .seq .. | .function .. => false

def Expr.areNormal : List Expr → Bool
  | [] => true
  | e :: es => e.isNormal && Expr.areNormal es

end

mutual

/-- The scope after the expression. `asBody` is set where a sequence may stand. Variables bound in
a branch or in a function are not in scope after it. -/
def Expr.check (known : String → Bool) (asBody : Bool) (sc : Scope) :
    Expr → Except Violation Scope
  | .leaf _ (.globalVar name) =>
    if known name then .ok sc else .error (.globalVarUndefined name)
  | .leaf .. => .ok sc
  | .var v => sc.useVar v
  | .shape _ values => sc.useDims values
  | .prim _ value _ => sc.useDim value
  | .tuple _ fields =>
    match fields.find? fun e => !e.isNormal with
    | some e => .error (.fieldNotNormal e)
    | none => Expr.checkAll known sc fields
  | .item _ whole _ => whole.check known false sc
  | .call _ callee args _ sinfoArgs =>
    match args.find? fun e => !e.isNormal with
    | some e => .error (.argumentNotNormal e)
    | none => do
      let sc ← callee.check known false sc
      let sc ← sc.useTypes sinfoArgs
      Expr.checkAll known sc args
  | .ite _ cond onTrue onFalse =>
    if sc.inDataflow then .error .conditionalInDataflow
    else do
      let sc ← cond.check known false sc
      let after ← onTrue.check known true sc
      let after ← onFalse.check known true { after with vars := sc.vars }
      return { after with vars := sc.vars }
  | .seq _ blocks body =>
    if asBody then do
      let sc ← Block.checkAll known sc blocks
      body.check known false sc
    else .error .misplacedSeq
  | .function _ params body ret _ => do
    let inner ← sc.defineParams params
    let inner ← body.check known true inner
    let inner ← inner.useType ret
    return { inner with vars := sc.vars }

def Expr.checkAll (known : String → Bool) (sc : Scope) : List Expr → Except Violation Scope
  | [] => .ok sc
  | e :: es => do
    let sc ← e.check known false sc
    Expr.checkAll known sc es

/-- A match cast defines the symbolic variables of its struct info before its variable. -/
def Binding.check (known : String → Bool) (sc : Scope) : Binding → Except Violation Scope
  | .bind _ v value => do
    let sc ← value.check known false sc
    sc.defineVar v
  | .cast _ v value sinfo => do
    let sc ← value.check known false sc
    (sc.defineSyms sinfo).defineVar v

def Binding.checkAll (known : String → Bool) (sc : Scope) :
    List Binding → Except Violation Scope
  | [] => .ok sc
  | b :: bs => do
    let sc ← b.check known sc
    Binding.checkAll known sc bs

/-- Dataflow variables end with their block. -/
def Block.check (known : String → Bool) (sc : Scope) : Block → Except Violation Scope
  | .mk _ .plain bindings => Binding.checkAll known sc bindings
  | .mk _ .dataflow bindings => do
    let sc ← Binding.checkAll known { sc with inDataflow := true } bindings
    return { sc with inDataflow := false, dataflowVars := [] }

def Block.checkAll (known : String → Bool) (sc : Scope) : List Block → Except Violation Scope
  | [] => .ok sc
  | b :: bs => do
    let sc ← b.check known sc
    Block.checkAll known sc bs

end

namespace Module

/-- Check functions one by one, each with nothing in scope. -/
def checkFunctions (known : String → Bool) : List Function → Except Violation Unit
  | [] => .ok ()
  | f :: fs => do
    let _ ← f.toExpr.check known false .empty
    checkFunctions known fs

/-- The first violation, if there is one. -/
def wellFormed (m : Module) : Except Violation Unit :=
  checkFunctions m.contains (m.toList.map Prod.snd)

/-- The verdict; a violation is reported. -/
def isWellFormed (m : Module) (w : World) : Bool × World :=
  match m.wellFormed with
  | .ok () => (true, w)
  | .error v => (false, w.report (.illFormed v))

end Module

end DataflowIR
