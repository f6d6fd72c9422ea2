import DataflowIR.Build.Session
import DataflowIR.Traversal.Fuel
import DataflowIR.Traversal.Site

namespace DataflowIR

/-- What is made of a place, given how the traversal goes on elsewhere. Bindings do not come back but
are emitted into the builder, so that a handler may emit others before the one it rebuilds. -/
abbrev Transformer (σ : Type) :=
  ((s : Site) → Build σ s.Result) → (s : Site) → Build σ s.Result

namespace Transformer

open Session

variable {σ : Type} (self : (s : Site) → Build σ s.Result)

def visitSpan : Option Span → Build σ Unit
  | some s => self (.span s)
  | none => pure ()

def visitExprs : List Expr → Build σ (List Expr)
  | [] => pure []
  | e :: es => return (← self (.expr e)) :: (← visitExprs es)

def visitDims : List Dim → Build σ (List Dim)
  | [] => pure []
  | d :: ds => return (← self (.dim d)) :: (← visitDims ds)

def visitTypes : List StructInfo → Build σ (List StructInfo)
  | [] => pure []
  | s :: ss => return (← self (.type s)) :: (← visitTypes ss)

def visitVarDefs : List Var → Build σ (List Var)
  | [] => pure []
  | v :: vs => return (← self (.varDef v)) :: (← visitVarDefs vs)

def visitBlocks : List Block → Build σ (List Block)
  | [] => pure []
  | b :: bs => return (← self (.block b)) :: (← visitBlocks bs)

def visitBindings : List Binding → Build σ Unit
  | [] => pure ()
  | b :: bs => do
    self (.binding b)
    visitBindings bs

/-- Whether two lists hold the same nodes. -/
def allSame {α : Type} (same : α → α → Bool) : List α → List α → Bool
  | [], [] => true
  | a :: as, b :: bs => same a b && allSame same as bs
  | _, _ => false

/-- Visit in a scope of its own, in which the parameters may not be bound again. The bindings
emitted meanwhile come to stand before the result, and replacements made meanwhile are undone. -/
def inScope (e : Expr) (params : List Var) : Build σ Expr := do
  openRemap
  beginScope params
  beginBlock .plain
  let visited ← Act.attempt (self (.expr e))
  let prologue ← Act.attempt endBlock
  let scope ← Act.attempt endScope
  let remap ← Act.attempt closeRemap
  let visited ← Act.resume visited
  let prologue ← Act.resume prologue
  Act.resume scope
  Act.resume remap
  if prologue.bindings.isEmpty then return visited
  else normalize (.mkSeq (← freshMark none) [prologue] visited)

def walkFunction (f : Function) : Build σ Expr := do
  let params ← visitVarDefs self f.params
  let ret ← self (.type f.ret)
  let body ← inScope self f.body params
  if allSame Var.sameAs params f.params && ret = f.ret && body.sameAs f.body then
    return f.toExpr
  else return .mkFunction (← freshMark f.node.span) params body (some ret) f.attrs

/-- Replacements made for a function end with it. -/
def walkFunctionScope (f : Function) : Build σ Expr := do
  openRemap
  let result ← Act.attempt (walkFunction self f)
  let remap ← Act.attempt closeRemap
  let result ← Act.resume result
  Act.resume remap
  return result

/-- Blocks left without bindings are dropped when the sequence is rebuilt. Bindings emitted while
the body is visited become its last block. -/
def walkSeq (node : Node) (blocks : List Block) (body : Expr) : Build σ Expr := do
  let newBlocks ← visitBlocks self blocks
  beginBlock .plain
  let newBody ← Act.attempt (self (.expr body))
  let prologue ← Act.attempt endBlock
  let newBody ← Act.resume newBody
  let prologue ← Act.resume prologue
  if allSame Block.sameAs newBlocks blocks && prologue.bindings.isEmpty &&
      newBody.sameAs body then
    return .seq node blocks body
  else
    let kept := (newBlocks ++ [prologue]).filter fun b => !b.bindings.isEmpty
    return .mkSeq (← freshMark node.span) kept newBody

def walkCall (c : Call) : Build σ Expr := do
  let callee ← self (.expr c.callee)
  let sinfoArgs ← visitTypes self c.sinfoArgs
  let args ← visitExprs self c.args
  if allSame Expr.sameAs args c.args && callee.sameAs c.callee && sinfoArgs = c.sinfoArgs then
    return c.toExpr
  else return .mkCall (← freshMark c.node.span) callee args c.attrs sinfoArgs

def walkIte (node : Node) (cond onTrue onFalse : Expr) : Build σ Expr := do
  let cond' ← self (.expr cond)
  let onTrue' ← inScope self onTrue []
  let onFalse' ← inScope self onFalse []
  if cond'.sameAs cond && onTrue'.sameAs onTrue && onFalse'.sameAs onFalse then
    return .ite node cond onTrue onFalse
  else return .mkIte (← freshMark node.span) cond' onTrue' onFalse'

/-- Visit what lies below an expression and rebuild it. -/
def walkExpr (e : Expr) : Build σ Expr := do
  visitSpan self e.span
  match e with
  | .leaf node content => return .leaf node content
  | .var v => return .var ((← getRemap? v.id).getD v)
  | .shape node values =>
    let values' ← visitDims self values
    if values' = values then return .shape node values
    else return .mkShape (← freshMark node.span) values'
  | .prim node value dtype =>
    let value' ← self (.dim value)
    if value' = value then return .prim node value dtype
    else return .mkPrim (← freshMark node.span) value' dtype
  | .tuple node fields =>
    let fields' ← visitExprs self fields
    if allSame Expr.sameAs fields' fields then return .tuple node fields
    else return .mkTuple (← freshMark node.span) fields'
  | .item node whole index =>
    let whole' ← self (.expr whole)
    if whole'.sameAs whole then return .item node whole index
    else return .mkItem (← freshMark node.span) whole' index
  | .call node callee args attrs sinfoArgs => walkCall self ⟨node, callee, args, attrs, sinfoArgs⟩
  | .ite node cond onTrue onFalse => walkIte self node cond onTrue onFalse
  | .seq node blocks body => walkSeq self node blocks body
  | .function node params body ret attrs =>
    walkFunctionScope self ⟨node, params, body, ret, attrs⟩

/-- Replace later uses when the variable became another node. -/
def remapIfChanged (v new : Var) : Build σ Unit :=
  if new.sameAs v then pure () else setRemap v.id new

/-- The variable takes the struct info of the new value. -/
def walkBind (mark : Mark) (v : Var) (value : Expr) : Build σ Unit := do
  let value' ← self (.expr value)
  let v' ← self (.varDef v)
  if v'.sameAs v && value'.sameAs value then emitBinding (.bind mark v value)
  else
    let v' ← retype v' value'.sinfo
    remapIfChanged v v'
    emitBinding (.bind (← freshMark mark.span) v' value')

/-- The variable takes the new struct info of the cast. -/
def walkCast (mark : Mark) (v : Var) (value : Expr) (sinfo : StructInfo) : Build σ Unit := do
  let value' ← self (.expr value)
  let sinfo' ← self (.type sinfo)
  let v' ← self (.varDef v)
  if v'.sameAs v && value'.sameAs value && sinfo' = sinfo then
    emitBinding (.cast mark v value sinfo)
  else
    let v' ← retype v' (some sinfo')
    remapIfChanged v v'
    emitBinding (.cast (← freshMark mark.span) v' value' sinfo')

def walkBinding : Binding → Build σ Unit
  | .bind mark v value => walkBind self mark v value
  | .cast mark v value sinfo => walkCast self mark v value sinfo

/-- Visit the bindings into a new block of kind `kind`. -/
def walkBlockAs (kind : BlockKind) (b : Block) : Build σ Block := do
  beginBlock kind
  let visited ← Act.attempt (visitBindings self b.bindings)
  let new ← Act.attempt endBlock
  Act.resume visited
  let new ← Act.resume new
  if kind = b.kind && allSame Binding.sameAs new.bindings b.bindings then return b
  else return new.withMark ⟨new.tag, b.span⟩

/-- A definition with a new struct info is a new variable of the same identity. -/
def walkVarDef (v : Var) : Build σ Var := do
  visitSpan self v.span
  match v.sinfo with
  | none => return v
  | some s =>
    let s' ← self (.type s)
    if s' = s then return v
    else
      let v' := Var.make (← freshMark v.span) v.id (some s') v.dataflow
      setRemap v.id v'
      return v'

/-- The default: rebuild from what lies below, and fill in struct info as expressions come back. -/
def walk : Transformer σ :=
  fun self s =>
    match s with
    | .expr e => do normalize (← self (.exprKind e))
    | .exprKind e => walkExpr self e
    | .binding b => self (.bindingKind b)
    | .bindingKind b => walkBinding self b
    | .block b => self (.blockKind b)
    | .blockKind b => walkBlockAs self b.kind b
    | .varDef v => self (.varDefKind v)
    | .varDefKind v => walkVarDef self v
    | .type s => pure s
    | .span _ => pure ()
    | .dim d => pure d

/-- The traversal of a transformer, with `fuel` as the greatest number of places that lie one below
the other. -/
def run (r : Transformer σ) : (fuel : Fuel) → (s : Site) → Build σ s.Result
  | .spent, _ => Act.fail .outOfFuel
  | .step rest, s => r (run r (rest ())) s

end Transformer

end DataflowIR
