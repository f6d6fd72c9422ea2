import DataflowIR.Expr.Outline

namespace DataflowIR

/-- A place that a traversal passes. An expression, a binding, a block and the definition of a
variable are passed twice: as such, and then as a node of their kind. -/
inductive Site where
  | expr (e : Expr)
  | exprKind (e : Expr)
  | binding (b : Binding)
  | bindingKind (b : Binding)
  | block (b : Block)
  | blockKind (b : Block)
  | varDef (v : Var)
  | varDefKind (v : Var)
  | type (s : StructInfo)
  | span (s : Span)
  | dim (d : Dim)
  deriving Inhabited

def spanSites : Option Span → List Site
  | some s => [.span s]
  | none => []

/-- The places below a node of its kind, in the order in which they are passed. -/
def Expr.sites (e : Expr) : List Site :=
  spanSites e.span ++
    match e with
    | .leaf .. | .var _ => []
    | .shape _ values => values.map .dim
    | .prim _ value _ => [.dim value]
    | .tuple _ fields => fields.map .expr
    | .item _ whole _ => [.expr whole]
    | .call _ callee args _ sinfoArgs =>
      .expr callee :: sinfoArgs.map .type ++ args.map .expr
    | .ite _ cond onTrue onFalse => [.expr cond, .expr onTrue, .expr onFalse]
    | .seq _ blocks body => blocks.map .block ++ [.expr body]
    | .function _ params body ret _ => params.map .varDef ++ [.expr body, .type ret]

/-- A binding passes its value before its variable. -/
def Binding.sites : Binding → List Site
  | .bind _ v value => [.expr value, .varDef v]
  | .cast _ v value sinfo => [.expr value, .type sinfo, .varDef v]

namespace Site

/-- The places passed next below a place. -/
def below : Site → List Site
  | expr e => [.exprKind e]
  | exprKind e => e.sites
  | binding b => [.bindingKind b]
  | bindingKind b => b.sites
  | block b => [.blockKind b]
  | blockKind b => b.bindings.map .binding
  | varDef v => [.varDefKind v]
  | varDefKind v => spanSites v.span
  | type _ | span _ | dim _ => []

/-- The printed form of what stands at a place; a binding is printed by its variable, a block by
its kind and the number of its bindings. -/
def text : Site → String
  | expr e | exprKind e => e.text
  | binding b | bindingKind b => b.var.text
  | block b | blockKind b => b.shortText
  | varDef v | varDefKind v => v.text
  | type s => s.text
  | span s => s.text
  | dim d => d.text

/-- The printed form, with the kind alone for an expression that has parts. -/
def name : Site → String
  | expr e | exprKind e => e.shortText
  | s => s.text

/-- What a transformer gives for a place. A binding is not given back but emitted. -/
abbrev Result : Site → Type
  | expr _ | exprKind _ => Expr
  | binding _ | bindingKind _ => Unit
  | block _ | blockKind _ => Block
  | varDef _ | varDefKind _ => Var
  | type _ => StructInfo
  | span _ => Unit
  | dim _ => Dim

end Site

/-- What a handler is supplied for. -/
inductive Slot where
  | expr
  | exprKind (k : ExprKind)
  | binding
  | bindingKind (k : BindingKind)
  | block
  | blockKind (k : BlockKind)
  | varDef
  | varDefKind (k : VarKind)
  | type
  | span
  deriving DecidableEq, Inhabited

namespace Slot

def name : Slot → String
  | expr => "visit_expr"
  | exprKind k => k.handlerName
  | binding => "visit_binding"
  | bindingKind k => k.handlerName
  | block => "visit_binding_block"
  | blockKind k => k.handlerName
  | varDef => "visit_var_def"
  | varDefKind k => k.handlerName
  | type => "visit_type"
  | span => "visit_span"

def all : List Slot :=
  [.expr, .binding, .block, .varDef, .type, .span] ++ ExprKind.all.map .exprKind ++
    BindingKind.all.map .bindingKind ++ BlockKind.all.map .blockKind ++
    VarKind.all.map .varDefKind

def ofName? (name : String) : Option Slot :=
  all.find? fun slot => slot.name == name

/-- Whether the slot is for the nodes of one kind. -/
def isOfKind : Slot → Bool
  | exprKind _ | bindingKind _ | blockKind _ | varDefKind _ => true
  | expr | binding | block | varDef | type | span => false

end Slot

/-- The slot whose handler a place runs; there is none for dimensions. -/
def Site.slot? : Site → Option Slot
  | expr _ => some .expr
  | exprKind e => some (.exprKind e.kind)
  | binding _ => some .binding
  | bindingKind b => some (.bindingKind b.kind)
  | block _ => some .block
  | blockKind b => some (.blockKind b.kind)
  | varDef _ => some .varDef
  | varDefKind v => some (.varDefKind v.kind)
  | type _ => some .type
  | span _ => some .span
  | dim _ => none

end DataflowIR
