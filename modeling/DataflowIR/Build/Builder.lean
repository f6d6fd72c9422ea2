import DataflowIR.Build.Inference
import DataflowIR.Build.NameTable

namespace DataflowIR

/-- A block under construction. -/
structure Frame where
  kind : BlockKind
  bindings : List Binding

/-- The accumulator of emitted bindings: the blocks under construction, the scopes whose parameters
may not be bound again, and the values bound so far. Frames and scopes have the innermost first. -/
structure Builder where
  rules : Rules
  names : NameTable
  frames : List Frame
  scopes : List (List Id)
  bound : IdTable Expr

namespace Builder

def new (rules : Rules) : Builder :=
  ⟨rules, .empty, [], [], .empty⟩

instance : Inhabited Builder := ⟨new .empty⟩

/-- The number of blocks under construction. -/
def depth (b : Builder) : Nat :=
  b.frames.length

/-- Whether the innermost block is a dataflow block. -/
def inDataflow (b : Builder) : Bool :=
  match b.frames with
  | frame :: _ => frame.kind == .dataflow
  | [] => false

/-- The value bound to the variable. The record of a value outlives its block, and a match cast
leaves the record as it is. -/
def lookup (b : Builder) (v : Var) : Option Expr :=
  b.bound.get? v.id

def isParameter (b : Builder) (id : Id) : Bool :=
  b.scopes.any fun params => params.contains id

def beginBlock (kind : BlockKind) (b : Builder) : Builder :=
  { b with frames := ⟨kind, []⟩ :: b.frames }

def endBlock (b : Builder) : Except Fault (Frame × Builder) :=
  match b.frames with
  | frame :: rest => .ok (frame, { b with frames := rest })
  | [] => .error .endBlockOutsideBlock

def beginScope (params : List Var) (b : Builder) : Builder :=
  { b with scopes := params.map Var.id :: b.scopes }

def endScope (b : Builder) : Except Fault Builder :=
  match b.scopes with
  | _ :: rest => .ok { b with scopes := rest }
  | [] => .error .endScopeOutsideScope

/-- The table of values after a binding: a match cast binds none. -/
def recordBinding (t : IdTable Expr) : Binding → IdTable Expr
  | .bind _ v value => t.insert v.id value
  | .cast .. => t

/-- Append a binding to the innermost block. -/
def push (binding : Binding) (b : Builder) : Except Fault Builder :=
  match b.frames with
  | [] => .error (.bindingOutsideBlock binding.var)
  | frame :: rest =>
    if binding.var.dataflow && frame.kind != .dataflow then
      .error (.dataflowVarInPlainBlock binding.var)
    else if b.isParameter binding.var.id then .error (.parameterBoundAgain binding.var)
    else
      .ok { b with
        frames := { frame with bindings := frame.bindings ++ [binding] } :: rest
        bound := recordBinding b.bound binding }

/-- The hint asked for, or `lv` or `gv` by the kind of the variable. -/
def hintOrDefault (hint : String) (dataflow : Bool) : String :=
  if hint = "" then (if dataflow then "lv" else "gv") else hint

/-- The name that the table gives for the hint. -/
def requestName (hint : String) (b : Builder) : String × Builder :=
  let (name, names) := b.names.request hint
  (name, { b with names })

/-- Whether a missing struct info is inferred. -/
def isComposite : Expr → Bool
  | .tuple .. | .item .. | .call .. | .ite .. | .seq .. | .function .. => true
  | _ => false

/-- The struct info to add to the expression, if it is composite and has none. -/
def missingSinfo (b : Builder) (e : Expr) : Except Fault (Option StructInfo) :=
  if e.sinfo.isNone && isComposite e then (b.rules.infer e).map some else .ok none

end Builder

end DataflowIR
