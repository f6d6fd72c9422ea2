import DataflowIR.Attrs
import DataflowIR.Identity
import DataflowIR.Span
import DataflowIR.Type.StructInfo

namespace DataflowIR

/-- What every node carries: its tag and where it was written. Two nodes are the same node exactly
when their tags are equal; a copy with equal content has a tag of its own. -/
structure Mark where
  tag : Nat
  span : Option Span
  deriving DecidableEq, Inhabited

/-- The mark of an expression and what is known of its value. -/
structure Node extends Mark where
  sinfo : Option StructInfo
  deriving DecidableEq, Inhabited

/-- A variable. A dataflow variable is local to its dataflow block. -/
structure Var where
  node : Node
  id : Id
  dataflow : Bool
  deriving DecidableEq, Inhabited

/-- The expressions without parts. -/
inductive Leaf where
  /-- Elements in row-major order; a scalar has rank zero. -/
  | constant (values : List Literal) (shape : List Int) (dtype : DType)
  /-- A shape known only when the program runs. -/
  | runtimeShape
  | externFunc (symbol : String)
  /-- A reference to a function of the module. -/
  | globalVar (name : String)
  | op (name : String)
  | str (value : String)
  | dtype (value : DType)
  deriving Inhabited

/-- Every binding of a dataflow block is free of side effects. -/
inductive BlockKind where
  | plain
  | dataflow
  deriving DecidableEq, Inhabited

mutual

inductive Expr where
  | leaf (node : Node) (content : Leaf)
  | var (v : Var)
  | shape (node : Node) (values : List Dim)
  | prim (node : Node) (value : Dim) (dtype : DType)
  | tuple (node : Node) (fields : List Expr)
  | item (node : Node) (whole : Expr) (index : Nat)
  | call (node : Node) (callee : Expr) (args : List Expr) (attrs : Option Attrs)
      (sinfoArgs : List StructInfo)
  | ite (node : Node) (cond onTrue onFalse : Expr)
  | seq (node : Node) (blocks : List Block) (body : Expr)
  | function (node : Node) (params : List Var) (body : Expr) (ret : StructInfo) (attrs : Attrs)

inductive Binding where
  | bind (mark : Mark) (var : Var) (value : Expr)
  /-- The value is asserted to have the struct info when the program runs. -/
  | cast (mark : Mark) (var : Var) (value : Expr) (sinfo : StructInfo)

inductive Block where
  | mk (mark : Mark) (kind : BlockKind) (bindings : List Binding)

end

instance : Inhabited Expr := ⟨.leaf default default⟩
instance : Inhabited Binding := ⟨.bind default default default⟩
instance : Inhabited Block := ⟨.mk default default []⟩

namespace Var

def hint (v : Var) : String := v.id.hint

def tag (v : Var) : Nat := v.node.tag

def span (v : Var) : Option Span := v.node.span

def sinfo (v : Var) : Option StructInfo := v.node.sinfo

def sameAs (v w : Var) : Bool := v.tag == w.tag

/-- A copy that is a node of its own. -/
def withSinfo (tag : Nat) (s : StructInfo) (v : Var) : Var :=
  { v with node := ⟨⟨tag, v.span⟩, some s⟩ }

end Var

namespace Expr

def node : Expr → Node
  | leaf n _ => n
  | var v => v.node
  | shape n _ => n
  | prim n _ _ => n
  | tuple n _ => n
  | item n _ _ => n
  | call n _ _ _ _ => n
  | ite n _ _ _ => n
  | seq n _ _ => n
  | function n _ _ _ _ => n

def withNode (n : Node) : Expr → Expr
  | leaf _ content => leaf n content
  | var v => var { v with node := n }
  | shape _ values => shape n values
  | prim _ value dtype => prim n value dtype
  | tuple _ fields => tuple n fields
  | item _ whole index => item n whole index
  | call _ callee args attrs sinfoArgs => call n callee args attrs sinfoArgs
  | ite _ cond onTrue onFalse => ite n cond onTrue onFalse
  | seq _ blocks body => seq n blocks body
  | function _ params body ret attrs => function n params body ret attrs

@[simp] theorem node_withNode (n : Node) (e : Expr) : (e.withNode n).node = n := by
  cases e <;> rfl

def tag (e : Expr) : Nat := e.node.tag

def span (e : Expr) : Option Span := e.node.span

def sinfo (e : Expr) : Option StructInfo := e.node.sinfo

/-- The struct info, `object` when there is none. -/
def sinfoOrObject (e : Expr) : StructInfo := e.sinfo.getD .object

def sameAs (a b : Expr) : Bool := a.tag == b.tag

/-- A copy that is a node of its own. -/
def withSinfo (tag : Nat) (s : StructInfo) (e : Expr) : Expr :=
  e.withNode ⟨⟨tag, e.span⟩, some s⟩

def withSpan (tag : Nat) (span : Option Span) (e : Expr) : Expr :=
  e.withNode ⟨⟨tag, span⟩, e.sinfo⟩

def isSeq : Expr → Bool
  | seq .. => true
  | _ => false

def asVar? : Expr → Option Var
  | var v => some v
  | _ => none

/-- The fields of a tuple. -/
def asTuple? : Expr → Option (List Expr)
  | tuple _ fields => some fields
  | _ => none

end Expr

namespace Binding

def mark : Binding → Mark
  | bind m _ _ => m
  | cast m _ _ _ => m

def withMark (m : Mark) : Binding → Binding
  | bind _ var value => bind m var value
  | cast _ var value sinfo => cast m var value sinfo

/-- The variable that the binding defines. -/
def var : Binding → Var
  | bind _ v _ => v
  | cast _ v _ _ => v

def value : Binding → Expr
  | bind _ _ e => e
  | cast _ _ e _ => e

def tag (b : Binding) : Nat := b.mark.tag

def span (b : Binding) : Option Span := b.mark.span

def sameAs (a b : Binding) : Bool := a.tag == b.tag

end Binding

namespace Block

def mark : Block → Mark
  | mk m _ _ => m

def kind : Block → BlockKind
  | mk _ k _ => k

def bindings : Block → List Binding
  | mk _ _ bs => bs

def withMark (m : Mark) (b : Block) : Block := mk m b.kind b.bindings

def tag (b : Block) : Nat := b.mark.tag

def span (b : Block) : Option Span := b.mark.span

def sameAs (a b : Block) : Bool := a.tag == b.tag

/-- The variables of the block that are visible after it. -/
def outputs (b : Block) : List Var :=
  (b.bindings.map Binding.var).filter fun v => !v.dataflow

end Block

mutual

/-- The number of nodes of a tree. -/
def Expr.size : Expr → Nat
  | .leaf .. | .var _ | .shape .. | .prim .. => 1
  | .tuple _ fields => 1 + Expr.sizeOfList fields
  | .item _ whole _ => 1 + whole.size
  | .call _ callee args _ _ => 1 + callee.size + Expr.sizeOfList args
  | .ite _ cond onTrue onFalse => 1 + cond.size + onTrue.size + onFalse.size
  | .seq _ blocks body => 1 + Block.sizeOfList blocks + body.size
  | .function _ _ body _ _ => 1 + body.size

def Expr.sizeOfList : List Expr → Nat
  | [] => 0
  | e :: es => e.size + Expr.sizeOfList es

def Binding.size : Binding → Nat
  | .bind _ _ value => 1 + value.size
  | .cast _ _ value _ => 1 + value.size

def Binding.sizeOfList : List Binding → Nat
  | [] => 0
  | b :: bs => b.size + Binding.sizeOfList bs

def Block.size : Block → Nat
  | .mk _ _ bindings => 1 + Binding.sizeOfList bindings

def Block.sizeOfList : List Block → Nat
  | [] => 0
  | b :: bs => b.size + Block.sizeOfList bs

end

end DataflowIR
