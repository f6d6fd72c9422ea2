import DataflowIR.Proofs.Alpha.Contents
import DataflowIR.Proofs.Normalize.Substitution

namespace DataflowIR

/-- A node without its parts, its mark and the identities that it binds. -/
inductive Label where
  | leaf (content : Leaf)
  /-- A use of a variable with `index` binders between it and its binder. -/
  | bound (index : Nat) (dataflow : Bool)
  | free (id : Id) (dataflow : Bool)
  | shape (values : List Dim)
  | prim (value : Dim) (dtype : DType)
  | tuple
  | item (index : Nat)
  | call (attrs : Option (List (String × AttrValue))) (sinfoArgs : List StructInfo)
  | ite
  | seq
  | function (params : List (Bool × Option StructInfo)) (ret : StructInfo)
      (attrs : List (String × AttrValue))
  | block (kind : BlockKind)
  | bind (dataflow : Bool) (sinfo : Option StructInfo)
  | cast (dataflow : Bool) (sinfo : Option StructInfo) (asserted : StructInfo)

inductive Form where
  | node (label : Label) (parts : List Form)

/-- A use of the variable, with the identities bound around it, the latest first. -/
def Label.use (bs : List Id) (v : Var) : Label :=
  if v.id ∈ bs then bound (bs.idxOf v.id) v.dataflow else free v.id v.dataflow

def Label.free? : Label → Option Id
  | free id _ => some id
  | _ => none

mutual

/-- The identities used outside the scope of their binders. -/
def Form.free : Form → List Id
  | .node label parts => label.free?.toList ++ Form.freeAll parts

def Form.freeAll : List Form → List Id
  | [] => []
  | f :: fs => f.free ++ Form.freeAll fs

end

/-- But for uses, the free identities are those of the parts. -/
theorem Form.free_node {label : Label} {parts : List Form} (h : label.free? = none) :
    (Form.node label parts).free = Form.freeAll parts := by
  simp [Form.free, h]

theorem Form.freeAll_singleton (f : Form) : Form.freeAll [f] = f.free := by
  simp [Form.freeAll]

def Var.signature (v : Var) : Bool × Option StructInfo :=
  (v.dataflow, v.sinfo)

/-- The identities bound inside these around them, the latest first. -/
def Var.enter (bs : List Id) (vs : List Var) : List Id :=
  (vs.map Var.id).reverse ++ bs

def Block.vars (b : Block) : List Var :=
  b.bindings.map Binding.var

mutual

/-- The nameless form of an expression, inside binders of the identities `bs`. -/
def Expr.form (bs : List Id) : Expr → Form
  | .leaf _ content => .node (.leaf content.canonical) []
  | .var v => .node (.use bs v) []
  | .shape _ values => .node (.shape values) []
  | .prim _ value dtype => .node (.prim value dtype) []
  | .tuple _ fields => .node .tuple (Expr.formAll bs fields)
  | .item _ whole index => .node (.item index) [whole.form bs]
  | .call _ callee args attrs sinfoArgs =>
    .node (.call (attrs.map Attrs.canonical) sinfoArgs) (callee.form bs :: Expr.formAll bs args)
  | .ite _ cond onTrue onFalse => .node .ite [cond.form bs, onTrue.form bs, onFalse.form bs]
  | .seq _ blocks body =>
    .node .seq (body.form (Var.enter bs (blocks.flatMap Block.vars)) :: Block.formAll bs blocks)
  | .function _ params body ret attrs =>
    .node (.function (params.map Var.signature) ret attrs.canonical)
      [body.form (Var.enter bs params)]

def Expr.formAll (bs : List Id) : List Expr → List Form
  | [] => []
  | e :: es => e.form bs :: Expr.formAll bs es

def Binding.form (bs : List Id) : Binding → Form
  | .bind _ v value => .node (.bind v.dataflow v.sinfo) [value.form bs]
  | .cast _ v value sinfo => .node (.cast v.dataflow v.sinfo sinfo) [value.form bs]

/-- A binding is in scope in those after it. -/
def Binding.formAll (bs : List Id) : List Binding → List Form
  | [] => []
  | c :: cs => c.form bs :: Binding.formAll (Var.enter bs [c.var]) cs

def Block.form (bs : List Id) : Block → Form
  | .mk _ kind bindings => .node (.block kind) (Binding.formAll bs bindings)

def Block.formAll (bs : List Id) : List Block → List Form
  | [] => []
  | b :: rest => b.form bs :: Block.formAll (Var.enter bs b.vars) rest

end

/-- The form of an expression that stands alone. -/
def Expr.nameless (e : Expr) : Form :=
  e.form []

end DataflowIR
