import DataflowIR.Expr.Make

namespace DataflowIR

/-- What a call of an operator gives. -/
abbrev Rule := Call → Except Fault StructInfo

/-- Rules by the name of the operator. -/
abbrev Rules := Dictionary Rule

/-- What is known of the tensors seen so far: their element type, the shape they all have, and the
greatest of their ranks. -/
structure TensorSummary where
  dtype : DType
  shape : Option (List Dim)
  ndim : Int
  deriving DecidableEq

namespace TensorSummary

def add (t : TensorSummary) (shape : Option (List Dim)) (ndim : Int) : TensorSummary :=
  { t with shape := if t.shape = shape then t.shape else none, ndim := max t.ndim ndim }

/-- The shape decides the rank; without a common shape only the rank is kept. -/
def toSinfo (t : TensorSummary) : StructInfo :=
  match t.shape with
  | some shape => .tensorOfShape shape t.dtype
  | none => .tensorOfNdim t.ndim t.dtype

end TensorSummary

namespace Rule

/-- Continue with the remaining arguments. An argument without struct info leaves only `object`;
one that is no tensor of the common element type is an error. -/
def elementwiseFrom (callee : Expr) (seen : Option TensorSummary) :
    List Expr → Except Fault StructInfo
  | [] =>
    match seen with
    | some t => .ok t.toSinfo
    | none => .error (.noArguments callee)
  | arg :: rest =>
    match arg.sinfo with
    | none => .ok .object
    | some (.tensor shape dtype ndim) =>
      match seen with
      | none => elementwiseFrom callee (some ⟨dtype, shape, max StructInfo.unknownNdim ndim⟩) rest
      | some t =>
        if t.dtype = dtype then elementwiseFrom callee (some (t.add shape ndim)) rest
        else .error (.dtypesDiffer callee t.dtype dtype)
    | some other => .error (.notATensor callee other)

/-- Tensors of one element type; the shape is kept when all arguments agree on it. -/
def elementwise : Rule :=
  fun c => elementwiseFrom c.callee none c.args

def const (s : StructInfo) : Rule :=
  fun _ => .ok s

/-- The struct info of the argument at `index`. -/
def argument (index : Nat) : Rule :=
  fun c =>
    match c.args[index]? with
    | some arg => .ok arg.sinfoOrObject
    | none => .error (.raised (c.callee.text ++ " has no argument " ++ toString index))

def fail (message : String) : Rule :=
  fun _ => .error (.raised message)

end Rule

namespace Rules

/-- A call of an operator without a rule has the return struct info of the callee, else its first
struct info argument, else `object`. -/
def callSinfo (c : Call) : StructInfo :=
  match c.callee.sinfo with
  | some (.func _ ret) | some (.opaqueFunc ret) => ret
  | _ => c.sinfoArgs.headD .object

def inferCall (rules : Rules) (c : Call) : Except Fault StructInfo :=
  match c.callee.asOp?.bind rules.find? with
  | some rule => rule c
  | none => .ok (callSinfo c)

def infer (rules : Rules) : Expr → Except Fault StructInfo
  | .call node callee args attrs sinfoArgs =>
    rules.inferCall ⟨node, callee, args, attrs, sinfoArgs⟩
  | .tuple _ fields => .ok (.tuple (fields.map Expr.sinfoOrObject))
  | .item _ whole index =>
    match whole.sinfo with
    | some (.tuple fields) =>
      match fields[index]? with
      | some s => .ok s
      | none => .error (.itemOutOfRange index fields.length)
    | _ => .ok .object
  | .ite _ _ onTrue onFalse =>
    .ok (if onTrue.sinfoOrObject = onFalse.sinfoOrObject then onTrue.sinfoOrObject else .object)
  | .seq _ _ body => .ok body.sinfoOrObject
  | .function _ params _ ret _ => .ok (functionSinfo params ret)
  | e => .ok e.sinfoOrObject

/-- The rules of the operators that the passes make or look at. -/
def standard : Rules :=
  .ofList (["relax.add", "relax.multiply", "relax.ewise_fma"].map (·, Rule.elementwise))

end Rules

end DataflowIR
