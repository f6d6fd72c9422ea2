import DataflowIR.Expr.Text
import DataflowIR.Traversal.Visitor

namespace DataflowIR.Printer

/-- One level deeper. There is none below the greatest level. -/
def deeper (level : Int32) : Act Int32 Int32 :=
  if level = Int32.maxValue then Act.fail .levelOverflow else pure (level + 1)

def indent : Act Int32 Unit := do
  set (← deeper (← get))

/-- The way back from a level that `indent` went to. -/
def outdent : Act Int32 Unit :=
  modify (· - 1)

/-- One level deeper and back. A failure leaves the level where it arose. -/
def nested {α : Type} (act : Act Int32 α) : Act Int32 α := do
  indent
  let a ← act
  outdent
  return a

def pad (level : Int32) : String :=
  Text.spaces level.toInt

variable (self : Expr → Act Int32 String)

def list : List Expr → Act Int32 (List String)
  | [] => pure []
  | e :: es => do
    let text ← self e
    return text :: (← list es)

/-- A binding without indentation before it. -/
def binding : Binding → Act Int32 String
  | .bind _ var value => do
    return var.defText ++ " = " ++ (← self value)
  | .cast _ var value sinfo => do
    return var.defText ++ " = match_cast(" ++ (← self value) ++ ", " ++ sinfo.text ++ ")"

/-- One text a binding, each after `before`. -/
def bindings (before : String) : List Binding → Act Int32 (List String)
  | [] => pure []
  | b :: bs => do
    let text ← binding self b
    return (before ++ text) :: (← bindings before bs)

def block : Block → Act Int32 String
  | .mk _ .plain bs => do
    let level ← get
    return String.intercalate "\n" (← bindings self (pad level) bs)
  | .mk _ .dataflow bs => do
    let level ← get
    let lines ← nested do
      let inner ← get
      let lines ← bindings self (pad inner) bs
      return lines ++ outputLines inner.toInt (bs.map Binding.var)
    return String.intercalate "\n"
      ((pad level ++ "dataflow \x7b") :: (lines ++ [pad level ++ "\x7d"]))

/-- The texts of the blocks that hold a binding. -/
def blocks : List Block → Act Int32 (List String)
  | [] => pure []
  | .mk mark kind bs :: rest => do
    if bs.isEmpty then blocks rest
    else
      let text ← block self (.mk mark kind bs)
      return text :: (← blocks rest)

def seq (bs : List Block) (body : Expr) : Act Int32 String := do
  let lines ← nested do
    let lines ← blocks self bs
    let text ← self body
    return lines ++ [pad (← get) ++ text]
  return "\x7b\n" ++ String.intercalate "\n" lines ++ "\n" ++ pad (← get) ++ "\x7d"

/-- A text between braces, on a line of its own. The way back is taken also after a failure. -/
def enclosed (text : Act Int32 String) : Act Int32 String := do
  indent
  let inner ← text.attempt
  outdent
  let level ← get
  let before := pad (← deeper level)
  return "\x7b\n" ++ before ++ (← Act.resume inner) ++ "\n" ++ pad level ++ "\x7d"

/-- An expression between braces; a sequence has braces of its own. -/
def braced : Expr → Act Int32 String
  | .seq _ bs body => seq self bs body
  | e => enclosed (self e)

/-- A function has a name inside a module. -/
def function (name : Option String) (f : Function) : Act Int32 String := do
  let body ← braced self f.body
  return functionHead name f.params f.ret f.attrs ++ body

def expr : Expr → Act Int32 String
  | .leaf _ content => pure content.text
  | .var v => pure v.text
  | .shape _ values => pure ("shape" ++ Text.inParens (values.map Dim.text))
  | .prim _ value _ => pure ("prim(" ++ value.text ++ ")")
  | .tuple _ fields => do
    return tupleText (← list self fields)
  | .item _ whole index => do
    return (← self whole) ++ "[" ++ toString index ++ "]"
  | .call _ callee args attrs sinfoArgs => do
    let callee ← self callee
    let args ← list self args
    return callText callee args attrs sinfoArgs
  | .ite _ cond onTrue onFalse => do
    let cond ← self cond
    let onTrue ← braced self onTrue
    let onFalse ← braced self onFalse
    return "if " ++ cond ++ " " ++ onTrue ++ " else " ++ onFalse
  | .seq _ bs body => seq self bs body
  | .function node params body ret attrs => function self none ⟨node, params, body, ret, attrs⟩

/-- No kind lacks a handler. -/
def evaluator : Evaluator Int32 String :=
  fun _ => some expr

def print (e : Expr) : Act Int32 String :=
  evaluator.run e.fuel e

def printBinding (b : Binding) : Act Int32 String :=
  binding (evaluator.run b.value.fuel) b

def printBlock (b : Block) : Act Int32 String :=
  block (evaluator.run (b.fuelBefore fun _ => .spent)) b

def printFunction (name : Option String) (f : Function) : Act Int32 String :=
  function (evaluator.run f.body.fuel) name f

end DataflowIR.Printer
