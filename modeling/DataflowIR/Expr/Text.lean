import DataflowIR.Expr.View
import DataflowIR.Text.Quoted

namespace DataflowIR

def Var.text (v : Var) : String :=
  "%" ++ v.hint

/-- A variable where it is defined. -/
def Var.defText (v : Var) : String :=
  match v.sinfo with
  | some s => v.text ++ ": " ++ s.text
  | none => v.text

def Leaf.text : Leaf → String
  | constant values [] elem =>
    "const(" ++ (values.head?.map Literal.text).getD "" ++ ", " ++ elem.text ++ ")"
  | constant _ dims elem =>
    "const(<" ++ String.intercalate "x" (dims.map toString) ++ "x" ++ elem.text ++ ">)"
  | runtimeShape => "runtime_dep_shape()"
  | externFunc symbol => "extern(\"" ++ symbol ++ "\")"
  | globalVar name => "@" ++ name
  | op name => name
  | str value => Text.quoted value
  | dtype value => "dtype(" ++ value.text ++ ")"

/-- A tuple of one field has a comma after it. -/
def tupleText : List String → String
  | [field] => "(" ++ field ++ ",)"
  | fields => Text.inParens fields

def callText (callee : String) (args : List String) (attrs : Option Attrs)
    (sinfoArgs : List StructInfo) : String :=
  let sinfoArgs := if sinfoArgs.isEmpty then []
    else ["sinfo_args=" ++ Text.inBrackets (sinfoArgs.map StructInfo.text)]
  let attrs := match attrs with
    | some a => if a.isEmpty then "" else " " ++ Attrs.text a
    | none => ""
  callee ++ Text.inParens (args ++ sinfoArgs) ++ attrs

/-- The first line of a function up to its body. -/
def functionHead (name : Option String) (params : List Var) (ret : StructInfo) (attrs : Attrs) :
    String :=
  let name := match name with
    | some name => " @" ++ name
    | none => ""
  let attrs := if attrs.isEmpty then "" else " attrs " ++ Attrs.text attrs
  "fn" ++ name ++ Text.inParens (params.map Var.defText) ++ " -> " ++ ret.text ++ attrs ++ " "

/-- Lines between braces; the closing brace is indented to `level`. -/
def bracedLines (level : Int) (lines : List String) : String :=
  "\x7b" ++ String.join (lines.map ("\n" ++ ·)) ++ "\n" ++ Text.spaces level ++ "\x7d"

/-- A dataflow block ends with the variables visible after it, if any. -/
def outputLines (level : Int) (vars : List Var) : List String :=
  let outputs := vars.filter fun v => !v.dataflow
  if outputs.isEmpty then []
  else [Text.spaces level ++ "output" ++ Text.inParens (outputs.map Var.text)]

mutual

/-- The printed form. A text that spans lines takes the level of the line it starts on; its further
lines are indented from there. -/
def Expr.textAt (level : Int) : Expr → String
  | .leaf _ content => content.text
  | .var v => v.text
  | .shape _ values => "shape" ++ Text.inParens (values.map Dim.text)
  | .prim _ value _ => "prim(" ++ value.text ++ ")"
  | .tuple _ fields => tupleText (Expr.textsAt level fields)
  | .item _ whole index => whole.textAt level ++ "[" ++ toString index ++ "]"
  | .call _ callee args attrs sinfoArgs =>
    callText (callee.textAt level) (Expr.textsAt level args) attrs sinfoArgs
  | .ite _ cond onTrue onFalse =>
    "if " ++ cond.textAt level ++ " " ++
      (if onTrue.isSeq then onTrue.textAt level
       else bracedLines level [Text.spaces (level + 1) ++ onTrue.textAt (level + 1)]) ++
      " else " ++
      (if onFalse.isSeq then onFalse.textAt level
       else bracedLines level [Text.spaces (level + 1) ++ onFalse.textAt (level + 1)])
  | .seq _ blocks body =>
    bracedLines level
      (Block.textsAt (level + 1) blocks ++
        [Text.spaces (level + 1) ++ body.textAt (level + 1)])
  | .function _ params body ret attrs =>
    functionHead none params ret attrs ++
      (if body.isSeq then body.textAt level
       else bracedLines level [Text.spaces (level + 1) ++ body.textAt (level + 1)])

def Expr.textsAt (level : Int) : List Expr → List String
  | [] => []
  | e :: es => e.textAt level :: Expr.textsAt level es

/-- A binding without indentation before it. -/
def Binding.textAt (level : Int) : Binding → String
  | .bind _ var value => var.defText ++ " = " ++ value.textAt level
  | .cast _ var value sinfo =>
    var.defText ++ " = match_cast(" ++ value.textAt level ++ ", " ++ sinfo.text ++ ")"

/-- One indented text a binding. -/
def Binding.linesAt (level : Int) : List Binding → List String
  | [] => []
  | b :: bs => (Text.spaces level ++ b.textAt level) :: Binding.linesAt level bs

def Block.textAt (level : Int) : Block → String
  | .mk _ .plain bindings => String.intercalate "\n" (Binding.linesAt level bindings)
  | .mk _ .dataflow bindings =>
    Text.spaces level ++ "dataflow " ++
      bracedLines level
        (Binding.linesAt (level + 1) bindings ++
          outputLines (level + 1) (bindings.map Binding.var))

/-- The texts of the blocks that hold a binding. -/
def Block.textsAt (level : Int) : List Block → List String
  | [] => []
  | .mk mark kind bindings :: bs =>
    let rest := Block.textsAt level bs
    if bindings.isEmpty then rest else Block.textAt level (.mk mark kind bindings) :: rest

end

def Expr.text (e : Expr) : String := e.textAt 0

def Binding.text (b : Binding) : String := b.textAt 0

def Block.text (b : Block) : String := b.textAt 0

/-- A function under a name, as in a module. -/
def Function.textAt (level : Int) (name : Option String) (f : Function) : String :=
  functionHead name f.params f.ret f.attrs ++
    (if f.body.isSeq then f.body.textAt level
     else bracedLines level [Text.spaces (level + 1) ++ f.body.textAt (level + 1)])

end DataflowIR
