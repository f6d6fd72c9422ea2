import DataflowIR.Act
import DataflowIR.Build.Builder
import DataflowIR.Build.Remap

namespace DataflowIR

/-- `data` belongs to the client. -/
structure Session (σ : Type) where
  data : σ
  builder : Builder
  remap : Remap
  world : World

abbrev Build (σ α : Type) := Act (Session σ) α

namespace Session

variable {σ : Type}

def new (data : σ) (rules : Rules) (world : World) : Session σ :=
  ⟨data, .new rules, .empty, world⟩

def fresh : Build σ Nat :=
  modifyGet fun s => let (n, w) := s.world.fresh; (n, { s with world := w })

/-- The mark of a new node. -/
def freshMark (span : Option Span) : Build σ Mark :=
  return ⟨← fresh, span⟩

def report (e : Event) : Build σ Unit :=
  modify fun s => { s with world := s.world.report e }

def getBuilder : Build σ Builder :=
  return (← get).builder

def setBuilder (b : Builder) : Build σ Unit :=
  modify fun s => { s with builder := b }

def modifyData (f : σ → σ) : Build σ Unit :=
  modify fun s => { s with data := f s.data }

def beginBlock (kind : BlockKind) : Build σ Unit := do
  let b ← getBuilder
  report (.blockBegun b.depth kind)
  setBuilder (b.beginBlock kind)

/-- The finished innermost block, as a new node. -/
def endBlock : Build σ Block := do
  let (frame, b) ← Act.resume (← getBuilder).endBlock
  setBuilder b
  report (.blockEnded b.depth frame.bindings.length)
  return .mk (← freshMark none) frame.kind frame.bindings

def beginScope (params : List Var) : Build σ Unit := do
  setBuilder ((← getBuilder).beginScope params)

def endScope : Build σ Unit := do
  setBuilder (← Act.resume (← getBuilder).endScope)

/-- Fill in the struct info of a composite expression that has none; any other expression comes
back as the same node. -/
def normalize (e : Expr) : Build σ Expr := do
  match ← Act.resume ((← getBuilder).missingSinfo e) with
  | some s => return e.withSinfo (← fresh) s
  | none => return e

/-- Append a binding, whose value has its struct info already, to the innermost block. -/
def emitBinding (binding : Binding) : Build σ Unit := do
  let b ← getBuilder
  let b' ← Act.resume (b.push binding)
  report (.emitted b.depth binding)
  setBuilder b'

def freshId (hint : String) : Build σ Id :=
  return ⟨← fresh, hint⟩

def requestName (hint : String) : Build σ String := do
  let (name, b) := (← getBuilder).requestName hint
  setBuilder b
  return name

def freshVar (hint : String) (sinfo : Option StructInfo) (dataflow : Bool) : Build σ Var := do
  let name ← requestName (Builder.hintOrDefault hint dataflow)
  return .make (← freshMark none) (← freshId name) sinfo dataflow

def emitValue (value : Expr) (hint : String) (dataflow : Bool) : Build σ Var := do
  let value ← normalize value
  let v ← freshVar hint value.sinfo dataflow
  emitBinding (.bind (← freshMark none) v value)
  return v

/-- Bind the expression to a new variable, a dataflow variable in a dataflow block. -/
def emit (value : Expr) (hint : String) : Build σ Var := do
  let b ← getBuilder
  if b.frames.isEmpty then Act.fail .emitOutsideBlock
  emitValue value hint b.inDataflow

/-- Bind the expression to a new variable that is visible after the dataflow block. -/
def emitOutput (value : Expr) (hint : String) : Build σ Var := do
  if !(← getBuilder).inDataflow then Act.fail .outputOutsideDataflow
  emitValue value hint false

/-- Bind the expression, asserted to have the struct info, to a new variable. -/
def emitCast (value : Expr) (sinfo : StructInfo) (hint : String) : Build σ Var := do
  let b ← getBuilder
  if b.frames.isEmpty then Act.fail .castOutsideBlock
  let value ← normalize value
  let v ← freshVar hint (some sinfo) b.inDataflow
  emitBinding (.cast (← freshMark none) v value sinfo)
  return v

def lookup (v : Var) : Build σ (Option Expr) :=
  return (← getBuilder).lookup v

def openRemap : Build σ Unit :=
  modify fun s => { s with remap := s.remap.openScope }

def closeRemap : Build σ Unit := do
  match (← get).remap.closeScope? with
  | some r => modify fun s => { s with remap := r }
  | none => Act.fail .endRemapOutsideScope

/-- Let later uses of the variable `id` refer to `v` instead. -/
def setRemap (id : Id) (v : Var) : Build σ Unit := do
  report (.remapped id v)
  modify fun s => { s with remap := s.remap.insert id v }

def getRemap? (id : Id) : Build σ (Option Var) :=
  return (← get).remap.get? id

/-- The variable with the struct info, the same node when it has it already. -/
def retype (v : Var) (sinfo : Option StructInfo) : Build σ Var := do
  match sinfo with
  | some s => if v.sinfo = some s then return v else return v.withSinfo (← fresh) s
  | none => return v

/-- The end of the builder: blocks still under construction are reported. -/
def dropBuilder : Build σ Unit := do
  let depth := (← getBuilder).depth
  if depth ≠ 0 then report (.builderDropped depth)

end Session

end DataflowIR
