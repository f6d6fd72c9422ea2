import DataflowIR.Pass.ExplicitMemory
import DataflowIR.Pass.Functions
import DataflowIR.Pass.FusedMultiplyAdd

namespace DataflowIR

inductive Pass where
  /-- Only fills in missing struct info. -/
  | normalize
  | fusedMultiplyAdd
  | explicitMemory
  deriving DecidableEq, Inhabited

namespace Pass

def all : List Pass := [.normalize, .fusedMultiplyAdd, .explicitMemory]

def name : Pass → String
  | normalize => "normalize"
  | fusedMultiplyAdd => "fma-rewrite"
  | explicitMemory => "explicit-memory-rewrite"

def ofName? (name : String) : Option Pass :=
  all.find? fun p => p.name == name

def transformer : Pass → Transformer Unit
  | normalize => Transformer.walk
  | fusedMultiplyAdd => Transformer.fuseMultiplyAdd
  | explicitMemory => Transformer.makeMemoryExplicit

/-- The changed module, if the pass changed any function. -/
def apply (p : Pass) (m : Module) : Act World (Option Module) :=
  ExceptT.mk fun w =>
    let (r, s) := (m.transform p.transformer .standard Expr.fuel).exec (.new () .standard w)
    (r, s.world)

end Pass

/-- Passes to run, by their names, and whether to report the module before each. -/
structure Pipeline where
  passes : List String
  reportModules : Bool
  deriving DecidableEq, Inhabited

namespace Pipeline

def report (e : Event) : Act World Unit :=
  modify fun w => w.report e

def runPass (p : Pipeline) (name : String) (m : Module) : Act World (Option Module) := do
  if p.reportModules then report (.moduleBefore name m)
  report (.passBegun name)
  match Pass.ofName? name with
  | some pass => pass.apply m
  | none => Act.fail (.unknownPass name)

def runPasses (p : Pipeline) (changed : Bool) (m : Module) :
    List String → Act World (Option Module)
  | [] => return if changed then some m else none
  | name :: rest => do
    match ← p.runPass name m with
    | some m' => p.runPasses true m' rest
    | none => p.runPasses changed m rest

/-- The module after all passes, if any of them changed it; each gets what the one before left. -/
def run (p : Pipeline) (m : Module) : Act World (Option Module) :=
  p.runPasses false m p.passes

end Pipeline

end DataflowIR
