import DataflowIR.Build.Session

namespace DataflowIR

/-- The builders in the order of their making, each with the number of its name table. -/
structure Workshop where
  builders : List (Nat × Builder)
  tables : Nat
  world : World

namespace Workshop

/-- One builder. -/
def new (rules : Rules) (world : World) : Workshop :=
  ⟨[(0, .new rules)], 1, world⟩

def get? (w : Workshop) (i : Nat) : Option Builder :=
  w.builders[i]?.map Prod.snd

/-- Add a builder with a name table of its own. -/
def add (w : Workshop) (rules : Rules) : Workshop :=
  { w with builders := w.builders ++ [(w.tables, .new rules)], tables := w.tables + 1 }

/-- Add a builder that shares the name table of builder `i`. -/
def addSharing (w : Workshop) (rules : Rules) (i : Nat) : Workshop :=
  match w.builders[i]? with
  | some (table, b) =>
    { w with builders := w.builders ++ [(table, { Builder.new rules with names := b.names })] }
  | none => w.add rules

/-- Put back builder `i`, and its name table into those that share it. -/
def set (w : Workshop) (i table : Nat) (b : Builder) : Workshop :=
  let shared := w.builders.map fun e =>
    if e.1 = table then (e.1, { e.2 with names := b.names }) else e
  { w with builders := shared.set i (table, b) }

/-- Run on builder `i`. -/
def runOn {α : Type} (w : Workshop) (i : Nat) (act : Build Unit α) :
    Option (Except Fault α × Workshop) :=
  w.builders[i]?.map fun (table, b) =>
    let (r, s) := act.exec ⟨(), b, .empty, w.world⟩
    (r, { w.set i table s.builder with world := s.world })

/-- Drop the last builder. -/
def dropLast (w : Workshop) : Workshop :=
  match w.runOn (w.builders.length - 1) Session.dropBuilder with
  | some (_, w') => { w' with builders := w'.builders.dropLast }
  | none => w

/-- What is reported when the builders are dropped in order. -/
def finish (w : Workshop) : World :=
  w.builders.foldl (fun world e =>
    if e.2.depth = 0 then world else world.report (.builderDropped e.2.depth)) w.world

end Workshop

end DataflowIR
