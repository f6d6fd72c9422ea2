import DataflowIR.Expr.Basic

namespace DataflowIR

/-- A change of the table: the identity and the replacement it had before. -/
abbrev RemapChange := Id × Option Var

/-- Replacement variables by the identity of the variable replaced. Scopes have the innermost first,
and the changes of a scope the latest first. -/
structure Remap where
  table : IdTable Var
  scopes : List (List RemapChange)

namespace Remap

def empty : Remap := ⟨.empty, []⟩

instance : Inhabited Remap := ⟨empty⟩

def get? (r : Remap) (id : Id) : Option Var :=
  r.table.get? id

def size (r : Remap) : Nat :=
  r.table.size

def insert (r : Remap) (id : Id) (v : Var) : Remap :=
  { table := r.table.insert id v
    scopes :=
      match r.scopes with
      | changes :: rest => ((id, r.get? id) :: changes) :: rest
      | [] => [] }

def openScope (r : Remap) : Remap :=
  { r with scopes := [] :: r.scopes }

/-- Undo changes, the latest first. -/
def undo (t : IdTable Var) (changes : List RemapChange) : IdTable Var :=
  changes.foldl (fun t c => t.set c.1 c.2) t

/-- Without an open scope there is nothing to close. -/
def closeScope? (r : Remap) : Option Remap :=
  match r.scopes with
  | changes :: rest => some ⟨undo r.table changes, rest⟩
  | [] => none

end Remap

end DataflowIR
