import DataflowIR.Expr.Text

namespace DataflowIR

structure Module where
  functions : Dictionary (GlobalVar × Function)
  /-- A function stands under the name of its global variable. -/
  named : ∀ e ∈ functions.entries, e.2.1.name = e.1

namespace Module

def empty : Module := ⟨.empty, by simp [Dictionary.empty]⟩

instance : Inhabited Module := ⟨empty⟩

/-- Put the function under the name of the global variable, in place of an earlier one. -/
def insert (m : Module) (g : GlobalVar) (f : Function) : Module :=
  ⟨m.functions.insert g.name (g, f), fun e he => by
    rcases Dictionary.mem_insertEntry he with rfl | he
    · rfl
    · exact m.named e he⟩

/-- Put the function under `name`, with a new global variable for it. -/
def add (m : Module) (tag : Nat) (name : String) (f : Function) : GlobalVar × Module :=
  let g : GlobalVar := ⟨⟨⟨tag, none⟩, none⟩, name⟩
  (g, m.insert g f)

def get? (m : Module) (name : String) : Option Function :=
  (m.functions.find? name).map Prod.snd

def globalVar? (m : Module) (name : String) : Option GlobalVar :=
  (m.functions.find? name).map Prod.fst

def contains (m : Module) (name : String) : Bool :=
  m.functions.contains name

def names (m : Module) : List String :=
  m.functions.keys

/-- The functions with their global variables, in the order of their names. -/
def toList (m : Module) : List (GlobalVar × Function) :=
  m.functions.entries.map Prod.snd

def size (m : Module) : Nat :=
  m.functions.size

def text (m : Module) : String :=
  "module \x7b\n" ++
    String.join (m.toList.map fun e =>
      Text.spaces 1 ++ e.2.textAt 1 (some e.1.name) ++ "\n") ++
    "\x7d"

end Module

end DataflowIR
