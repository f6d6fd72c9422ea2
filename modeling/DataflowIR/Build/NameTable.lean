import DataflowIR.Dictionary

namespace DataflowIR

/-- How often each hint was requested. The first request for a hint gets the hint itself, a later
one the hint with the number of requests before it. -/
structure NameTable where
  counts : Dictionary Nat

namespace NameTable

def empty : NameTable := ⟨.empty⟩

instance : Inhabited NameTable := ⟨empty⟩

def count (t : NameTable) (hint : String) : Nat :=
  (t.counts.find? hint).getD 0

def nameOf (hint : String) (count : Nat) : String :=
  if count = 0 then hint else hint ++ toString count

def request (t : NameTable) (hint : String) : String × NameTable :=
  (nameOf hint (t.count hint), ⟨t.counts.insert hint (t.count hint + 1)⟩)

@[simp] theorem count_empty (hint : String) : empty.count hint = 0 := rfl

theorem count_request (t : NameTable) (hint k : String) :
    (t.request hint).2.count k = if k = hint then t.count hint + 1 else t.count k := by
  simp only [request, count, Dictionary.find?_insert]
  split <;> rfl

end NameTable

end DataflowIR
