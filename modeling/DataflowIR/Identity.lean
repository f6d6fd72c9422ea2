namespace DataflowIR

/-- What a variable is known by: two variables of one identity denote the same binding. The index
determines the identity; the hint is how it is printed. -/
structure Id where
  index : Nat
  hint : String
  deriving DecidableEq, Inhabited

/-- A table with at most one entry an identity, the latest entry first. -/
structure IdTable (α : Type) where
  entries : List (Id × α)

namespace IdTable

variable {α : Type}

def empty : IdTable α :=
  ⟨[]⟩

instance : Inhabited (IdTable α) := ⟨empty⟩

def get? (t : IdTable α) (id : Id) : Option α :=
  t.entries.lookup id

def erase (t : IdTable α) (id : Id) : IdTable α :=
  ⟨t.entries.filter fun e => !(e.1 == id)⟩

def insert (t : IdTable α) (id : Id) (a : α) : IdTable α :=
  ⟨(id, a) :: (t.erase id).entries⟩

/-- Give `id` the value `a`, or no value. -/
def set (t : IdTable α) (id : Id) : Option α → IdTable α
  | some a => t.insert id a
  | none => t.erase id

def size (t : IdTable α) : Nat :=
  t.entries.length

theorem lookup_filter_ne (entries : List (Id × α)) (id k : Id) :
    (entries.filter fun e => !(e.1 == id)).lookup k =
      if k = id then none else entries.lookup k := by
  induction entries with
  | nil => simp
  | cons e rest ih =>
    obtain ⟨j, a⟩ := e
    by_cases hj : j = id
    · subst hj
      by_cases hk : k = j
      · subst hk; simpa using ih
      · have hb : (k == j) = false := by simpa using hk
        simp [List.lookup_cons, hk, hb, ih]
    · by_cases hk : k = id
      · subst hk
        have hb : (k == j) = false := by simpa using Ne.symm hj
        simp [List.lookup_cons, hj, hb, ih]
      · simp [List.lookup_cons, hj, hk, ih]

@[simp] theorem get?_empty (k : Id) : (empty : IdTable α).get? k = none := rfl

theorem get?_erase (t : IdTable α) (id k : Id) :
    (t.erase id).get? k = if k = id then none else t.get? k :=
  lookup_filter_ne t.entries id k

theorem get?_insert (t : IdTable α) (id k : Id) (a : α) :
    (t.insert id a).get? k = if k = id then some a else t.get? k := by
  by_cases h : k = id
  · subst h; simp [get?, insert]
  · have hb : (k == id) = false := by simpa using h
    have he := get?_erase t id k
    simp only [get?, h, if_false] at he
    simp [get?, insert, List.lookup_cons, hb, he, h]

theorem get?_set (t : IdTable α) (id k : Id) (a : Option α) :
    (t.set id a).get? k = if k = id then a else t.get? k := by
  cases a with
  | none => exact get?_erase t id k
  | some a => exact get?_insert t id k a

end IdTable

end DataflowIR
