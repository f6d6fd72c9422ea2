namespace DataflowIR

/-- A finite map from names, kept in the order of the names, one entry a name. -/
structure Dictionary (α : Type) where
  entries : List (String × α)
  sorted : entries.Pairwise fun a b => a.1 < b.1

namespace Dictionary

variable {α : Type}

def empty : Dictionary α :=
  ⟨[], .nil⟩

instance : Inhabited (Dictionary α) := ⟨empty⟩

def insertEntry (key : String) (value : α) : List (String × α) → List (String × α)
  | [] => [(key, value)]
  | (k, v) :: rest =>
    if key = k then (key, value) :: rest
    else if key < k then (key, value) :: (k, v) :: rest
    else (k, v) :: insertEntry key value rest

theorem mem_insertEntry {key : String} {value : α} {entries : List (String × α)}
    {e : String × α} (h : e ∈ insertEntry key value entries) :
    e = (key, value) ∨ e ∈ entries := by
  induction entries with
  | nil => simpa [insertEntry] using h
  | cons x rest ih =>
    simp only [insertEntry] at h
    split at h
    · rcases List.mem_cons.mp h with h | h
      · exact .inl h
      · exact .inr (List.mem_cons_of_mem _ h)
    · split at h
      · rcases List.mem_cons.mp h with h | h
        · exact .inl h
        · exact .inr h
      · rcases List.mem_cons.mp h with h | h
        · exact .inr (h ▸ List.mem_cons_self)
        · exact (ih h).imp_right (List.mem_cons_of_mem _)

theorem insertEntry_sorted (key : String) (value : α) {entries : List (String × α)}
    (h : entries.Pairwise fun a b => a.1 < b.1) :
    (insertEntry key value entries).Pairwise fun a b => a.1 < b.1 := by
  induction entries with
  | nil => simp [insertEntry]
  | cons x rest ih =>
    obtain ⟨k, v⟩ := x
    obtain ⟨hk, hrest⟩ := List.pairwise_cons.mp h
    simp only [insertEntry]
    split
    · next heq => exact List.pairwise_cons.mpr ⟨heq ▸ hk, hrest⟩
    · next hne =>
      split
      · next hlt =>
        refine List.pairwise_cons.mpr ⟨fun e he => ?_, h⟩
        rcases List.mem_cons.mp he with rfl | he
        · exact hlt
        · exact Std.lt_trans hlt (hk e he)
      · next hnlt =>
        refine List.pairwise_cons.mpr ⟨fun e he => ?_, ih hrest⟩
        rcases mem_insertEntry he with rfl | he
        · exact Std.lt_of_le_of_ne hnlt (Ne.symm hne)
        · exact hk e he

/-- A value put under a key that is there takes the place of the old one. -/
theorem insertEntry_append (key : String) (old value : α) {before after : List (String × α)}
    (h : (before ++ (key, old) :: after).Pairwise fun a b => a.1 < b.1) :
    insertEntry key value (before ++ (key, old) :: after) = before ++ (key, value) :: after := by
  induction before with
  | nil => simp [insertEntry]
  | cons x rest ih =>
    obtain ⟨k, v⟩ := x
    obtain ⟨hk, hrest⟩ := List.pairwise_cons.mp h
    have hlt : k < key := hk (key, old) (by simp)
    have hne : key ≠ k := fun he => Std.lt_irrefl (he ▸ hlt)
    have hnlt : ¬key < k := fun hgt => Std.lt_irrefl (Std.lt_trans hlt hgt)
    simp only [List.cons_append, insertEntry, if_neg hne, if_neg hnlt, ih hrest]

def insert (d : Dictionary α) (key : String) (value : α) : Dictionary α :=
  ⟨insertEntry key value d.entries, insertEntry_sorted key value d.sorted⟩

def singleton (key : String) (value : α) : Dictionary α :=
  empty.insert key value

def ofList (entries : List (String × α)) : Dictionary α :=
  entries.foldl (fun d e => d.insert e.1 e.2) empty

def find? (d : Dictionary α) (key : String) : Option α :=
  d.entries.lookup key

def contains (d : Dictionary α) (key : String) : Bool :=
  d.entries.any (·.1 == key)

def keys (d : Dictionary α) : List String :=
  d.entries.map Prod.fst

def size (d : Dictionary α) : Nat :=
  d.entries.length

def isEmpty (d : Dictionary α) : Bool :=
  d.entries.isEmpty

instance [BEq α] : BEq (Dictionary α) := ⟨fun a b => a.entries == b.entries⟩

theorem lookup_insertEntry (key : String) (value : α) (entries : List (String × α))
    (k : String) :
    (insertEntry key value entries).lookup k =
      if k = key then some value else entries.lookup k := by
  induction entries with
  | nil =>
    by_cases h : k = key
    · simp [insertEntry, h]
    · simp [insertEntry, List.lookup_cons, h, beq_false_of_ne h]
  | cons x rest ih =>
    obtain ⟨k', v⟩ := x
    simp only [insertEntry]
    by_cases hk : k = key
    · subst hk
      split
      · simp
      · next hne =>
        split
        · simp
        · simp [List.lookup_cons, ih, beq_false_of_ne hne]
    · have hb := beq_false_of_ne hk
      split
      · next heq => subst heq; simp [List.lookup_cons, hb]
      · split
        · simp [List.lookup_cons, hb]
        · simp [List.lookup_cons, ih, hk]

@[simp] theorem find?_empty (k : String) : (empty : Dictionary α).find? k = none := rfl

theorem find?_insert (d : Dictionary α) (key : String) (value : α) (k : String) :
    (d.insert key value).find? k = if k = key then some value else d.find? k :=
  lookup_insertEntry key value d.entries k

end Dictionary

end DataflowIR
