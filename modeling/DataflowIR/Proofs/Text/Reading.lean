import DataflowIR.Proofs.Text.Words
import Mathlib

namespace DataflowIR

/-- The dimensions differ at most in which variables they have of one name. -/
inductive Dim.Alike : Dim → Dim → Prop
  | int (value : Int) : Alike (int value) (int value)
  | sym {v w : SymVar} (h : v.name = w.name) : Alike (sym v) (sym w)
  | binary (op : DimOp) {lhs lhs' rhs rhs' : Dim} (hl : lhs.Alike lhs') (hr : rhs.Alike rhs') :
    Alike (binary op lhs rhs) (binary op lhs' rhs')

namespace Text

/-- An underscore or a letter. Beyond ASCII every character may count as one. -/
def startsName (c : Char) : Bool :=
  c == '_' || c.isAlpha || 0x80 ≤ c.toNat

def continuesName (c : Char) : Bool :=
  startsName c || c.isDigit

/-- A letter or an underscore, followed by letters, digits and underscores. -/
def isIdentifier (name : String) : Bool :=
  match name.toList with
  | [] => false
  | c :: cs => startsName c && cs.all continuesName

/-- Neither a blank nor a parenthesis. -/
def isSolid (c : Char) : Bool :=
  c != ' ' && c != '(' && c != ')'

/-- Characters of one piece, at least one. -/
structure IsWord (cs : List Char) : Prop where
  ne_nil : cs ≠ []
  solid : ∀ c ∈ cs, isSolid c = true

/-- What may follow an operand. -/
def Stops (rest : List Char) : Prop :=
  ∀ c ∈ rest.head?, c = ' ' ∨ c = ')'

/-- What may follow a text. -/
def Ends (rest : List Char) : Prop :=
  ∀ c ∈ rest.head?, c = ')'

theorem Ends.stops {rest : List Char} (h : Ends rest) : Stops rest := by
  intro c hc
  exact .inr (h c hc)

private theorem ends_nil : Ends [] := nofun

private theorem ends_close (rest : List Char) : Ends (')' :: rest) := by
  intro c hc
  simpa using hc.symm

theorem stops_blank (rest : List Char) : Stops (' ' :: rest) := by
  intro c hc
  exact .inl (by simpa using hc.symm)

private theorem not_stops_solid {c : Char} (h : isSolid c = true) (rest : List Char) :
    ¬Stops (c :: rest) := by
  intro hs
  rcases hs c rfl with rfl | rfl <;> exact absurd h (by decide)

/-- Two words are the same if texts that begin with them are. -/
theorem IsWord.append_inj {word word' rest rest' : List Char} (hw : IsWord word)
    (hw' : IsWord word') (hr : Stops rest) (hr' : Stops rest')
    (h : word ++ rest = word' ++ rest') : word = word' ∧ rest = rest' := by
  rcases List.append_eq_append_iff.mp h with ⟨more, rfl, rfl⟩ | ⟨more, rfl, rfl⟩
  · cases more with
    | nil => simp
    | cons c more =>
      have hc : isSolid c = true := hw'.solid c (by simp)
      exact absurd hr (not_stops_solid hc _)
  · cases more with
    | nil => simp
    | cons c more =>
      have hc : isSolid c = true := hw.solid c (by simp)
      exact absurd hr' (not_stops_solid hc _)

theorem IsWord.append_ne_paren {word : List Char} (hw : IsWord word) (rest rest' : List Char) :
    word ++ rest ≠ '(' :: rest' := by
  intro h
  cases word with
  | nil => exact hw.ne_nil rfl
  | cons c word =>
    have hc : isSolid c = true := hw.solid c (by simp)
    rw [(List.cons.inj h).1] at hc
    exact absurd hc (by decide)

end Text

open Text

private theorem DimOp.isWord_symbol (op : DimOp) : IsWord op.symbol.toList := by
  cases op <;> exact ⟨by simp [symbol], by simp [symbol, isSolid]⟩

private theorem DimOp.symbol_injective {op op' : DimOp} (h : op.symbol.toList = op'.symbol.toList) :
    op = op' := by
  cases op <;> cases op' <;> first | rfl | simp [symbol] at h

namespace Text

/-- A class of characters to which neither the blank nor a parenthesis belongs. -/
theorem isSolid_of_class {p : Char → Bool} (hblank : p ' ' = false) (hopen : p '(' = false)
    (hclose : p ')' = false) {c : Char} (h : p c = true) : isSolid c = true := by
  by_contra hc
  have hcases : c = ' ' ∨ c = '(' ∨ c = ')' := by
    simp only [isSolid, Bool.and_eq_true, bne_iff_ne, ne_eq] at hc
    tauto
  rcases hcases with rfl | rfl | rfl <;> simp_all

theorem isDigit_of_mem_toDigits {n : Nat} {c : Char} (h : c ∈ Nat.toDigits 10 n) :
    c.isDigit = true := by
  exact Nat.isDigit_of_mem_toDigits (by decide) (by decide) h

/-- The text of a number begins with a digit or the sign. -/
private theorem exists_of_toString (value : Int) :
    ∃ c cs, (toString value).toList = c :: cs ∧ (c = '-' ∨ c.isDigit = true) ∧
      ∀ d ∈ cs, d.isDigit = true := by
  have hdigits : ∀ n, ∃ c cs, Nat.toDigits 10 n = c :: cs := by
    intro n
    exact List.exists_cons_of_length_pos Nat.length_toDigits_pos
  cases value with
  | ofNat n =>
    obtain ⟨c, cs, hcs⟩ := hdigits n
    refine ⟨c, cs, (toList_toString_ofNat n).trans hcs, .inr ?_, ?_⟩
    · exact isDigit_of_mem_toDigits (n := n) (by simp [hcs])
    · intro d hd
      exact isDigit_of_mem_toDigits (n := n) (by simp [hcs, hd])
  | negSucc n =>
    refine ⟨'-', _, toList_toString_negSucc n, .inl rfl, ?_⟩
    intro d hd
    exact isDigit_of_mem_toDigits hd

private theorem isWord_toString (value : Int) : IsWord (toString value).toList := by
  obtain ⟨c, cs, htext, hc, hcs⟩ := exists_of_toString value
  rw [htext]
  refine ⟨List.cons_ne_nil c cs, ?_⟩
  have hdigit : ∀ {d : Char}, d.isDigit = true → isSolid d = true := fun h =>
    isSolid_of_class (by decide) (by decide) (by decide) h
  intro d hd
  rcases List.mem_cons.mp hd with rfl | hd
  · rcases hc with rfl | hc
    · decide
    · exact hdigit hc
  · exact hdigit (hcs d hd)

private theorem exists_of_isIdentifier {name : String} (h : isIdentifier name = true) :
    ∃ c cs, name.toList = c :: cs ∧ startsName c = true ∧
      ∀ d ∈ cs, continuesName d = true := by
  unfold isIdentifier at h
  cases hname : name.toList with
  | nil => simp [hname] at h
  | cons c cs =>
    simp only [hname, Bool.and_eq_true, List.all_eq_true] at h
    exact ⟨c, cs, rfl, h.1, h.2⟩

private theorem isWord_of_isIdentifier {name : String} (h : isIdentifier name = true) :
    IsWord name.toList := by
  obtain ⟨c, cs, hname, hc, hcs⟩ := exists_of_isIdentifier h
  rw [hname]
  refine ⟨List.cons_ne_nil c cs, ?_⟩
  intro d hd
  rcases List.mem_cons.mp hd with rfl | hd
  · exact isSolid_of_class (by decide) (by decide) (by decide) hc
  · exact isSolid_of_class (by decide) (by decide) (by decide) (hcs d hd)

private theorem startsName_of_isDigit {c : Char} (h : c.isDigit = true) : startsName c = false := by
  have hbounds : 48 ≤ c.toNat ∧ c.toNat ≤ 57 := by
    simpa [Char.isDigit, UInt32.le_iff_toNat_le] using h
  have hscore : c ≠ '_' := by
    rintro rfl
    exact absurd h (by decide)
  have halpha : c.isAlpha = false := by
    have hupper : 'A'.val.toNat = 65 := rfl
    have hlower : 'a'.val.toNat = 97 := rfl
    have htoNat : c.val.toNat = c.toNat := rfl
    simp only [Char.isAlpha, Char.isUpper, Char.isLower, Bool.or_eq_false_iff,
      Bool.and_eq_false_iff, decide_eq_false_iff_not, ge_iff_le, UInt32.le_iff_toNat_le, htoNat]
    omega
  simp [startsName, hscore, halpha]
  omega

private theorem ne_toString_of_isIdentifier {name : String} (h : isIdentifier name = true)
    (value : Int) :
    name.toList ≠ (toString value).toList := by
  intro heq
  obtain ⟨c, cs, hname, hc, -⟩ := exists_of_isIdentifier h
  obtain ⟨d, ds, hvalue, hd, -⟩ := exists_of_toString value
  rw [hname, hvalue] at heq
  rw [(List.cons.inj heq).1] at hc
  rcases hd with rfl | hd
  · exact absurd hc (by decide)
  · rw [startsName_of_isDigit hd] at hc
    cases hc

end Text

namespace Dim

/-- The variables have names that are identifiers. -/
def Named (d : Dim) : Prop :=
  ∀ v ∈ d.symbols, isIdentifier v.name = true

theorem Named.binary {op : DimOp} {lhs rhs : Dim} (h : (binary op lhs rhs).Named) :
    lhs.Named ∧ rhs.Named := by
  constructor
  · intro v hv
    exact h v (List.mem_append_left _ hv)
  · intro v hv
    exact h v (List.mem_append_right _ hv)

def operandChars (d : Dim) : List Char :=
  (text.operand d.isCompound d.text).toList

theorem toList_text_binary (op : DimOp) (lhs rhs : Dim) :
    (binary op lhs rhs).text.toList =
      lhs.operandChars ++ ' ' :: (op.symbol.toList ++ ' ' :: rhs.operandChars) := by
  simp [text, operandChars]

theorem operandChars_of_simple {d : Dim} (h : d.isCompound = false) :
    d.operandChars = d.text.toList := by
  simp [operandChars, text.operand, h]

theorem operandChars_of_compound {d : Dim} (h : d.isCompound = true) :
    d.operandChars = '(' :: (d.text.toList ++ [')']) := by
  simp [operandChars, text.operand, h]

theorem isWord_text {d : Dim} (hd : d.Named) (h : d.isCompound = false) :
    IsWord d.text.toList := by
  cases d with
  | int value => exact isWord_toString value
  | sym v => exact isWord_of_isIdentifier (hd v (by simp [symbols]))
  | binary op lhs rhs => cases h

/-- Simple dimensions of the same text. -/
private theorem alike_of_simple {a b : Dim} (ha : a.Named) (hb : b.Named)
    (hsa : a.isCompound = false)
    (hsb : b.isCompound = false) (h : a.text.toList = b.text.toList) : a.Alike b := by
  cases a with
  | int value =>
    cases b with
    | int value' =>
      have heq : value = value' := Int.repr_inj.mp (String.toList_injective h)
      exact heq ▸ .int value
    | sym w => exact absurd h.symm (ne_toString_of_isIdentifier (hb w (by simp [symbols])) value)
    | binary op lhs rhs => cases hsb
  | sym v =>
    cases b with
    | int value' => exact absurd h (ne_toString_of_isIdentifier (ha v (by simp [symbols])) value')
    | sym w => exact .sym (String.toList_injective h)
    | binary op lhs rhs => cases hsb
  | binary op lhs rhs => cases hsa

/-- Operands are read one way if their texts are: one in parentheses up to the closing one. -/
private theorem operandChars_append_inj {a b : Dim} (ha : a.Named) (hb : b.Named)
    (htext : ∀ {rest rest'}, Ends rest → Ends rest' →
      a.text.toList ++ rest = b.text.toList ++ rest' → a.Alike b ∧ rest = rest')
    {rest rest' : List Char} (hr : Stops rest) (hr' : Stops rest')
    (h : a.operandChars ++ rest = b.operandChars ++ rest') : a.Alike b ∧ rest = rest' := by
  cases hca : a.isCompound with
  | false =>
    have hwa := isWord_text ha hca
    rw [operandChars_of_simple hca] at h
    cases hcb : b.isCompound with
    | false =>
      rw [operandChars_of_simple hcb] at h
      obtain ⟨hab, hrest⟩ := hwa.append_inj (isWord_text hb hcb) hr hr' h
      exact ⟨alike_of_simple ha hb hca hcb hab, hrest⟩
    | true =>
      rw [operandChars_of_compound hcb] at h
      exact absurd h (hwa.append_ne_paren _ _)
  | true =>
    rw [operandChars_of_compound hca] at h
    cases hcb : b.isCompound with
    | false =>
      rw [operandChars_of_simple hcb] at h
      exact absurd h.symm ((isWord_text hb hcb).append_ne_paren _ _)
    | true =>
      rw [operandChars_of_compound hcb] at h
      have hinner : a.text.toList ++ ')' :: rest = b.text.toList ++ ')' :: rest' := by
        simpa using h
      obtain ⟨hab, hrest⟩ := htext (ends_close rest) (ends_close rest') hinner
      exact ⟨hab, (List.cons.inj hrest).2⟩

/-- What begins with the text of an operation goes on after its first operand with a blank. -/
private theorem simple_ne_binary {a : Dim} (ha : a.Named) (hsa : a.isCompound = false) {op : DimOp}
    {lhs rhs : Dim} (hb : (binary op lhs rhs).Named) {rest : List Char} (hr : Ends rest)
    (rest' : List Char) :
    a.text.toList ++ rest ≠ (binary op lhs rhs).text.toList ++ rest' := by
  intro h
  have hwa := isWord_text ha hsa
  rw [toList_text_binary, List.append_assoc] at h
  cases hcl : lhs.isCompound with
  | false =>
    rw [operandChars_of_simple hcl] at h
    obtain ⟨-, hrest⟩ := hwa.append_inj (isWord_text hb.binary.1 hcl) hr.stops (stops_blank _) h
    have hblank : ' ' = ')' := hr ' ' (by rw [hrest]; rfl)
    exact absurd hblank (by decide)
  | true =>
    rw [operandChars_of_compound hcl] at h
    exact hwa.append_ne_paren _ _ h

private theorem text_append_inj_of_simple {a b : Dim} (ha : a.Named) (hb : b.Named)
    (hsa : a.isCompound = false) {rest rest' : List Char} (hr : Ends rest) (hr' : Ends rest')
    (h : a.text.toList ++ rest = b.text.toList ++ rest') : a.Alike b ∧ rest = rest' := by
  cases b with
  | int | sym =>
    obtain ⟨hab, hrest⟩ := (isWord_text ha hsa).append_inj (isWord_text hb rfl)
      hr.stops hr'.stops h
    exact ⟨alike_of_simple ha hb hsa rfl hab, hrest⟩
  | binary op lhs rhs => exact absurd h (simple_ne_binary ha hsa hb hr rest')

/-- By induction on the first dimension, for all that may follow: equal beginnings come from
dimensions that are alike. -/
private theorem text_append_inj {a b : Dim} (ha : a.Named) (hb : b.Named) {rest rest' : List Char}
    (hr : Ends rest) (hr' : Ends rest') (h : a.text.toList ++ rest = b.text.toList ++ rest') :
    a.Alike b ∧ rest = rest' := by
  induction a generalizing b rest rest' with
  | int | sym => exact text_append_inj_of_simple ha hb rfl hr hr' h
  | binary op lhs rhs ihl ihr =>
    cases b with
    | int | sym => exact absurd h.symm (simple_ne_binary hb rfl ha hr' rest)
    | binary op' lhs' rhs' =>
      rw [toList_text_binary, toList_text_binary] at h
      simp only [List.append_assoc, List.cons_append] at h
      obtain ⟨hl, h⟩ := operandChars_append_inj ha.binary.1 hb.binary.1
        (ihl ha.binary.1 hb.binary.1) (stops_blank _) (stops_blank _) h
      obtain ⟨hop, h⟩ := op.isWord_symbol.append_inj op'.isWord_symbol (stops_blank _)
        (stops_blank _) (List.cons.inj h).2
      obtain ⟨hrhs, hrest⟩ := operandChars_append_inj ha.binary.2 hb.binary.2
        (ihr ha.binary.2 hb.binary.2) hr.stops hr'.stops (List.cons.inj h).2
      obtain rfl := DimOp.symbol_injective hop
      exact ⟨.binary op hl hrhs, hrest⟩

/-- Dimensions whose variables have identifiers for names have the same text only if they are the
same up to which of the variables of one name stands where. -/
theorem text_unambiguous {a b : Dim} (ha : ∀ v ∈ a.symbols, isIdentifier v.name = true)
    (hb : ∀ v ∈ b.symbols, isIdentifier v.name = true) (h : a.text = b.text) : a.Alike b := by
  have hchars : a.text.toList ++ [] = b.text.toList ++ [] := by rw [h]
  exact (text_append_inj ha hb ends_nil ends_nil hchars).1

/-- Variables of one name, a negative literal and the operator of two characters. -/
theorem text_unambiguous_negative :
    let n (index : Nat) : Dim := .sym ⟨index, "n_1", .int64⟩
    let d (index : Nat) : Dim :=
      .binary .floorDiv (.binary .sub (n index) (.int (-1))) (.binary .mul (n 0) (n index))
    (∀ v ∈ (d 1).symbols, isIdentifier v.name = true) ∧
      (∀ v ∈ (d 2).symbols, isIdentifier v.name = true) ∧
      (d 1).text = "(n_1 - -1) // (n_1 * n_1)" ∧ (d 1).text = (d 2).text ∧ (d 1).Alike (d 2) := by
  intro n d
  have h1 : ∀ v ∈ (d 1).symbols, isIdentifier v.name = true := by decide
  have h2 : ∀ v ∈ (d 2).symbols, isIdentifier v.name = true := by decide
  exact ⟨h1, h2, rfl, rfl, text_unambiguous h1 h2 rfl⟩

end Dim

end DataflowIR
