import DataflowIR.Check.Lines
import Mathlib.Data.List.NodupEquivFin
import Mathlib.Data.List.Forall2

namespace DataflowIR.Check

/-- The lines that are looked for: without the blanks around them, and without blank ones. -/
def sought (lines : List String) : List String :=
  (lines.map Text.trim).filter fun line => line ≠ ""

/-- The lines of a text, blanks around it aside. -/
def trimmedLines (text : String) : List String :=
  Text.lines (Text.trim text)

/-- Each line occurs in a line of the output of its own, and these are in the order of the lines. -/
def Placeable (lines output : List String) : Prop :=
  ∃ place : Fin lines.length → Fin output.length,
    StrictMono place ∧ ∀ i, lines[i].toList <:+: output[place i].toList

/-- The parts occur in some of the lines, passed from the first to the last. -/
abbrev Places (parts lines : List (List Char)) : Prop :=
  List.SublistForall₂ (fun part line => part <:+: line) parts lines

private theorem exists_strictMono_iff {α β : Type} {R : α → β → Prop} {as : List α} {bs : List β} :
    (∃ place : Fin as.length → Fin bs.length,
        StrictMono place ∧ ∀ i, R (as.get i) (bs.get (place i))) ↔
      List.SublistForall₂ R as bs := by
  rw [List.sublistForall₂_iff]
  constructor
  · rintro ⟨place, hmono, hR⟩
    have hlen : (List.ofFn fun i => bs.get (place i)).length = as.length := List.length_ofFn
    refine ⟨List.ofFn fun i => bs.get (place i), ?_, ?_⟩
    · rw [List.forall₂_iff_get]
      refine ⟨hlen.symm, ?_⟩
      intro i hi _
      simpa using hR ⟨i, hi⟩
    · rw [List.sublist_iff_exists_fin_orderEmbedding_get_eq]
      refine ⟨(Fin.castOrderIso hlen).toOrderEmbedding.trans
        (OrderEmbedding.ofStrictMono place hmono), ?_⟩
      intro i
      simp only [List.get_ofFn]
      rfl
  · rintro ⟨chosen, hR, hsub⟩
    obtain ⟨hlen, hget⟩ := List.forall₂_iff_get.mp hR
    obtain ⟨f, hf⟩ := List.sublist_iff_exists_fin_orderEmbedding_get_eq.mp hsub
    refine ⟨fun i => f (i.cast hlen), ?_, ?_⟩
    · intro i j hij
      exact f.strictMono hij
    · intro i
      rw [← hf (i.cast hlen)]
      exact hget i i.isLt (hlen ▸ i.isLt)

private theorem placeable_iff {lines output : List String} :
    Placeable lines output ↔ Places (lines.map String.toList) (output.map String.toList) := by
  rw [Places, List.sublistForall₂_map_left_iff, List.sublistForall₂_map_right_iff,
    ← exists_strictMono_iff]
  rfl

namespace Places

variable {part line : List Char} {parts parts' lines : List (List Char)}

/-- The first of the parts occur where all do. -/
theorem of_append (h : Places (parts ++ parts') lines) : Places parts lines := by
  obtain ⟨chosen, hR, hsub⟩ := List.sublistForall₂_iff.mp h
  refine List.sublistForall₂_iff.mpr ⟨chosen.take parts.length, ?_, ?_⟩
  · have htake := List.forall₂_take parts.length hR
    rwa [List.take_left] at htake
  · exact (List.take_sublist _ _).trans hsub

private theorem of_cons (h : Places (part :: parts) lines) : Places parts lines := by
  obtain ⟨chosen, hR, hsub⟩ := List.sublistForall₂_iff.mp h
  refine List.sublistForall₂_iff.mpr ⟨chosen.drop 1, ?_, ?_⟩
  · exact List.forall₂_drop 1 hR
  · exact (List.drop_sublist _ _).trans hsub

/-- Nothing is lost by taking the first line in which the part occurs: whatever line was chosen for
it, those of the parts after it come later. -/
private theorem cons_iff_of_occurs (h : part <:+: line) :
    Places (part :: parts) (line :: lines) ↔ Places parts lines := by
  constructor
  · intro hp
    cases hp with
    | cons _ hlater => exact hlater
    | cons_right hlater => exact of_cons hlater
  · intro hp
    exact .cons h hp

private theorem cons_iff_of_not_occurs (h : ¬part <:+: line) :
    Places (part :: parts) (line :: lines) ↔ Places (part :: parts) lines := by
  constructor
  · intro hp
    cases hp with
    | cons hocc _ => exact absurd hocc h
    | cons_right hlater => exact hlater
  · intro hp
    exact .cons_right hp

end Places

theorem occursIn_iff {part line : List Char} : Text.occursIn part line = true ↔ part <:+: line := by
  induction line with
  | nil => simp [Text.occursIn]
  | cons c cs ih =>
    rw [List.infix_cons_iff, ← ih, Text.occursIn, Bool.or_eq_true, List.isPrefixOf_iff_prefix]

theorem places_of_afterOccurrence {part : List Char} {lines remaining : List (List Char)}
    (h : afterOccurrence part lines = some remaining) (parts : List (List Char)) :
    Places (part :: parts) lines ↔ Places parts remaining := by
  induction lines with
  | nil => cases h
  | cons line lines ih =>
    rw [afterOccurrence] at h
    by_cases hocc : Text.occursIn part line = true
    · rw [if_pos hocc] at h
      cases h
      exact Places.cons_iff_of_occurs (occursIn_iff.mp hocc)
    · rw [if_neg hocc] at h
      rw [Places.cons_iff_of_not_occurs (mt occursIn_iff.mpr hocc)]
      exact ih h

private theorem not_places_of_afterOccurrence {part : List Char} {lines : List (List Char)}
    (h : afterOccurrence part lines = none) (parts : List (List Char)) :
    ¬Places (part :: parts) lines := by
  induction lines with
  | nil => exact nofun
  | cons line lines ih =>
    rw [afterOccurrence] at h
    by_cases hocc : Text.occursIn part line = true
    · rw [if_pos hocc] at h
      cases h
    · rw [if_neg hocc] at h
      rw [Places.cons_iff_of_not_occurs (mt occursIn_iff.mpr hocc)]
      exact ih h

/-- The parts that are looked for, as characters. -/
def soughtChars (lines : List (List Char)) : List (List Char) :=
  (lines.map Text.trimChars).filter fun part => !part.isEmpty

theorem soughtChars_cons_of_blank {line : List Char} (h : (Text.trimChars line).isEmpty = true)
    (rest : List (List Char)) : soughtChars (line :: rest) = soughtChars rest := by
  simp [soughtChars, h]

theorem soughtChars_cons {line : List Char} (h : ¬(Text.trimChars line).isEmpty = true)
    (rest : List (List Char)) :
    soughtChars (line :: rest) = Text.trimChars line :: soughtChars rest := by
  simp [soughtChars, h]

private theorem Places.of_take {lines expected : List (List Char)} (k : Nat)
    (h : Places (soughtChars expected) lines) : Places (soughtChars (expected.take k)) lines := by
  have hsplit : soughtChars expected =
      soughtChars (expected.take k) ++ soughtChars (expected.drop k) := by
    rw [soughtChars, soughtChars, soughtChars, ← List.filter_append, ← List.map_append,
      List.take_append_drop]
  rw [hsplit] at h
  exact h.of_append

/-- By induction on the expected lines: the rest of them goes on with the lines after the first
occurrence of the one before. -/
private theorem places_of_firstMissing {expected : List (List Char)} {index : Nat}
    {lines : List (List Char)} (h : firstMissing index lines expected = none) :
    Places (soughtChars expected) lines := by
  induction expected generalizing index lines with
  | nil => exact .nil
  | cons line rest ih =>
    rw [firstMissing] at h
    by_cases hblank : (Text.trimChars line).isEmpty = true
    · rw [if_pos hblank] at h
      rw [soughtChars_cons_of_blank hblank]
      exact ih h
    · rw [if_neg hblank] at h
      cases hafter : afterOccurrence (Text.trimChars line) lines with
      | none => simp [hafter] at h
      | some remaining =>
        simp only [hafter] at h
        rw [soughtChars_cons hblank, places_of_afterOccurrence hafter]
        exact ih h

private theorem not_places_of_firstMissing {expected : List (List Char)} {index missing : Nat}
    {lines : List (List Char)} (h : firstMissing index lines expected = some missing) :
    ∃ k, missing = index + k ∧ k < expected.length ∧
      Places (soughtChars (expected.take k)) lines ∧
      ¬Places (soughtChars (expected.take (k + 1))) lines := by
  induction expected generalizing index lines with
  | nil => cases h
  | cons line rest ih =>
    rw [firstMissing] at h
    by_cases hblank : (Text.trimChars line).isEmpty = true
    · rw [if_pos hblank] at h
      obtain ⟨k, hk, hlt, hplaced, hmissing⟩ := ih h
      refine ⟨k + 1, by omega, Nat.succ_lt_succ hlt, ?_, ?_⟩
      · rwa [List.take_succ_cons, soughtChars_cons_of_blank hblank]
      · rwa [List.take_succ_cons, soughtChars_cons_of_blank hblank]
    · rw [if_neg hblank] at h
      cases hafter : afterOccurrence (Text.trimChars line) lines with
      | none =>
        have hindex : index = missing := by simpa [hafter] using h
        refine ⟨0, by omega, Nat.succ_pos _, .nil, ?_⟩
        rw [List.take_succ_cons, soughtChars_cons hblank]
        exact not_places_of_afterOccurrence hafter _
      | some remaining =>
        simp only [hafter] at h
        obtain ⟨k, hk, hlt, hplaced, hmissing⟩ := ih h
        refine ⟨k + 1, by omega, Nat.succ_lt_succ hlt, ?_, ?_⟩
        · rwa [List.take_succ_cons, soughtChars_cons hblank, places_of_afterOccurrence hafter]
        · rwa [List.take_succ_cons, soughtChars_cons hblank, places_of_afterOccurrence hafter]

private theorem trim_eq_empty_iff (line : String) :
    Text.trim line = "" ↔ (Text.trimChars line.toList).isEmpty = true := by
  rw [Text.trim, ← String.toList_inj, String.toList_ofList, List.isEmpty_iff]
  rfl

private theorem map_toList_sought (lines : List String) :
    (sought lines).map String.toList = soughtChars (lines.map String.toList) := by
  induction lines with
  | nil => rfl
  | cons line rest ih =>
    rw [List.map_cons]
    by_cases hblank : (Text.trimChars line.toList).isEmpty = true
    · have hempty : Text.trim line = "" := (trim_eq_empty_iff line).mpr hblank
      rw [soughtChars_cons_of_blank hblank, ← ih]
      simp [sought, hempty]
    · have hsome : Text.trim line ≠ "" := mt (trim_eq_empty_iff line).mp hblank
      have htrim : (Text.trim line).toList = Text.trimChars line.toList := String.toList_ofList
      rw [soughtChars_cons hblank, ← ih, ← htrim]
      simp [sought, hsome]

private theorem trimmedLines_eq (text : String) :
    trimmedLines text = (Text.linesFrom [] (Text.trimChars text.toList)).map String.ofList := by
  rw [trimmedLines, Text.lines, Text.trim, String.toList_ofList]

theorem map_toList_trimmedLines (text : String) :
    (trimmedLines text).map String.toList = Text.linesFrom [] (Text.trimChars text.toList) := by
  simp [trimmedLines_eq, Function.comp_def]

/-- The lines are marked as they are, with the mark behind that of the number. -/
private theorem markedLines_eq_set {lines : List String} {index : Nat} (h : index < lines.length) :
    LineFault.markedLines lines index = lines.set index (lines[index] ++ "   <== missing") := by
  apply List.ext_getElem
  · simp [LineFault.markedLines]
  · intro i hi hi'
    by_cases heq : i = index
    · subst heq
      simp [LineFault.markedLines]
    · simp [LineFault.markedLines, heq, List.getElem_set_ne (Ne.symm heq)]

private theorem message_notFound {lines : List String} {index : Nat} (h : index < lines.length)
    (caller : String) :
    (LineFault.notFound lines index).message caller =
      "A line is missing from the output:\n```" ++
        String.join ((lines.set index (lines[index] ++ "   <== missing")).map ("\n" ++ ·)) ++
        "\n```\nwhen called from " ++ caller := by
  rw [← markedLines_eq_set h]
  rfl

private theorem linesContain_of_none {actual expected : String}
    (h : firstMissing 0 ((trimmedLines actual).map String.toList)
      ((trimmedLines expected).map String.toList) = none) :
    linesContain actual expected = .ok () := by
  rw [map_toList_trimmedLines, map_toList_trimmedLines] at h
  simp only [linesContain, h]

private theorem linesContain_of_some {actual expected : String} {index : Nat}
    (h : firstMissing 0 ((trimmedLines actual).map String.toList)
      ((trimmedLines expected).map String.toList) = some index) :
    linesContain actual expected = .error (.notFound (trimmedLines expected) index) := by
  rw [map_toList_trimmedLines, map_toList_trimmedLines] at h
  simp only [linesContain, h, trimmedLines_eq]

/-- The check passes exactly if the lines that are looked for have a placement in the output. If it
fails, the line that the message marks is the first one up to which there is no placement. -/
theorem linesContain_iff_placeable (actual expected : String) :
    (linesContain actual expected = .ok () ↔
        Placeable (sought (trimmedLines expected)) (trimmedLines actual)) ∧
      ∀ fault, linesContain actual expected = .error fault →
        ∃ (index : Nat) (h : index < (trimmedLines expected).length),
          (∀ k ≤ index,
            Placeable (sought ((trimmedLines expected).take k)) (trimmedLines actual)) ∧
          ¬Placeable (sought ((trimmedLines expected).take (index + 1))) (trimmedLines actual) ∧
          fault = .notFound (trimmedLines expected) index ∧
          ∀ caller, fault.message caller =
            "A line is missing from the output:\n```" ++
              String.join (((trimmedLines expected).set index
                ((trimmedLines expected)[index] ++ "   <== missing")).map ("\n" ++ ·)) ++
              "\n```\nwhen called from " ++ caller := by
  have hnone := @linesContain_of_none actual expected
  have hsome := @linesContain_of_some actual expected
  generalize trimmedLines actual = output at *
  generalize trimmedLines expected = lines at *
  have hplaceable : ∀ k, Placeable (sought (lines.take k)) output ↔
      Places (soughtChars ((lines.map String.toList).take k)) (output.map String.toList) := by
    intro k
    rw [placeable_iff, map_toList_sought, List.map_take]
  have hall : Placeable (sought lines) output ↔
      Places (soughtChars (lines.map String.toList)) (output.map String.toList) := by
    rw [placeable_iff, map_toList_sought]
  cases hfirst : firstMissing 0 (output.map String.toList) (lines.map String.toList) with
  | none =>
    have hrun := hnone hfirst
    have hplaced := hall.mpr (places_of_firstMissing hfirst)
    refine ⟨⟨fun _ => hplaced, fun _ => hrun⟩, ?_⟩
    intro fault hfault
    rw [hrun] at hfault
    cases hfault
  | some missing =>
    have hrun := hsome hfirst
    obtain ⟨index, hindex, hlt, hplaced, hmissing⟩ := not_places_of_firstMissing hfirst
    rw [Nat.zero_add] at hindex
    subst hindex
    rw [List.length_map] at hlt
    have hnot : ¬Placeable (sought lines) output := by
      intro h
      exact hmissing (Places.of_take _ (hall.mp h))
    refine ⟨⟨?_, fun h => absurd h hnot⟩, ?_⟩
    · intro hok
      rw [hrun] at hok
      cases hok
    · intro fault hfault
      rw [hrun] at hfault
      cases hfault
      refine ⟨missing, hlt, ?_, (hplaceable _).not.mpr hmissing, rfl, ?_⟩
      · intro k hk
        have htake := Places.of_take k hplaced
        rw [List.take_take, Nat.min_eq_left hk] at htake
        exact (hplaceable k).mpr htake
      · exact message_notFound hlt

/-- One line of the output does not serve for two lines. -/
example : linesContain "x y" "x\ny" = .error (.notFound ["x", "y"] 1) := by
  rfl

end DataflowIR.Check
