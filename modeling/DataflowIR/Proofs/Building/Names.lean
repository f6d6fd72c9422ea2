import DataflowIR.Proofs.Building.Exchanges
import Mathlib.Data.List.Nodup

namespace DataflowIR

/-- Digits without the last of them are the digits of the quotient. -/
private theorem digits_eq_append {n : Nat} (h : 10 ≤ n) :
    Nat.toDigits 10 n = Nat.toDigits 10 (n / 10) ++ [(n % 10).digitChar] :=
  Nat.toDigits_of_base_le (by decide) h

/-- By induction on `k`: both sides lose their last digit. -/
private theorem exists_digits_of_append {as : List Char} (has : as ≠ []) {k n : Nat}
    (h : as ++ Nat.toDigits 10 k = Nat.toDigits 10 n) :
    ∃ j, j ≠ 0 ∧ j ≤ n ∧ as = Nat.toDigits 10 j := by
  induction k using Nat.strongRecOn generalizing n with
  | ind k ih =>
    have hn : 10 ≤ n := by
      by_contra hlt
      have hlen := congrArg List.length h
      rw [Nat.toDigits_of_lt_base (Nat.lt_of_not_le hlt), List.length_append,
        List.length_singleton] at hlen
      have hk : 0 < (Nat.toDigits 10 k).length := Nat.length_toDigits_pos
      exact has (List.length_eq_zero_iff.mp (by omega))
    rw [digits_eq_append hn] at h
    by_cases hk : k < 10
    · rw [Nat.toDigits_of_lt_base hk] at h
      obtain ⟨rfl, -⟩ := List.append_inj' h rfl
      exact ⟨n / 10, by omega, Nat.div_le_self _ _, rfl⟩
    · rw [digits_eq_append (Nat.le_of_not_lt hk), ← List.append_assoc] at h
      obtain ⟨hq, -⟩ := List.append_inj' h rfl
      obtain ⟨j, hj, hle, he⟩ := ih (k / 10) (by omega) hq
      exact ⟨j, hj, hle.trans (Nat.div_le_self _ _), he⟩

private theorem append_toString_eq {hint hint' : String} {n : Nat} {as : List Char}
    (h : hint'.toList = hint.toList ++ as) (has : as = Nat.toDigits 10 n) :
    hint' = hint ++ toString n := by
  apply String.toList_injective
  rw [h, has, String.toList_append, Nat.toString_eq_repr, Nat.toList_repr]

private theorem digits_injective {m n : Nat} (h : Nat.toDigits 10 m = Nat.toDigits 10 n) :
    m = n := by
  rw [← Nat.ofDigitChars_ten_toDigits (n := m), h, Nat.ofDigitChars_ten_toDigits]

/-- Names made from two hints are the same only if one of the hints is made from the other. -/
private theorem NameTable.nameOf_eq {hint hint' : String} {n n' : Nat}
    (h : nameOf hint n = nameOf hint' n') :
    (hint = hint' ∧ n = n') ∨ (∃ j, j ≠ 0 ∧ j ≤ n ∧ hint' = hint ++ toString j) ∨
      ∃ j, j ≠ 0 ∧ j ≤ n' ∧ hint = hint' ++ toString j := by
  unfold nameOf at h
  split at h <;> split at h
  · next hn hn' => exact .inl ⟨h, hn.trans hn'.symm⟩
  · next hn hn' => exact .inr (.inr ⟨n', hn', le_refl _, h⟩)
  · next hn hn' => exact .inr (.inl ⟨n, hn, le_refl _, h.symm⟩)
  · have hl := congrArg String.toList h
    simp only [String.toList_append, Nat.toString_eq_repr, Nat.toList_repr] at hl
    rcases List.append_eq_append_iff.mp hl with ⟨as, hs, hd⟩ | ⟨as, hs, hd⟩
    · rcases eq_or_ne as [] with rfl | has
      · rw [List.append_nil] at hs
        exact .inl ⟨(String.toList_injective hs).symm, digits_injective hd⟩
      · obtain ⟨j, hj, hle, he⟩ := exists_digits_of_append has hd.symm
        exact .inr (.inl ⟨j, hj, hle, append_toString_eq hs he⟩)
    · rcases eq_or_ne as [] with rfl | has
      · rw [List.append_nil] at hs
        exact .inl ⟨String.toList_injective hs, (digits_injective hd).symm⟩
      · obtain ⟨j, hj, hle, he⟩ := exists_digits_of_append has hd.symm
        exact .inr (.inr ⟨j, hj, hle, append_toString_eq hs he⟩)

namespace Draw

def hints (draws : List Draw) : List String :=
  draws.map Draw.hint

def names (draws : List Draw) : List String :=
  draws.map Draw.name

/-- Each name is the one for its hint and the number of times that hint was given before. -/
inductive Numbered : List Draw → Prop
  | nil : Numbered []
  | snoc {draws : List Draw} (h : Numbered draws) (hint : String) :
      Numbered (draws ++ [⟨hint, NameTable.nameOf hint ((hints draws).count hint)⟩])

/-- None of the hints is a name that was made from another one. -/
def Separate (hints : List String) : Prop :=
  ∀ hint ∈ hints, ∀ k < hints.count hint, k ≠ 0 → hint ++ toString k ∉ hints

theorem hints_snoc (draws : List Draw) (d : Draw) : hints (draws ++ [d]) = hints draws ++ [d.hint] :=
  List.map_append

private theorem names_snoc (draws : List Draw) (d : Draw) :
    names (draws ++ [d]) = names draws ++ [d.name] :=
  List.map_append

variable {draws : List Draw}

/-- The requests as hints with numbers: no two are alike, and a hint has the numbers below its
count. -/
private theorem Numbered.exists_requests (h : Numbered draws) : ∃ requests : List (String × Nat),
    requests.Nodup ∧ names draws = requests.map (fun r => NameTable.nameOf r.1 r.2) ∧
      ∀ hint k, (hint, k) ∈ requests ↔ k < (hints draws).count hint := by
  induction h with
  | nil => exact ⟨[], List.nodup_nil, rfl, by simp [hints]⟩
  | @snoc draws _ hint ih =>
    obtain ⟨requests, hnodup, hnames, hmem⟩ := ih
    have hnew : (hint, (hints draws).count hint) ∉ requests := by
      rw [hmem]
      exact Nat.lt_irrefl _
    refine ⟨requests ++ [(hint, (hints draws).count hint)], ?_, ?_, ?_⟩
    · exact List.nodup_append.mpr ⟨hnodup, List.nodup_singleton _, by
        rintro r hr _ hr' rfl
        rw [List.mem_singleton.mp hr'] at hr
        exact hnew hr⟩
    · rw [names_snoc, hnames, List.map_append]
      rfl
    · intro hint' k
      rw [hints_snoc, List.mem_append, List.mem_singleton, hmem, List.count_append,
        List.count_singleton, Prod.mk.injEq]
      by_cases he : hint = hint'
      · subst he
        simp only [true_and, beq_self_eq_true, if_true]
        omega
      · simp [he, Ne.symm he]

/-- Two requests for one name are a request for the hint and a later one for the hint that it was
made from. -/
theorem Numbered.nodup_names_iff (h : Numbered draws) :
    (names draws).Nodup ↔ Separate (hints draws) := by
  obtain ⟨requests, hnodup, hnames, hmem⟩ := h.exists_requests
  have mem_hints : ∀ {hint k}, (hint, k) ∈ requests → hint ∈ hints draws := fun hr =>
    List.count_pos_iff.mp (Nat.zero_lt_of_lt ((hmem _ _).mp hr))
  rw [hnames, List.nodup_map_iff_inj_on hnodup]
  constructor
  · intro hinj hint hhint k hk h0 hmade
    have hr : (hint, k) ∈ requests := (hmem _ _).mpr hk
    have hr' : (hint ++ toString k, 0) ∈ requests :=
      (hmem _ _).mpr (List.count_pos_iff.mpr hmade)
    have he := hinj _ hr _ hr' (by rw [NameTable.nameOf, if_neg h0, NameTable.nameOf, if_pos rfl])
    exact h0 (Prod.mk.inj he).2
  · rintro hs ⟨hint, n⟩ hr ⟨hint', n'⟩ hr' he
    rcases NameTable.nameOf_eq he with ⟨rfl, rfl⟩ | ⟨j, hj, hle, rfl⟩ | ⟨j, hj, hle, rfl⟩
    · rfl
    · exact absurd (mem_hints hr')
        (hs hint (mem_hints hr) j (hle.trans_lt ((hmem _ _).mp hr)) hj)
    · exact absurd (mem_hints hr)
        (hs hint' (mem_hints hr') j (hle.trans_lt ((hmem _ _).mp hr')) hj)

end Draw

end DataflowIR
