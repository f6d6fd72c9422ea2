import DataflowIR.Proofs.Text.Printing
import DataflowIR.Proofs.Text.Words

namespace DataflowIR

namespace Text

/-- With that many blanks after every line break. -/
def indented (blanks : Nat) (s : String) : String :=
  String.ofList (s.toList.flatMap fun c =>
    if c = '\n' then c :: List.replicate blanks ' ' else [c])

theorem indented_append (blanks : Nat) (s t : String) :
    indented blanks (s ++ t) = indented blanks s ++ indented blanks t := by
  rw [indented, String.toList_append, List.flatMap_append, String.ofList_append]
  rfl

theorem indented_of_oneLine (blanks : Nat) {s : String} (h : OneLine s) :
    indented blanks s = s := by
  have hchars : ∀ cs : List Char, '\n' ∉ cs →
      (cs.flatMap fun c => if c = '\n' then c :: List.replicate blanks ' ' else [c]) = cs := by
    intro cs hcs
    induction cs with
    | nil => rfl
    | cons c cs ih =>
      obtain ⟨hc, hrest⟩ := List.ne_and_not_mem_of_not_mem_cons hcs
      rw [List.flatMap_cons, if_neg (Ne.symm hc), ih hrest]
      rfl
  rw [indented, hchars _ h, String.ofList_toList]

/-- Where a line begins, the blanks of both levels stand. -/
private theorem spaces_add {level : Int} (h : 0 ≤ level) (n : Nat) :
    spaces (level + n) = spaces n ++ spaces level := by
  have hlevels : 2 * (level + n).toNat = 2 * (n : Int).toNat + 2 * level.toNat := by omega
  rw [spaces, hlevels, ← List.replicate_append_replicate, String.ofList_append]
  rfl

private theorem oneLine_spaces (level : Int) : OneLine (spaces level) := by
  simp [OneLine, spaces]

private theorem indented_newline (n : Nat) : indented (2 * n) "\n" = "\n" ++ spaces n := by
  rw [indented, spaces, Int.toNat_natCast]
  simp

/-- A line in its place, `n` levels deeper. -/
def moved (n : Nat) (line : String) : String :=
  spaces n ++ indented (2 * n) line

variable (n : Nat)

theorem moved_spaces {level : Int} (h : 0 ≤ level) (s : String) :
    moved n (spaces level ++ s) = spaces (level + n) ++ indented (2 * n) s := by
  rw [moved, indented_append, indented_of_oneLine _ (oneLine_spaces level), spaces_add h,
    String.append_assoc]

private theorem indented_join_lines (lines : List String) :
    indented (2 * n) (String.join (lines.map ("\n" ++ ·))) =
      String.join ((lines.map (moved n)).map ("\n" ++ ·)) := by
  induction lines with
  | nil => rfl
  | cons line rest ih =>
    simp only [List.map_cons, String.join_cons, indented_append, indented_newline, ih, moved,
      String.append_assoc]

private theorem moved_intercalate_newline {lines : List String} (h : lines ≠ []) :
    moved n (String.intercalate "\n" lines) = String.intercalate "\n" (lines.map (moved n)) := by
  obtain ⟨first, rest, rfl⟩ := List.exists_cons_of_ne_nil h
  rw [List.map_cons, intercalate_newline, intercalate_newline, moved, indented_append,
    indented_join_lines, moved, String.append_assoc]

private theorem indented_commaSep (items : List String) :
    indented (2 * n) (commaSep items) = commaSep (items.map (indented (2 * n))) := by
  unfold commaSep
  induction items with
  | nil => rfl
  | cons s rest ih =>
    cases rest with
    | nil => simp
    | cons t rest =>
      have hcomma : OneLine ", " := by simp [OneLine]
      rw [String.intercalate_cons_cons, List.map_cons, List.map_cons,
        String.intercalate_cons_cons, indented_append, indented_append, ih,
        indented_of_oneLine _ hcomma, List.map_cons]

private theorem indented_inParens (items : List String) :
    indented (2 * n) (inParens items) = inParens (items.map (indented (2 * n))) := by
  have hopen : OneLine "(" := by simp [OneLine]
  have hclose : OneLine ")" := by simp [OneLine]
  rw [inParens, indented_append, indented_append, indented_commaSep,
    indented_of_oneLine _ hopen, indented_of_oneLine _ hclose]
  rfl

end Text

open Text Printer

section

variable (n : Nat)

private theorem indented_tupleText (fields : List String) :
    indented (2 * n) (tupleText fields) = tupleText (fields.map (indented (2 * n))) := by
  match fields with
  | [] | _ :: _ :: _ => exact indented_inParens n _
  | [field] =>
    have hopen : OneLine "(" := by simp [OneLine]
    have hclose : OneLine ",)" := by simp [OneLine]
    simp only [tupleText, List.map_cons, List.map_nil, indented_append,
      indented_of_oneLine _ hopen, indented_of_oneLine _ hclose]

private theorem indented_callText (callee : String) (args : List String) {attrs : Option Attrs}
    {sinfoArgs : List StructInfo} (hattrs : ∀ w ∈ (attrs.map Attrs.words).getD [], OneLine w)
    (hsinfo : ∀ w ∈ sinfoArgs.flatMap StructInfo.words, OneLine w) :
    indented (2 * n) (callText callee args attrs sinfoArgs) =
      callText (indented (2 * n) callee) (args.map (indented (2 * n))) attrs sinfoArgs := by
  have hsinfoText : ∀ s ∈ (if sinfoArgs.isEmpty then []
      else ["sinfo_args=" ++ inBrackets (sinfoArgs.map StructInfo.text)]), OneLine s := by
    split
    · exact List.forall_mem_nil _
    · have hlist : OneLine (inBrackets (sinfoArgs.map StructInfo.text)) := by
        apply oneLine_inBrackets
        refine List.forall_mem_map.mpr ?_
        intro s hs
        exact StructInfo.oneLine_text_of_words (List.forall_mem_flatMap.mp hsinfo s hs)
      exact List.forall_mem_singleton.mpr (oneLine_append.mpr ⟨by simp [OneLine], hlist⟩)
  have hsame : ∀ items : List String, (∀ s ∈ items, OneLine s) →
      items.map (indented (2 * n)) = items := by
    intro items hitems
    have hid : items.map (indented (2 * n)) = items.map id :=
      List.map_congr_left fun s hs => indented_of_oneLine _ (hitems s hs)
    rw [hid, List.map_id]
  simp only [callText, indented_append, indented_inParens, List.map_append, hsame _ hsinfoText]
  congr 1
  cases attrs with
  | none => exact indented_of_oneLine _ (by simp [OneLine])
  | some a =>
    have hattrsText : OneLine (Attrs.text a) := Attrs.oneLine_text hattrs
    simp only
    split
    · exact indented_of_oneLine _ (by simp [OneLine])
    · exact indented_of_oneLine _ (oneLine_append.mpr ⟨by simp [OneLine], hattrsText⟩)

theorem bracedLines_moved {level : Int} (h : 0 ≤ level) (lines : List String) :
    bracedLines (level + n) (lines.map (moved n)) = indented (2 * n) (bracedLines level lines) := by
  have hopen : OneLine "\x7b" := by simp [OneLine]
  have hclose : OneLine "\x7d" := by simp [OneLine]
  simp only [bracedLines, indented_append, indented_join_lines, indented_newline,
    indented_of_oneLine _ hopen, indented_of_oneLine _ hclose,
    indented_of_oneLine _ (oneLine_spaces level), spaces_add h, String.append_assoc]

private theorem outputLines_moved {level : Int} (h : 0 ≤ level) {vars : List Var}
    (hvars : ∀ v ∈ vars, OneLine v.hint) :
    outputLines (level + n) vars = (outputLines level vars).map (moved n) := by
  unfold outputLines
  simp only
  split
  · rfl
  · have houtputs : OneLine ("output" ++ inParens ((vars.filter fun v => !v.dataflow).map
        Var.text)) := by
      refine oneLine_append.mpr ⟨by simp [OneLine], oneLine_inParens ?_⟩
      refine List.forall_mem_map.mpr ?_
      intro v hv
      exact Var.oneLine_text (hvars v (List.mem_filter.mp hv).1)
    rw [String.append_assoc, String.append_assoc, List.map_singleton, moved_spaces n h,
      indented_of_oneLine _ houtputs]

theorem bracedText_add {e : Expr} {level : Int} (h : 0 ≤ level)
    (htext : ∀ {level : Int}, 0 ≤ level →
      e.textAt (level + n) = indented (2 * n) (e.textAt level)) :
    bracedText (level + n) e = indented (2 * n) (bracedText level e) := by
  unfold bracedText
  split
  · exact htext h
  · have hnext : 0 ≤ level + 1 := by omega
    rw [Int.add_right_comm level n 1, htext hnext, ← moved_spaces n hnext, ← List.map_singleton,
      bracedLines_moved n h]

end

private theorem Binding.hint_mem_words (b : Binding) : b.var.hint ∈ b.words := by
  cases b <;> simp [Binding.words, Binding.var, Var.defWords]

private theorem Binding.oneLine_hint_of_mem {bs : List Binding}
    (h : ∀ w ∈ Binding.wordsAll bs, OneLine w) :
    ∀ v ∈ bs.map Binding.var, OneLine v.hint := by
  induction bs with
  | nil => simp
  | cons b bs ih =>
    obtain ⟨hb, hrest⟩ := List.forall_mem_append.mp h
    exact List.forall_mem_cons.mpr ⟨hb _ b.hint_mem_words, ih hrest⟩

mutual

/-- By recursion on the tree, one case for each form. The level is general: what stands between
braces is at the next one. -/
theorem Expr.textAt_add (n : Nat) {e : Expr} (h : ∀ w ∈ e.words, OneLine w) {level : Int}
    (hlevel : 0 ≤ level) : e.textAt (level + n) = indented (2 * n) (e.textAt level) := by
  cases e with
  | leaf _ content => exact (indented_of_oneLine _ (Leaf.oneLine_text h)).symm
  | var v =>
    exact (indented_of_oneLine _ (Var.oneLine_text (h v.hint (List.mem_singleton_self _)))).symm
  | shape _ values =>
    have hvalues : OneLine (inParens (values.map Dim.text)) := by
      apply oneLine_inParens
      refine List.forall_mem_map.mpr ?_
      intro d hd
      exact Dim.oneLine_text_of_words (List.forall_mem_flatMap.mp h d hd)
    exact (indented_of_oneLine _ (oneLine_append.mpr ⟨by simp [OneLine], hvalues⟩)).symm
  | prim _ value _ =>
    have hvalue : OneLine value.text := Dim.oneLine_text_of_words h
    have htext : OneLine ("prim(" ++ value.text ++ ")") :=
      hvalue.between (by simp [OneLine]) (by simp [OneLine])
    exact (indented_of_oneLine _ htext).symm
  | tuple _ fields => rw [Expr.textAt, Expr.textsAt_add n h hlevel, Expr.textAt, indented_tupleText]
  | item _ whole index =>
    have hwhole := Expr.textAt_add n (e := whole) h hlevel
    have hindex : OneLine (toString index) := oneLine_toString_nat index
    rw [Expr.textAt, hwhole, Expr.textAt, indented_append, indented_append, indented_append,
      indented_of_oneLine _ hindex, indented_of_oneLine (s := "[") _ (by simp [OneLine]),
      indented_of_oneLine (s := "]") _ (by simp [OneLine])]
  | call _ callee args attrs sinfoArgs =>
    simp only [Expr.words, List.forall_mem_append] at h
    obtain ⟨⟨⟨hcallee, hargs⟩, hattrs⟩, hsinfo⟩ := h
    rw [Expr.textAt, Expr.textAt_add n hcallee hlevel, Expr.textsAt_add n hargs hlevel,
      Expr.textAt, indented_callText n _ _ hattrs hsinfo]
  | ite node cond onTrue onFalse =>
    simp only [Expr.words, List.forall_mem_append] at h
    obtain ⟨⟨hcond, htrue⟩, hfalse⟩ := h
    have htext : ∀ level, (Expr.ite node cond onTrue onFalse).textAt level =
        "if " ++ cond.textAt level ++ " " ++ bracedText level onTrue ++ " else " ++
          bracedText level onFalse := fun _ => rfl
    have hc := Expr.textAt_add n hcond hlevel
    have ht := bracedText_add n hlevel (Expr.textAt_add n htrue)
    have hf := bracedText_add n hlevel (Expr.textAt_add n hfalse)
    simp only [htext, hc, ht, hf, indented_append,
      indented_of_oneLine (s := "if ") _ (by simp [OneLine]),
      indented_of_oneLine (s := " ") _ (by simp [OneLine]),
      indented_of_oneLine (s := " else ") _ (by simp [OneLine])]
  | seq _ blocks body =>
    simp only [Expr.words, List.forall_mem_append] at h
    obtain ⟨hblocks, hbody⟩ := h
    have hnext : 0 ≤ level + 1 := by omega
    have hbs := Block.textsAt_add n hblocks hnext
    have hb := Expr.textAt_add n hbody hnext
    rw [Expr.textAt, Int.add_right_comm level n 1, hbs, hb, ← moved_spaces n hnext,
      ← List.map_singleton, ← List.map_append, bracedLines_moved n hlevel, Expr.textAt]
  | function node params body ret attrs =>
    simp only [Expr.words, List.forall_mem_append] at h
    obtain ⟨⟨⟨hparams, hret⟩, hattrs⟩, hbody⟩ := h
    have htext : ∀ level, (Expr.function node params body ret attrs).textAt level =
        functionHead none params ret attrs ++ bracedText level body := fun _ => rfl
    have hb := bracedText_add n hlevel (Expr.textAt_add n hbody)
    rw [htext, hb, htext, indented_append,
      indented_of_oneLine _ (oneLine_functionHead hparams hret hattrs)]

theorem Expr.textsAt_add (n : Nat) {es : List Expr} (h : ∀ w ∈ Expr.wordsAll es, OneLine w)
    {level : Int} (hlevel : 0 ≤ level) :
    Expr.textsAt (level + n) es = (Expr.textsAt level es).map (indented (2 * n)) := by
  cases es with
  | nil => rfl
  | cons e es =>
    simp only [Expr.wordsAll, List.forall_mem_append] at h
    rw [Expr.textsAt, Expr.textAt_add n h.1 hlevel, Expr.textsAt_add n h.2 hlevel, Expr.textsAt,
      List.map_cons]

theorem Binding.textAt_add (n : Nat) {b : Binding} (h : ∀ w ∈ b.words, OneLine w) {level : Int}
    (hlevel : 0 ≤ level) : b.textAt (level + n) = indented (2 * n) (b.textAt level) := by
  cases b with
  | bind _ var value =>
    simp only [Binding.words, List.forall_mem_append] at h
    rw [Binding.textAt, Expr.textAt_add n h.2 hlevel, Binding.textAt, indented_append,
      indented_append, indented_of_oneLine _ (Var.oneLine_defText h.1),
      indented_of_oneLine (s := " = ") _ (by simp [OneLine])]
  | cast _ var value sinfo =>
    simp only [Binding.words, List.forall_mem_append] at h
    obtain ⟨⟨hvar, hvalue⟩, hsinfo⟩ := h
    have hs : OneLine sinfo.text := StructInfo.oneLine_text_of_words hsinfo
    simp only [Binding.textAt, Expr.textAt_add n hvalue hlevel, indented_append,
      indented_of_oneLine _ (Var.oneLine_defText hvar), indented_of_oneLine _ hs,
      indented_of_oneLine (s := " = match_cast(") _ (by simp [OneLine]),
      indented_of_oneLine (s := ", ") _ (by simp [OneLine]),
      indented_of_oneLine (s := ")") _ (by simp [OneLine])]

theorem Binding.linesAt_add (n : Nat) {bs : List Binding}
    (h : ∀ w ∈ Binding.wordsAll bs, OneLine w) {level : Int} (hlevel : 0 ≤ level) :
    Binding.linesAt (level + n) bs = (Binding.linesAt level bs).map (moved n) := by
  cases bs with
  | nil => rfl
  | cons b bs =>
    simp only [Binding.wordsAll, List.forall_mem_append] at h
    rw [Binding.linesAt, Binding.textAt_add n h.1 hlevel, Binding.linesAt_add n h.2 hlevel,
      Binding.linesAt, List.map_cons, moved_spaces n hlevel]

theorem Block.textAt_add (n : Nat) {b : Block} :
    b.bindings ≠ [] → (∀ w ∈ b.words, OneLine w) → {level : Int} → 0 ≤ level →
      b.textAt (level + n) = moved n (b.textAt level) := by
  match b with
  | .mk _ .plain bs =>
    intro hne h level hlevel
    have hlines : Binding.linesAt level bs ≠ [] := by
      cases bs with
      | nil => exact absurd rfl hne
      | cons b bs => exact List.cons_ne_nil _ _
    rw [Block.textAt, Binding.linesAt_add n h hlevel, Block.textAt,
      moved_intercalate_newline n hlines]
  | .mk _ .dataflow bs =>
    intro _ h level hlevel
    have hnext : 0 ≤ level + 1 := by omega
    have hlines : Binding.linesAt (level + 1 + n) bs = _ := Binding.linesAt_add n h hnext
    have houtputs := outputLines_moved n hnext (Binding.oneLine_hint_of_mem h)
    rw [Block.textAt, Int.add_right_comm level n 1, hlines, houtputs, ← List.map_append,
      bracedLines_moved n hlevel, Block.textAt, String.append_assoc, String.append_assoc,
      moved_spaces n hlevel, indented_append,
      indented_of_oneLine (s := "dataflow ") _ (by simp [OneLine])]

theorem Block.textsAt_add (n : Nat) {bs : List Block} :
    (∀ w ∈ Block.wordsAll bs, OneLine w) → {level : Int} → 0 ≤ level →
      Block.textsAt (level + n) bs = (Block.textsAt level bs).map (moved n) := by
  match bs with
  | [] =>
    intro _ _ _
    rfl
  | .mk mark kind bindings :: bs =>
    intro h level hlevel
    simp only [Block.wordsAll, List.forall_mem_append] at h
    have hrest := Block.textsAt_add n h.2 hlevel
    simp only [Block.textsAt]
    split
    · exact hrest
    · have hne : bindings ≠ [] := by simpa using ‹¬bindings.isEmpty = true›
      rw [Block.textAt_add n (b := .mk mark kind bindings) hne h.1 hlevel, hrest, List.map_cons]

end

namespace Printer

/-- At a level from which those of the printed form can be counted, printing succeeds, ends at that
level, and inserts its blanks after every line break of what is printed at the top. At another level
it stops. -/
theorem print_indented {e : Expr} (h : ∀ w ∈ e.words, '\n' ∉ w.toList) {n : Int32} (hn : 0 ≤ n) :
    (n.toInt + e.levels ≤ Int32.maxValue.toInt →
      ∃ text, (print e).exec 0 = (.ok text, 0) ∧
        (print e).exec n = (.ok (indented (2 * n.toNatClampNeg) text), n)) ∧
    (Int32.maxValue.toInt < n.toInt + e.levels →
      ∃ t, (print e).exec n = (.error .levelOverflow, t)) := by
  have hn' : 0 ≤ n.toInt := Int32.le_iff_toInt_le.mp hn
  have hzero : (0 : Int32).toInt = 0 := rfl
  refine ⟨fun hfit => ⟨e.textAt 0, ?_, ?_⟩, (prints_print e n).overflows⟩
  · exact (prints_print e 0).fits (by omega)
  · have hlevel : n.toInt = (0 : Int) + n.toNatClampNeg := by
      rw [Int32.toNatClampNeg, Int.toNat_of_nonneg hn', Int.zero_add]
    have hshift := Expr.textAt_add n.toNatClampNeg h (Int.le_refl 0)
    rw [(prints_print e n).fits hfit, hlevel, hshift]

/-- A choice among the arguments of a call, with a dataflow block in a branch and a line break in a
string. -/
theorem print_indented_nested :
    let v (index : Nat) (hint : String) (dataflow : Bool) : Var :=
      ⟨⟨⟨index, none⟩, none⟩, ⟨index, hint⟩, dataflow⟩
    let leaf (content : Leaf) : Expr := .leaf ⟨⟨0, none⟩, none⟩ content
    let block : Block := .mk ⟨0, none⟩ .dataflow
      [.bind ⟨0, none⟩ (v 1 "l" true) (.var (v 0 "x" false)),
        .bind ⟨0, none⟩ (v 2 "g" false) (.tuple ⟨⟨0, none⟩, none⟩ [.var (v 1 "l" true)])]
    let e : Expr := .call ⟨⟨0, none⟩, none⟩ (leaf (.op "f"))
      [.ite ⟨⟨0, none⟩, none⟩ (.var (v 0 "x" false))
        (.seq ⟨⟨0, none⟩, none⟩ [block] (.var (v 2 "g" false))) (leaf (.str "a\nb"))] none []
    (∀ w ∈ e.words, '\n' ∉ w.toList) ∧ e.levels = 2 ∧
      e.text = "f(if %x \x7b\n  dataflow \x7b\n    %l = %x\n    %g = (%l,)\n" ++
        "    output(%g)\n  \x7d\n  %g\n\x7d else \x7b\n  \"a\\nb\"\n\x7d)" ∧
      (∃ text, (print e).exec 0 = (.ok text, 0) ∧
        (print e).exec 2 = (.ok (indented 4 text), 2)) ∧
      ∃ t, (print e).exec (Int32.maxValue - 1) = (.error .levelOverflow, t) := by
  intro v leaf block e
  have hwords : ∀ w ∈ e.words, '\n' ∉ w.toList := by decide
  exact ⟨hwords, by decide, by decide +kernel,
    (print_indented hwords (n := 2) (by decide)).1 (by decide),
    (print_indented hwords (n := Int32.maxValue - 1) (by decide)).2 (by decide)⟩

/-- A body stands one level deeper than its function, and the greatest level has none below it. -/
theorem print_at_greatest_level :
    let x : Var := ⟨⟨⟨0, none⟩, none⟩, ⟨0, "x"⟩, false⟩
    let e : Expr := .function ⟨⟨1, none⟩, none⟩ [x] (.var x) .object .empty
    ¬ ((∀ w ∈ e.words, '\n' ∉ w.toList) → 0 ≤ Int32.maxValue →
      ∃ text, (print e).exec 0 = (.ok text, 0) ∧
        (print e).exec Int32.maxValue =
          (.ok (indented (2 * Int32.maxValue.toNatClampNeg) text), Int32.maxValue)) := by
  intro x e h
  have hwords : ∀ w ∈ e.words, '\n' ∉ w.toList := by decide
  obtain ⟨text, -, htext⟩ := h hwords (by decide)
  obtain ⟨t, hfails⟩ := (prints_print e Int32.maxValue).overflows (by decide)
  rw [hfails] at htext
  cases htext

end Printer

end DataflowIR
