import DataflowIR.Expr.Text
import DataflowIR.Proofs.Text.Symbols

namespace DataflowIR

def Leaf.words : Leaf → List String
  | externFunc symbol => [symbol]
  | globalVar name => [name]
  | op name => [name]
  | _ => []

def Dim.words (d : Dim) : List String :=
  d.symbols.map SymVar.name

def StructInfo.words (s : StructInfo) : List String :=
  s.symbols.map SymVar.name

def AttrValue.words : AttrValue → List String
  | str value => [value]
  | _ => []

def Attrs.words (a : Attrs) : List String :=
  a.entries.flatMap fun e => e.1 :: e.2.words

/-- The words of a variable where it is defined. -/
def Var.defWords (v : Var) : List String :=
  v.hint :: (v.sinfo.map StructInfo.words).getD []

mutual

def Expr.words : Expr → List String
  | .leaf _ content => content.words
  | .var v => [v.hint]
  | .shape _ values => values.flatMap Dim.words
  | .prim _ value _ => value.words
  | .tuple _ fields => Expr.wordsAll fields
  | .item _ whole _ => whole.words
  | .call _ callee args attrs sinfoArgs =>
    callee.words ++ Expr.wordsAll args ++ (attrs.map Attrs.words).getD [] ++
      sinfoArgs.flatMap StructInfo.words
  | .ite _ cond onTrue onFalse => cond.words ++ onTrue.words ++ onFalse.words
  | .seq _ blocks body => Block.wordsAll blocks ++ body.words
  | .function _ params body ret attrs =>
    params.flatMap Var.defWords ++ ret.words ++ attrs.words ++ body.words

def Expr.wordsAll : List Expr → List String
  | [] => []
  | e :: es => e.words ++ Expr.wordsAll es

def Binding.words : Binding → List String
  | .bind _ var value => var.defWords ++ value.words
  | .cast _ var value sinfo => var.defWords ++ value.words ++ sinfo.words

def Binding.wordsAll : List Binding → List String
  | [] => []
  | b :: bs => b.words ++ Binding.wordsAll bs

def Block.words : Block → List String
  | .mk _ _ bindings => Binding.wordsAll bindings

def Block.wordsAll : List Block → List String
  | [] => []
  | b :: bs => b.words ++ Block.wordsAll bs

end

namespace Text

def OneLine (s : String) : Prop :=
  '\n' ∉ s.toList

theorem oneLine_append {s t : String} : OneLine (s ++ t) ↔ OneLine s ∧ OneLine t := by
  simp only [OneLine, String.toList_append, List.mem_append, not_or]

theorem OneLine.between {before s after : String} (h : OneLine s) (hbefore : OneLine before)
    (hafter : OneLine after) : OneLine (before ++ s ++ after) := by
  exact oneLine_append.mpr ⟨oneLine_append.mpr ⟨hbefore, h⟩, hafter⟩

private theorem oneLine_intercalate {sep : String} (hsep : OneLine sep) {items : List String}
    (h : ∀ s ∈ items, OneLine s) : OneLine (String.intercalate sep items) := by
  induction items with
  | nil => simp [OneLine]
  | cons s rest ih =>
    obtain ⟨hs, hrest⟩ := List.forall_mem_cons.mp h
    cases rest with
    | nil => simpa using hs
    | cons t rest =>
      rw [String.intercalate_cons_cons]
      exact oneLine_append.mpr ⟨oneLine_append.mpr ⟨hs, hsep⟩, ih hrest⟩

theorem oneLine_commaSep {items : List String} (h : ∀ s ∈ items, OneLine s) :
    OneLine (commaSep items) := by
  exact oneLine_intercalate (by simp [OneLine]) h

theorem oneLine_inParens {items : List String} (h : ∀ s ∈ items, OneLine s) :
    OneLine (inParens items) := by
  exact (oneLine_commaSep h).between (by simp [OneLine]) (by simp [OneLine])

theorem oneLine_inBrackets {items : List String} (h : ∀ s ∈ items, OneLine s) :
    OneLine (inBrackets items) := by
  exact (oneLine_commaSep h).between (by simp [OneLine]) (by simp [OneLine])

theorem newline_not_mem_toDigits (base : Nat) (hbase : 1 < base) (h16 : base ≤ 16) (n : Nat) :
    '\n' ∉ Nat.toDigits base n := by
  have hdigit : ∀ d < 16, '\n' ≠ Nat.digitChar d := by decide
  induction n using Nat.strongRecOn with
  | ind n ih =>
    by_cases hn : n < base
    · rw [Nat.toDigits_of_lt_base hn, List.mem_singleton]
      exact hdigit n (by omega)
    · have hlast : n % base < base := Nat.mod_lt n (by omega)
      have hrest := ih (n / base) (Nat.div_lt_self (by omega) hbase)
      rw [Nat.toDigits_of_base_le hbase (by omega), List.mem_append, List.mem_singleton]
      exact not_or.mpr ⟨hrest, hdigit _ (by omega)⟩

theorem toList_toString_ofNat (n : Nat) :
    (toString (Int.ofNat n)).toList = Nat.toDigits 10 n := by
  rw [← Nat.toList_repr]
  rfl

theorem toList_toString_negSucc (n : Nat) :
    (toString (Int.negSucc n)).toList = '-' :: Nat.toDigits 10 (n + 1) := by
  have happend : toString (Int.negSucc n) = "-" ++ (n + 1).repr := rfl
  rw [happend, String.toList_append, Nat.toList_repr]
  simp

theorem oneLine_toString_nat (n : Nat) : OneLine (toString n) := by
  have hdigits := newline_not_mem_toDigits 10 (by decide) (by decide) n
  rwa [OneLine, Nat.toString_eq_repr, Nat.toList_repr]

theorem oneLine_toString_int (value : Int) : OneLine (toString value) := by
  have hdigits := newline_not_mem_toDigits 10 (by decide) (by decide)
  cases value with
  | ofNat n =>
    rw [OneLine, toList_toString_ofNat]
    exact hdigits n
  | negSucc n =>
    rw [OneLine, toList_toString_negSucc, List.mem_cons]
    exact not_or.mpr ⟨by decide, hdigits (n + 1)⟩

end Text

open Text

namespace Binary64

private theorem newline_not_mem_digits (x : Binary64) : '\n' ∉ x.shortest.digits := by
  have hstrip : ∀ {digits : List Char}, '\n' ∉ digits → '\n' ∉ stripZeros digits := by
    intro digits h hmem
    have hsub := List.dropWhile_sublist (l := digits.reverse) (· == '0')
    exact h (List.mem_reverse.mp (hsub.subset (List.mem_reverse.mp hmem)))
  unfold shortest Interval.decimal
  simp only
  split
  · simp
  · exact hstrip (newline_not_mem_toDigits 10 (by decide) (by decide) _)

private theorem newline_not_mem_chars (style : DecimalStyle) {d : Decimal} (h : '\n' ∉ d.digits) :
    '\n' ∉ d.chars style := by
  have htake : ∀ n, '\n' ∉ d.digits.take n := fun n hmem => h (List.mem_of_mem_take hmem)
  have hdrop : ∀ n, '\n' ∉ d.digits.drop n := fun n hmem => h (List.mem_of_mem_drop hmem)
  have htail : '\n' ∉ d.digits.tail := List.drop_one ▸ hdrop 1
  have hexponent : '\n' ∉ (toString (d.point - 1)).toList := oneLine_toString_int _
  unfold Decimal.chars
  split
  · unfold Decimal.inPlace
    simp only
    split <;> split <;> simp [htake, hdrop]
  · unfold Decimal.withExponent
    simp only [List.drop_one]
    split <;> simp_all

theorem oneLine_text (x : Binary64) : OneLine x.text := by
  have hchars := newline_not_mem_chars plainStyle x.newline_not_mem_digits
  have hsign : OneLine (if x.isNegative then "-" else "") := by
    split <;> simp [OneLine]
  unfold text
  simp only
  split
  · simp [OneLine]
  · split
    · exact oneLine_append.mpr ⟨hsign, by simp [OneLine]⟩
    · split
      · exact oneLine_append.mpr ⟨hsign, by simp [OneLine]⟩
      · exact oneLine_append.mpr ⟨hsign, by simpa [OneLine] using hchars⟩

end Binary64

namespace Text

private theorem newline_not_mem_escape (c : Char) : '\n' ∉ escape c := by
  have hdigits := newline_not_mem_toDigits 16 (by decide) (by decide) c.toNat
  unfold escape
  split
  case h_7 hnewline _ _ =>
    split
    · simpa using Ne.symm hnewline
    · simp [codePointEscape, hdigits]
  all_goals simp

private theorem oneLine_quoted (s : String) : OneLine (quoted s) := by
  have hescaped : '\n' ∉ s.toList.flatMap escape := by
    intro hmem
    obtain ⟨c, -, hc⟩ := List.mem_flatMap.mp hmem
    exact newline_not_mem_escape c hc
  simpa [OneLine, quoted, quotedChars] using hescaped

end Text

theorem DType.oneLine_text (d : DType) : OneLine d.text := by
  cases d with
  | int bits | uint bits | float bits =>
    exact oneLine_append.mpr ⟨by simp [OneLine], oneLine_toString_nat bits⟩
  | bool | handle | void => simp [DType.text, OneLine]

private theorem oneLine_boolText (b : Bool) : OneLine (boolText b) := by
  cases b <;> simp [boolText, OneLine]

theorem Literal.oneLine_text (l : Literal) : OneLine l.text := by
  cases l with
  | bool value => exact oneLine_boolText value
  | int value => exact oneLine_toString_int value
  | float value => exact value.oneLine_text

theorem AttrValue.oneLine_text {v : AttrValue} (h : ∀ w ∈ v.words, OneLine w) :
    OneLine v.text := by
  cases v with
  | bool value => exact oneLine_boolText value
  | int value => exact oneLine_toString_int value
  | float value => exact value.oneLine_text
  | str value =>
    have hquote : OneLine "\"" := by simp [OneLine]
    have hvalue : OneLine value := h value (by simp [words])
    exact hvalue.between hquote hquote
  | dtype value => exact value.oneLine_text
  | ints values =>
    apply oneLine_inBrackets
    exact List.forall_mem_map.mpr fun value _ => oneLine_toString_int value

theorem Attrs.oneLine_text {a : Attrs} (h : ∀ w ∈ Attrs.words a, OneLine w) :
    OneLine (Attrs.text a) := by
  have hentries : OneLine (commaSep (a.entries.map fun e => e.1 ++ " = " ++ e.2.text)) := by
    apply oneLine_commaSep
    refine List.forall_mem_map.mpr ?_
    intro e he
    obtain ⟨hkey, hvalue⟩ := List.forall_mem_cons.mp (List.forall_mem_flatMap.mp h e he)
    have hequals : OneLine " = " := by simp [OneLine]
    exact hequals.between hkey (AttrValue.oneLine_text hvalue)
  exact hentries.between (by simp [OneLine]) (by simp [OneLine])

namespace Dim

private theorem oneLine_operand (compound : Bool) {s : String} (h : OneLine s) :
    OneLine (text.operand compound s) := by
  unfold text.operand
  split
  · exact h.between (by simp [OneLine]) (by simp [OneLine])
  · exact h

theorem oneLine_text {d : Dim} (h : ∀ v ∈ d.symbols, OneLine v.name) : OneLine d.text := by
  induction d with
  | int value => exact oneLine_toString_int value
  | sym v => exact h v (by simp [symbols])
  | binary op lhs rhs ihl ihr =>
    have hl := oneLine_operand lhs.isCompound (ihl fun v hv => h v (List.mem_append_left _ hv))
    have hr := oneLine_operand rhs.isCompound (ihr fun v hv => h v (List.mem_append_right _ hv))
    have hsymbol : OneLine op.symbol := by cases op <;> simp [DimOp.symbol, OneLine]
    have hblank : OneLine " " := by simp [OneLine]
    simp only [text, oneLine_append]
    exact ⟨⟨⟨⟨hl, hblank⟩, hsymbol⟩, hblank⟩, hr⟩

end Dim

namespace StructInfo

private theorem oneLine_dimsText {dims : List Dim}
    (h : ∀ v ∈ dims.flatMap Dim.symbols, OneLine v.name) :
    OneLine (dimsText dims) := by
  apply oneLine_inBrackets
  exact List.forall_mem_map.mpr fun d hd => Dim.oneLine_text (List.forall_mem_flatMap.mp h d hd)

private theorem oneLine_text_tensor {dims : Option (List Dim)} (dtype : DType) (ndim : Int)
    (h : ∀ v ∈ (dims.getD []).flatMap Dim.symbols, OneLine v.name) :
    OneLine (tensor dims dtype ndim).text := by
  have hname : OneLine "Tensor" := by simp [OneLine]
  have hdtype : ∀ parts : List String, (∀ p ∈ parts, OneLine p) →
      ∀ p ∈ (if dtype = .void then parts else parts ++ [dtype.text]), OneLine p := by
    intro parts hparts
    split
    · exact hparts
    · exact List.forall_mem_append.mpr ⟨hparts, List.forall_mem_singleton.mpr dtype.oneLine_text⟩
  have hlist : ∀ parts : List String, (∀ p ∈ parts, OneLine p) →
      OneLine (if parts.isEmpty then "Tensor" else "Tensor" ++ inParens parts) := by
    intro parts hparts
    split
    · exact hname
    · exact oneLine_append.mpr ⟨hname, oneLine_inParens hparts⟩
  unfold text
  apply hlist
  apply hdtype
  cases dims with
  | some dims => exact List.forall_mem_singleton.mpr (oneLine_dimsText h)
  | none =>
    have hndim : OneLine ("ndim=" ++ toString ndim) :=
      oneLine_append.mpr ⟨by simp [OneLine], oneLine_toString_int ndim⟩
    simp only
    split
    · exact List.forall_mem_nil _
    · exact List.forall_mem_singleton.mpr hndim

mutual

theorem oneLine_text {s : StructInfo} : (∀ v ∈ s.symbols, OneLine v.name) → OneLine s.text := by
  match s with
  | .object =>
    intro _
    simp [text, OneLine]
  | .prim dtype =>
    intro _
    exact dtype.oneLine_text.between (by simp [OneLine]) (by simp [OneLine])
  | .shape (some values) _ =>
    intro h
    exact (oneLine_dimsText h).between (by simp [OneLine]) (by simp [OneLine])
  | .shape none ndim =>
    intro _
    have hndim := oneLine_toString_int ndim
    simp only [text]
    split
    · simp [OneLine]
    · exact hndim.between (by simp [OneLine]) (by simp [OneLine])
  | .tensor _ dtype ndim =>
    intro h
    exact oneLine_text_tensor dtype ndim h
  | .tuple fields =>
    intro h
    have hfields : ∀ t ∈ texts fields, OneLine t := oneLine_texts h
    simp only [text, oneLine_append]
    exact ⟨by simp [OneLine], oneLine_inParens hfields⟩
  | .func params ret =>
    intro h
    have hparams : ∀ t ∈ texts params, OneLine t :=
      oneLine_texts fun v hv => h v (List.mem_append_left _ hv)
    have hret := oneLine_text (s := ret) fun v hv => h v (List.mem_append_right _ hv)
    simp only [text, oneLine_append]
    exact ⟨⟨⟨⟨by simp [OneLine], oneLine_inBrackets hparams⟩, by simp [OneLine]⟩, hret⟩,
      by simp [OneLine]⟩
  | .opaqueFunc ret =>
    intro h
    have hret := oneLine_text (s := ret) h
    exact hret.between (by simp [OneLine]) (by simp [OneLine])

theorem oneLine_texts {ss : List StructInfo} (h : ∀ v ∈ symbolsAll ss, OneLine v.name) :
    ∀ t ∈ texts ss, OneLine t := by
  cases ss with
  | nil => simp [texts]
  | cons s rest =>
    have hs := oneLine_text (s := s) fun v hv => h v (List.mem_append_left _ hv)
    have hrest : ∀ t ∈ texts rest, OneLine t :=
      oneLine_texts fun v hv => h v (List.mem_append_right _ hv)
    exact List.forall_mem_cons.mpr ⟨hs, hrest⟩

end

end StructInfo

theorem Leaf.oneLine_text {l : Leaf} (h : ∀ w ∈ l.words, OneLine w) : OneLine l.text := by
  cases l with
  | constant values dims dtype =>
    have hdtype := dtype.oneLine_text
    cases dims with
    | nil =>
      have hvalue : OneLine ((values.head?.map Literal.text).getD "") := by
        cases values with
        | nil => simp [OneLine]
        | cons value rest => exact value.oneLine_text
      simp only [text, oneLine_append]
      exact ⟨⟨⟨⟨by simp [OneLine], hvalue⟩, by simp [OneLine]⟩, hdtype⟩, by simp [OneLine]⟩
    | cons dim dims =>
      have hdims : OneLine (String.intercalate "x" ((dim :: dims).map toString)) := by
        apply oneLine_intercalate (by simp [OneLine])
        exact List.forall_mem_map.mpr fun d _ => oneLine_toString_int d
      simp only [text, oneLine_append]
      exact ⟨⟨⟨⟨by simp [OneLine], hdims⟩, by simp [OneLine]⟩, hdtype⟩, by simp [OneLine]⟩
  | runtimeShape => simp [text, OneLine]
  | externFunc symbol =>
    have hsymbol : OneLine symbol := h symbol (by simp [words])
    exact hsymbol.between (by simp [OneLine]) (by simp [OneLine])
  | globalVar name =>
    have hname : OneLine name := h name (by simp [words])
    exact oneLine_append.mpr ⟨by simp [OneLine], hname⟩
  | op name => exact h name (by simp [words])
  | str value => exact oneLine_quoted value
  | dtype value => exact value.oneLine_text.between (by simp [OneLine]) (by simp [OneLine])

theorem StructInfo.oneLine_text_of_words {s : StructInfo} (h : ∀ w ∈ s.words, OneLine w) :
    OneLine s.text := by
  refine StructInfo.oneLine_text ?_
  intro v hv
  exact h v.name (List.mem_map_of_mem hv)

theorem Dim.oneLine_text_of_words {d : Dim} (h : ∀ w ∈ d.words, OneLine w) : OneLine d.text := by
  refine Dim.oneLine_text ?_
  intro v hv
  exact h v.name (List.mem_map_of_mem hv)

theorem Var.oneLine_text {v : Var} (h : OneLine v.hint) : OneLine v.text := by
  exact oneLine_append.mpr ⟨by simp [OneLine], h⟩

theorem Var.oneLine_defText {v : Var} (h : ∀ w ∈ v.defWords, OneLine w) : OneLine v.defText := by
  obtain ⟨hhint, hsinfo⟩ := List.forall_mem_cons.mp h
  unfold defText
  cases hv : v.sinfo with
  | none => exact oneLine_text hhint
  | some s =>
    rw [hv] at hsinfo
    have hs : OneLine s.text := StructInfo.oneLine_text_of_words hsinfo
    have hcolon : OneLine ": " := by simp [OneLine]
    exact hcolon.between (oneLine_text hhint) hs

theorem oneLine_functionHead {params : List Var} {ret : StructInfo} {attrs : Attrs}
    (hparams : ∀ w ∈ params.flatMap Var.defWords, OneLine w) (hret : ∀ w ∈ ret.words, OneLine w)
    (hattrs : ∀ w ∈ Attrs.words attrs, OneLine w) :
    OneLine (functionHead none params ret attrs) := by
  have hdefs : OneLine (inParens (params.map Var.defText)) := by
    apply oneLine_inParens
    refine List.forall_mem_map.mpr ?_
    intro v hv
    exact Var.oneLine_defText (List.forall_mem_flatMap.mp hparams v hv)
  have hattrsText : OneLine (if attrs.isEmpty then "" else " attrs " ++ Attrs.text attrs) := by
    split
    · simp [OneLine]
    · exact oneLine_append.mpr ⟨by simp [OneLine], Attrs.oneLine_text hattrs⟩
  simp only [functionHead, oneLine_append]
  exact ⟨⟨⟨⟨⟨⟨by simp [OneLine], by simp [OneLine]⟩, hdefs⟩, by simp [OneLine]⟩,
    StructInfo.oneLine_text_of_words hret⟩, hattrsText⟩, by simp [OneLine]⟩

end DataflowIR
