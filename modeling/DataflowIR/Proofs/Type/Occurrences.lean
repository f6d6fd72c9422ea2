import DataflowIR.Proofs.Traversal.PostOrder
import DataflowIR.Type.StructInfo
import Mathlib.Data.List.Induction
import Mathlib.Data.List.Nodup
import Mathlib.Tactic.Tauto

namespace DataflowIR

/-- What a way leads to that starts at one of several trees. -/
def symAmong? {α : Type} (symAt? : α → List Nat → Option SymVar) (xs : List α) :
    List Nat → Option SymVar
  | [] => none
  | i :: way => xs[i]?.bind (symAt? · way)

namespace Dim

def operands : Dim → List Dim
  | int _ | sym _ => []
  | binary _ lhs rhs => [lhs, rhs]

/-- The variable that a way down ends at: at each step it has the number of the operand that it goes
on with. -/
def symAt? (d : Dim) : List Nat → Option SymVar
  | [] => match d with
    | sym v => some v
    | int _ | binary .. => none
  | i :: way => d.operands[i]?.bind (·.symAt? way)

private theorem symAt?_int (value : Int) (way : List Nat) : (int value).symAt? way = none := by
  cases way <;> rfl

private theorem symAt?_binary (op : DimOp) (lhs rhs : Dim) :
    (binary op lhs rhs).symAt? = symAmong? symAt? [lhs, rhs] := by
  funext way
  cases way <;> rfl

end Dim

namespace StructInfo

/-- The variable that a way down ends at: at each step it has the number of the dimension, field or
parameter that it goes on with. The result of a function comes after its parameters. -/
def symAt? : StructInfo → List Nat → Option SymVar
  | shape dims _, way | tensor dims _ _, way => symAmong? Dim.symAt? (dims.getD []) way
  | tuple fields, i :: way => fields[i]?.bind (·.symAt? way)
  | func params ret, i :: way => (params ++ [ret])[i]?.bind (·.symAt? way)
  | opaqueFunc ret, 0 :: way => ret.symAt? way
  | _, _ => none

private theorem symAt?_object (way : List Nat) : object.symAt? way = none := by
  cases way <;> rfl

private theorem symAt?_prim (dtype : DType) (way : List Nat) : (prim dtype).symAt? way = none := by
  cases way <;> rfl

private theorem symAt?_shape (dims : Option (List Dim)) (ndim : Int) :
    (shape dims ndim).symAt? = symAmong? Dim.symAt? (dims.getD []) := by
  funext way
  cases way <;> rfl

private theorem symAt?_tensor (dims : Option (List Dim)) (dtype : DType) (ndim : Int) :
    (tensor dims dtype ndim).symAt? = symAmong? Dim.symAt? (dims.getD []) := by
  funext way
  cases way <;> rfl

private theorem symAt?_tuple (fields : List StructInfo) :
    (tuple fields).symAt? = symAmong? symAt? fields := by
  funext way
  cases way <;> rfl

private theorem symAt?_func (params : List StructInfo) (ret : StructInfo) :
    (func params ret).symAt? = symAmong? symAt? (params ++ [ret]) := by
  funext way
  cases way <;> rfl

private theorem symAt?_opaqueFunc (ret : StructInfo) :
    (opaqueFunc ret).symAt? = symAmong? symAt? [ret] := by
  funext way
  match way with
  | [] | 0 :: way | (i + 1) :: way => rfl

end StructInfo

section Among

variable {α : Type} {symAt? : α → List Nat → Option SymVar} {xs : List α} {x : α}
  {way : List Nat} {v : SymVar}

private theorem exists_lt_of_symAmong? (h : symAmong? symAt? xs way = some v) :
    ∃ i rest, way = i :: rest ∧ i < xs.length := by
  cases way with
  | nil => cases h
  | cons i rest =>
    obtain ⟨y, hy, -⟩ := Option.bind_eq_some_iff.mp h
    exact ⟨i, rest, rfl, (List.getElem?_eq_some_iff.mp hy).1⟩

/-- Ways keep their ends when a tree is added after those that they start at. -/
theorem symAmong?_concat_iff : symAmong? symAt? (xs ++ [x]) way = some v ↔
    symAmong? symAt? xs way = some v ∨ ∃ rest, way = xs.length :: rest ∧ symAt? x rest = some v := by
  cases way with
  | nil => simp [symAmong?]
  | cons i rest =>
    rcases Nat.lt_trichotomy i xs.length with hlt | rfl | hgt
    · simp [symAmong?, List.getElem?_append_left hlt, Nat.ne_of_lt hlt]
    · simp [symAmong?]
    · have hend : (xs ++ [x])[i]? = none := List.getElem?_eq_none (by simp; omega)
      simp [symAmong?, hend, List.getElem?_eq_none (Nat.le_of_lt hgt), Nat.ne_of_gt hgt]

end Among

/-- Some way to `v` is left of all the ways to `w`. -/
def OccursLeft (symAt? : List Nat → Option SymVar) (v w : SymVar) : Prop :=
  ∃ way, symAt? way = some v ∧ ∀ way', symAt? way' = some w → Way.LeftOf way way'

/-- The list has the variables that ways lead to and that were not seen, each once, and in the order
of their first occurrences. -/
structure ListsUnseen (symAt? : List Nat → Option SymVar) (seen added : List SymVar) : Prop where
  nodup : added.Nodup
  mem_iff : ∀ v, v ∈ added ↔ (∃ way, symAt? way = some v) ∧ v ∉ seen
  ordered : added.Pairwise (OccursLeft symAt?)

namespace ListsUnseen

section

variable {symAt? : List Nat → Option SymVar} {seen added : List SymVar} {v : SymVar}

private theorem disjoint (h : ListsUnseen symAt? seen added) : seen.Disjoint added := by
  intro v hseen hadded
  exact ((h.mem_iff v).mp hadded).2 hseen

theorem none (h : ∀ way, symAt? way = Option.none) : ListsUnseen symAt? seen [] where
  nodup := .nil
  mem_iff v := by simp [h]
  ordered := .nil

/-- There is one way, and it ends at once. -/
theorem single (hnil : symAt? [] = some v) (hcons : ∀ i way, symAt? (i :: way) = Option.none) :
    ListsUnseen symAt? seen (if v ∈ seen then [] else [v]) := by
  have hat : ∀ w, (∃ way, symAt? way = some w) ↔ w = v := by
    intro w
    constructor
    · rintro ⟨way, hway⟩
      cases way with
      | nil => exact Option.some.inj (hway.symm.trans hnil)
      | cons i way => rw [hcons] at hway; cases hway
    · rintro rfl
      exact ⟨[], hnil⟩
  split
  · next hseen =>
    refine ⟨.nil, fun w => ?_, .nil⟩
    rw [hat]
    simp only [List.not_mem_nil, false_iff, not_and, not_not]
    rintro rfl
    exact hseen
  · next hseen =>
    refine ⟨List.nodup_singleton v, fun w => ?_, List.pairwise_singleton _ _⟩
    rw [hat, List.mem_singleton]
    exact ⟨fun hw => ⟨hw, hw ▸ hseen⟩, And.left⟩

end

section Concat

variable {α : Type} {symAt? : α → List Nat → Option SymVar} {xs : List α} {x : α}
  {seen before after : List SymVar} {v w : SymVar}

/-- What a tree more brings in lies to the right. -/
private theorem occursLeft_concat {way : List Nat} (hv : symAmong? symAt? xs way = some v)
    (hw : ∀ way', symAmong? symAt? xs way' = some w → Way.LeftOf way way') :
    OccursLeft (symAmong? symAt? (xs ++ [x])) v w := by
  refine ⟨way, symAmong?_concat_iff.mpr (.inl hv), fun way' hway' => ?_⟩
  rcases symAmong?_concat_iff.mp hway' with hway' | ⟨rest', rfl, -⟩
  · exact hw way' hway'
  · obtain ⟨i, rest, rfl, hi⟩ := exists_lt_of_symAmong? hv
    exact Way.leftOf_of_lt hi rest rest'

/-- Of variables that are only in the last tree, the order there is their order. -/
private theorem occursLeft_last (h : OccursLeft (symAt? x) v w)
    (hw : ∀ way', symAmong? symAt? xs way' ≠ some w) :
    OccursLeft (symAmong? symAt? (xs ++ [x])) v w := by
  obtain ⟨way, hv, hleft⟩ := h
  refine ⟨xs.length :: way, symAmong?_concat_iff.mpr (.inr ⟨way, rfl, hv⟩), fun way' hway' => ?_⟩
  rcases symAmong?_concat_iff.mp hway' with hway' | ⟨rest', rfl, hrest'⟩
  · exact absurd hway' (hw way')
  · exact (hleft rest' hrest').cons xs.length

/-- The last tree is gone through with all that the trees before it brought in among the variables
seen. -/
theorem concat (h : ListsUnseen (symAmong? symAt? xs) seen before)
    (hx : ListsUnseen (symAt? x) (seen ++ before) after) :
    ListsUnseen (symAmong? symAt? (xs ++ [x])) seen (before ++ after) := by
  have hat : ∀ w, (∃ way, symAmong? symAt? (xs ++ [x]) way = some w) ↔
      (∃ way, symAmong? symAt? xs way = some w) ∨ ∃ way, symAt? x way = some w := by
    intro w
    simp only [symAmong?_concat_iff, exists_or]
    exact or_congr_right ⟨fun ⟨_, rest, _, hr⟩ => ⟨rest, hr⟩, fun ⟨rest, hr⟩ => ⟨_, rest, rfl, hr⟩⟩
  -- a variable of an earlier tree was seen or is listed before
  have hnew : ∀ w ∈ after, ∀ way, symAmong? symAt? xs way ≠ some w := by
    intro w hw way hway
    have hunseen : w ∉ seen ++ before := ((hx.mem_iff w).mp hw).2
    rw [List.mem_append, not_or] at hunseen
    exact hunseen.2 ((h.mem_iff w).mpr ⟨⟨way, hway⟩, hunseen.1⟩)
  constructor
  · have hdisjoint : before.Disjoint after := (List.disjoint_append_left.mp hx.disjoint).2
    exact List.nodup_append'.mpr ⟨h.nodup, hx.nodup, hdisjoint⟩
  · intro w
    rw [List.mem_append, h.mem_iff, hx.mem_iff, hat, List.mem_append, h.mem_iff]
    tauto
  · refine List.pairwise_append.mpr ⟨?_, ?_, ?_⟩
    · exact h.ordered.imp fun ⟨_, hv, hw⟩ => occursLeft_concat hv hw
    · exact hx.ordered.imp_of_mem fun _ hw hvw => occursLeft_last hvw (hnew _ hw)
    · intro v hv w hw
      obtain ⟨way, hway⟩ := ((h.mem_iff v).mp hv).1
      exact occursLeft_concat hway fun way' hway' => absurd hway' (hnew w hw way')

end Concat

end ListsUnseen

/-- The unseen variables are put behind those seen. -/
def AddsUnseen (symAt? : List Nat → Option SymVar) (seen all : List SymVar) : Prop :=
  ∃ added, all = seen ++ added ∧ ListsUnseen symAt? seen added

namespace AddsUnseen

theorem none {symAt? : List Nat → Option SymVar} (h : ∀ way, symAt? way = Option.none)
    (seen : List SymVar) : AddsUnseen symAt? seen seen := by
  exact ⟨[], (List.append_nil seen).symm, .none h⟩

/-- By induction on the trees from the end, so that the numbers of those before stay. -/
theorem among {α : Type} {add : List SymVar → α → List SymVar}
    {symAt? : α → List Nat → Option SymVar} {xs : List α}
    (h : ∀ x ∈ xs, ∀ seen, AddsUnseen (symAt? x) seen (add seen x)) (seen : List SymVar) :
    AddsUnseen (symAmong? symAt? xs) seen (xs.foldl add seen) := by
  induction xs using List.reverseRecOn with
  | nil =>
    apply none
    intro way
    cases way <;> rfl
  | append_singleton xs x ih =>
    obtain ⟨before, hbefore, hxs⟩ := ih fun y hy => h y (List.mem_append_left _ hy)
    obtain ⟨after, hafter, hx⟩ := h x (by simp) (seen ++ before)
    refine ⟨before ++ after, ?_, hxs.concat hx⟩
    rw [List.foldl_append, List.foldl_cons, List.foldl_nil, hbefore, hafter, List.append_assoc]

end AddsUnseen

theorem Dim.addSyms_addsUnseen (d : Dim) (seen : List SymVar) :
    AddsUnseen d.symAt? seen (d.addSyms seen) := by
  induction d generalizing seen with
  | int value => exact .none (symAt?_int value) seen
  | sym v =>
    refine ⟨if v ∈ seen then [] else [v], ?_, .single rfl fun _ _ => rfl⟩
    simp only [addSyms]
    split
    · rw [List.append_nil]
    · rfl
  | binary op lhs rhs ihl ihr =>
    have hadd : (binary op lhs rhs).addSyms seen = [lhs, rhs].foldl addSyms seen := rfl
    rw [symAt?_binary, hadd]
    apply AddsUnseen.among
    simp only [List.forall_mem_cons]
    exact ⟨ihl, ihr, nofun⟩

namespace StructInfo

private theorem addSymsOfList_eq_foldl (seen : List SymVar) (ss : List StructInfo) :
    addSymsOfList seen ss = ss.foldl addSyms seen := by
  induction ss generalizing seen with
  | nil => rfl
  | cons s rest ih => exact ih (s.addSyms seen)

mutual

theorem addSyms_addsUnseen (s : StructInfo) :
    (seen : List SymVar) → AddsUnseen s.symAt? seen (s.addSyms seen) := by
  match s with
  | object =>
    intro seen
    rw [addSyms]
    exact .none symAt?_object seen
  | prim dtype =>
    intro seen
    rw [addSyms]
    exact .none (symAt?_prim dtype) seen
  | shape dims ndim =>
    intro seen
    rw [symAt?_shape, addSyms]
    exact AddsUnseen.among (fun d _ => d.addSyms_addsUnseen) seen
  | tensor dims dtype ndim =>
    intro seen
    rw [symAt?_tensor, addSyms]
    exact AddsUnseen.among (fun d _ => d.addSyms_addsUnseen) seen
  | tuple fields =>
    intro seen
    rw [symAt?_tuple, addSyms, addSymsOfList_eq_foldl]
    exact AddsUnseen.among (forall_addSyms_addsUnseen fields) seen
  | func params ret =>
    intro seen
    have hparts : ∀ s ∈ params ++ [ret], ∀ seen, AddsUnseen s.symAt? seen (s.addSyms seen) := by
      rw [List.forall_mem_append, List.forall_mem_singleton]
      exact ⟨forall_addSyms_addsUnseen params, addSyms_addsUnseen ret⟩
    have hadd : (func params ret).addSyms seen = (params ++ [ret]).foldl addSyms seen := by
      rw [addSyms, addSymsOfList_eq_foldl, List.foldl_append, List.foldl_cons, List.foldl_nil]
    rw [symAt?_func, hadd]
    exact AddsUnseen.among hparts seen
  | opaqueFunc ret =>
    intro seen
    have hadd : (opaqueFunc ret).addSyms seen = [ret].foldl addSyms seen := by
      rw [addSyms, List.foldl_cons, List.foldl_nil]
    rw [symAt?_opaqueFunc, hadd]
    exact AddsUnseen.among (List.forall_mem_singleton.mpr (addSyms_addsUnseen ret)) seen

theorem forall_addSyms_addsUnseen (ss : List StructInfo) :
    ∀ s ∈ ss, ∀ seen, AddsUnseen s.symAt? seen (s.addSyms seen) := by
  cases ss with
  | nil => nofun
  | cons s rest =>
    exact List.forall_mem_cons.mpr ⟨addSyms_addsUnseen s, forall_addSyms_addsUnseen rest⟩

end

/-- The symbolic variables of a struct info are listed exactly: all that a way leads to, each once,
and in the order in which they first occur. Where the index determines the variable, no index is
listed twice, whatever the names are. A dimension adds to distinct variables seen before exactly
those of its own that are not among them, again each once and in order. -/
theorem syms_enumerate (s : StructInfo) :
    s.syms.Nodup ∧
    (∀ v, v ∈ s.syms ↔ ∃ way, s.symAt? way = some v) ∧
    s.syms.Pairwise (OccursLeft s.symAt?) ∧
    ((∀ way way' v w, s.symAt? way = some v → s.symAt? way' = some w → v.index = w.index → v = w) →
      (s.syms.map SymVar.index).Nodup) ∧
    ∀ (d : Dim) (seen : List SymVar), seen.Nodup →
      ∃ added, d.addSyms seen = seen ++ added ∧
        (seen ++ added).Nodup ∧
        (∀ v, v ∈ added ↔ (∃ way, d.symAt? way = some v) ∧ v ∉ seen) ∧
        added.Pairwise (OccursLeft d.symAt?) := by
  obtain ⟨added, hadded, h⟩ := s.addSyms_addsUnseen []
  obtain rfl : s.syms = added := hadded
  have hmem : ∀ v, v ∈ s.syms ↔ ∃ way, s.symAt? way = some v := by
    intro v
    rw [h.mem_iff]
    exact and_iff_left List.not_mem_nil
  refine ⟨h.nodup, hmem, h.ordered, fun hindex => h.nodup.map_on ?_, fun d seen hseen => ?_⟩
  · intro v hv w hw hvw
    obtain ⟨way, hway⟩ := (hmem v).mp hv
    obtain ⟨way', hway'⟩ := (hmem w).mp hw
    exact hindex way way' v w hway hway' hvw
  · obtain ⟨added, hadded, hd⟩ := d.addSyms_addsUnseen seen
    have hall : (seen ++ added).Nodup := List.nodup_append'.mpr ⟨hseen, hd.nodup, hd.disjoint⟩
    exact ⟨added, hadded, hall, hd.mem_iff, hd.ordered⟩

/-- Two variables of one name, both used again, beside a shape without known dimensions. -/
theorem syms_enumerate_namesakes :
    let n (index : Nat) : SymVar := ⟨index, "n", .int64⟩
    let m : SymVar := ⟨2, "m", .int64⟩
    let square : Dim := .binary .mul (.sym (n 1)) (.sym (n 0))
    let s : StructInfo := .func [.shapeOf [.sym (n 0), square], .shape none unknownNdim]
      (.tuple [.object, .opaqueFunc (.tensorOfShape [.binary .add (.sym m) (.sym (n 1))] .bool)])
    (∀ way way' v w, s.symAt? way = some v → s.symAt? way' = some w → v.index = w.index → v = w) ∧
      s.syms = [n 0, n 1, m] ∧ (s.syms.map SymVar.index).Nodup ∧ OccursLeft s.symAt? (n 1) m ∧
      [m, n 0].Nodup ∧ square.addSyms [m, n 0] = [m, n 0] ++ [n 1] ∧
      ∃ added, square.addSyms [m, n 0] = [m, n 0] ++ added ∧ ([m, n 0] ++ added).Nodup ∧
        (∀ v, v ∈ added ↔ (∃ way, square.symAt? way = some v) ∧ v ∉ [m, n 0]) ∧
        added.Pairwise (OccursLeft square.symAt?) := by
  intro n m square s
  obtain ⟨-, hmem, hordered, hindices, hdim⟩ := syms_enumerate s
  have hsyms : s.syms = [n 0, n 1, m] := by decide
  have hindex : ∀ v ∈ s.syms, ∀ w ∈ s.syms, v.index = w.index → v = w := by decide
  have hdetermined : ∀ way way' v w, s.symAt? way = some v → s.symAt? way' = some w →
      v.index = w.index → v = w := by
    intro way way' v w hv hw
    exact hindex v ((hmem v).mpr ⟨way, hv⟩) w ((hmem w).mpr ⟨way', hw⟩)
  have hleft : OccursLeft s.symAt? (n 1) m := by
    rw [hsyms] at hordered
    simpa using (List.pairwise_cons.mp hordered).2
  have hseen : [m, n 0].Nodup := by decide
  exact ⟨hdetermined, hsyms, hindices hdetermined, hleft, hseen, by decide, hdim square _ hseen⟩

end StructInfo

end DataflowIR
