import DataflowIR.Proofs.Inference.Summaries
import Mathlib.Data.List.Basic

namespace DataflowIR

namespace Rule

variable {c : Call} {args : List Expr}

/-- The arguments that carry struct info. -/
def annotated (args : List Expr) : List Expr :=
  args.filter fun a => a.sinfo.isSome

private theorem isSome_of_mem_annotated {a : Expr} (h : a ∈ annotated args) : a.sinfo.isSome :=
  (List.mem_filter.mp h).2

private theorem exists_perm_annotated_append (h : ¬∀ a ∈ args, a.sinfo.isSome) :
    ∃ u rest, u.sinfo = none ∧ (annotated args ++ u :: rest).Perm args := by
  have hperm := List.filter_append_perm (fun a : Expr => a.sinfo.isSome) args
  cases hrest : args.filter fun a => !a.sinfo.isSome with
  | nil =>
    have hall := List.filter_eq_nil_iff.mp hrest
    exact absurd (by simpa [Option.isSome_iff_ne_none] using hall) h
  | cons u rest =>
    have hu := (List.mem_filter.mp (hrest ▸ List.mem_cons_self : u ∈ _)).2
    rw [hrest] at hperm
    exact ⟨u, rest, by simpa using hu, hperm⟩

/-- Where an argument has no struct info and the others are tensors of one element type, all that
is known is that there is a value. -/
private theorem elementwise_eq_object (hu : ¬∀ a ∈ c.args, a.sinfo.isSome)
    (ht : UniformTensors (annotated c.args)) : elementwise c = .ok .object := by
  obtain ⟨u, before, after, hc, hb, hnone⟩ : ∃ u before after, c.args = before ++ u :: after ∧
      (∀ a ∈ before, a.sinfo.isSome) ∧ u.sinfo = none := by
    cases hf : c.args.find? fun a => a.sinfo.isNone with
    | none =>
      refine absurd (fun a ha => ?_) hu
      simpa [← Option.isSome_iff_ne_none] using List.find?_eq_none.mp hf a ha
    | some u =>
      obtain ⟨hnone, before, after, hc, hb⟩ := List.find?_eq_some_iff_append.mp hf
      exact ⟨u, before, after, hc, by simpa [← Option.isSome_iff_ne_none] using hb,
        Option.isNone_iff_eq_none.mp hnone⟩
  rcases elementwise_of_unannotated c before hc hb hnone with ⟨-, h⟩ | ⟨hnot, -⟩
  · exact h
  · refine absurd (ht.of_subset fun a ha => ?_) hnot
    exact List.mem_filter.mpr ⟨by rw [hc]; exact List.mem_append_left _ ha, hb a ha⟩

/-- Behind arguments that are refused, one without struct info comes too late. -/
private theorem toOption_elementwise_annotated_append {u : Expr} {rest : List Expr}
    (hc : c.args = annotated args ++ u :: rest) (hu : u.sinfo = none)
    (ht : ¬UniformTensors (annotated args)) : (elementwise c).toOption = none := by
  rcases elementwise_of_unannotated c (annotated args) hc (fun a => isSome_of_mem_annotated) hu
    with ⟨hyes, -⟩ | ⟨-, hnone⟩
  · exact absurd hyes ht
  · exact hnone

/-- Before all others, an argument without struct info keeps them from being looked at. -/
private theorem elementwise_unannotated_cons {u : Expr} {rest : List Expr} (hc : c.args = u :: rest)
    (hu : u.sinfo = none) : elementwise c = .ok .object := by
  rw [elementwise, hc, elementwiseFrom, hu]

private theorem toOption_elementwise_of_perm {c' : Call} (hp : c'.args.Perm c.args)
    (h : ∀ a ∈ c.args, a.sinfo.isSome) : (elementwise c').toOption = (elementwise c).toOption := by
  have hmem : ∀ a, a ∈ c'.args ↔ a ∈ c.args := fun a => hp.mem_iff
  apply Except.toOption_eq_of_ok_iff
  intro s
  rw [elementwise_eq_ok_iff h, elementwise_eq_ok_iff fun a ha => h a ((hmem a).mp ha)]
  simp only [TensorSummary.Sums.congr_mem hmem]

/-- The type of a call is the same for every order of its arguments exactly if all of them carry
struct info, or those that do are tensors of one element type. -/
theorem elementwise_perm_iff (c : Call) :
    (∀ args, args.Perm c.args →
      (elementwise { c with args }).toOption = (elementwise c).toOption) ↔
    (∀ a ∈ c.args, a.sinfo.isSome) ∨ UniformTensors (annotated c.args) := by
  constructor
  · intro h
    by_contra hnot
    obtain ⟨hu, ht⟩ := not_or.mp hnot
    obtain ⟨u, rest, hnone, hlast⟩ := exists_perm_annotated_append hu
    have hfirst : (u :: rest ++ annotated c.args).Perm c.args := List.perm_append_comm.trans hlast
    have hsame := (h _ hfirst).trans (h _ hlast).symm
    rw [elementwise_unannotated_cons rfl hnone,
      toOption_elementwise_annotated_append rfl hnone ht] at hsame
    cases hsame
  · intro h args hp
    by_cases hall : ∀ a ∈ c.args, a.sinfo.isSome
    · exact toOption_elementwise_of_perm hp hall
    · have ht := h.resolve_left hall
      have hall' : ¬∀ a ∈ args, a.sinfo.isSome := fun h' =>
        hall fun a ha => h' a (hp.mem_iff.mpr ha)
      have ht' : UniformTensors (annotated args) := ht.of_subset (hp.filter _).subset
      rw [elementwise_eq_object hall ht, elementwise_eq_object hall' ht']

namespace Arguments

def callee (name : String) : Expr :=
  .mkOp 0 name

def call (name : String) (args : List Expr) : Call :=
  ⟨⟨⟨1, none⟩, none⟩, callee name, args, none, []⟩

def arg (tag : Nat) (s : Option StructInfo) : Expr :=
  .var (.make ⟨tag, none⟩ ⟨tag + 1, "x"⟩ s false)

def float : DType :=
  .float 32

def unannotated : Expr :=
  arg 2 none

def number : Expr :=
  arg 4 (some (.prim (.int 64)))

/-- A tensor of unknown rank. -/
def tensor : Expr :=
  arg 6 (some (.tensorOfNdim StructInfo.unknownNdim float))

def matrix : Expr :=
  arg 8 (some (.tensorOfShape [.int 2, .int 3] float))

def row : Expr :=
  arg 10 (some (.tensorOfShape [.int 3] float))

/-- What is known of the product of the matrix and the row. -/
def productType : StructInfo :=
  .tensorOfNdim 2 float

def product : Call :=
  call "relax.multiply" [matrix, row]

def sum : Call :=
  call "relax.add" [arg 12 (some productType), tensor]

def fused : Call :=
  call "relax.ewise_fma" [matrix, row, tensor]

end Arguments

open Arguments in
/-- A number is refused before an argument without struct info, and not looked at behind it. -/
theorem elementwise_not_perm :
    [number, unannotated].Perm [unannotated, number] ∧
    elementwise (call "relax.add" [unannotated, number]) = .ok .object ∧
    (elementwise (call "relax.add" [number, unannotated])).toOption = none := by
  exact ⟨List.Perm.swap _ _ _, rfl, rfl⟩

/-- Of measured tensors the type of the call has a shape only if all of them have it, and it has the
greatest of their ranks. It claims a rank only where that of every argument is known exactly if all
these ranks are known, or none is greater than the unknown rank. -/
theorem elementwise_ranks_iff (c : Call) (hargs : ∀ a ∈ c.args, a.sinfoOrObject.Measured)
    {s : StructInfo} (h : elementwise c = .ok s) :
    s.elemType?.isSome ∧
    (∀ dims, s.tensorDims? = some dims → ∀ a ∈ c.args, a.sinfoOrObject.tensorDims? = some dims) ∧
    (∀ a ∈ c.args, a.sinfoOrObject.tensorRank ≤ s.tensorRank) ∧
    (s.tensorRank ≠ StructInfo.unknownNdim →
      ∃ a ∈ c.args, a.sinfoOrObject.tensorRank = s.tensorRank) ∧
    ((s.tensorRank ≠ StructInfo.unknownNdim → ∀ a ∈ c.args,
        a.sinfoOrObject.tensorRank ≠ StructInfo.unknownNdim ∧
          a.sinfoOrObject.tensorRank ≤ s.tensorRank) ↔
      (∀ a ∈ c.args, a.sinfoOrObject.tensorRank ≠ StructInfo.unknownNdim) ∨
        ∀ a ∈ c.args, a.sinfoOrObject.tensorRank ≤ StructInfo.unknownNdim) := by
  obtain ⟨t, ht, rfl⟩ := (elementwise_eq_ok_iff fun a ha => (hargs a ha).sinfo_isSome).mp h
  rw [ht.tensorRank_toSinfo hargs, TensorSummary.elemType?_toSinfo,
    TensorSummary.tensorDims?_toSinfo]
  refine ⟨rfl, fun dims => (ht.shape dims).mp, fun a => ht.rank_le, ht.exists_rank_eq, ?_⟩
  constructor
  · intro hknown
    by_cases hk : t.ndim = StructInfo.unknownNdim
    · exact .inr fun a ha => hk ▸ ht.rank_le ha
    · exact .inl fun a ha => (hknown hk a ha).1
  · rintro (hall | hnone) hk a ha
    · exact ⟨hall a ha, ht.rank_le ha⟩
    · have hle := (ht.ndim _).mpr ⟨Int.le_refl _, hnone⟩
      exact absurd (Int.le_antisymm hle ht.unknownNdim_le) hk

open Arguments in
theorem elementwise_ranks_iff_matrices :
    (∀ a ∈ [matrix, row], a.sinfoOrObject.Measured) ∧
    elementwise (call "relax.add" [matrix, row]) = .ok (.tensorOfNdim 2 float) ∧
    ((StructInfo.tensorOfNdim 2 float).tensorRank ≠ StructInfo.unknownNdim →
      ∀ a ∈ [matrix, row], a.sinfoOrObject.tensorRank ≠ StructInfo.unknownNdim ∧
        a.sinfoOrObject.tensorRank ≤ (StructInfo.tensorOfNdim 2 float).tensorRank) := by
  have hargs : ∀ a ∈ [matrix, row], a.sinfoOrObject.Measured := by decide
  have h : elementwise (call "relax.add" [matrix, row]) = .ok (.tensorOfNdim 2 float) := rfl
  refine ⟨hargs, h, ?_⟩
  exact (elementwise_ranks_iff (call "relax.add" [matrix, row]) hargs h).2.2.2.2.mpr (.inl (by
    decide))

open Arguments in
/-- The rank of a sum is known though that of a summand is not. -/
theorem elementwise_rank_claimed :
    (∀ a ∈ [tensor, matrix], a.sinfoOrObject.Measured) ∧
    elementwise (call "relax.add" [tensor, matrix]) = .ok (.tensorOfNdim 2 float) ∧
    (StructInfo.tensorOfNdim 2 float).tensorRank ≠ StructInfo.unknownNdim ∧
    tensor.sinfoOrObject.tensorRank = StructInfo.unknownNdim := by
  exact ⟨by decide, rfl, by decide, rfl⟩

/-- What is to be known of all the arguments can be asked of the summary of some of them. -/
private theorem sums_cons_iff {first rest : List Expr} {t u : TensorSummary} {m : Expr}
    (ht : t.Sums first) (hrank : t.toSinfo.tensorRank = t.ndim) (hm : m.sinfo = some t.toSinfo) :
    u.Sums (m :: rest) ↔ u.Sums (first ++ rest) := by
  have hs := Expr.sinfoOrObject_of_some hm
  refine TensorSummary.Sums.congr (fun d => ?_) (fun dims => ?_) fun n => ?_
  · rw [List.forall_mem_cons, List.forall_mem_append, hs, TensorSummary.elemType?_toSinfo,
      Option.some.injEq]
    exact and_congr_left fun _ => ⟨fun he => he ▸ ht.dtype, ht.dtype_eq⟩
  · rw [List.forall_mem_cons, List.forall_mem_append, hs, TensorSummary.tensorDims?_toSinfo,
      ht.shape]
  · rw [List.forall_mem_cons, List.forall_mem_append, hs, hrank, ht.ndim, and_assoc,
      and_self_left]

/-- The standard rules infer all their operators elementwise. -/
theorem inferCall_standard {name : String} (h : c.isOp name)
    (hn : name ∈ ["relax.add", "relax.multiply", "relax.ewise_fma"]) :
    Rules.standard.inferCall c = elementwise c := by
  have hop : c.callee.asOp? = some name := by simpa [Call.isOp] using h
  have hrule : Rules.standard.find? name = some elementwise := by
    simp only [List.mem_cons, List.not_mem_nil, or_false] at hn
    rcases hn with rfl | rfl | rfl <;> rfl
  rw [Rules.inferCall, hop, Option.bind_some, hrule]

/-- Some of the arguments of an elementwise call, all measured tensors, may be replaced by one that
has the type they are inferred to have together: the call has the same type, or fails as well. So a
product and a sum have the type of both in one operation. -/
theorem elementwise_collapses (part summed joined : Call) (m : Expr) (rest : List Expr)
    {s : StructInfo} (hpart : ∀ a ∈ part.args, a.sinfoOrObject.Measured)
    (hrest : ∀ a ∈ rest, a.sinfoOrObject.Measured) (hs : elementwise part = .ok s)
    (hm : m.sinfo = some s) (hsummed : summed.args = m :: rest)
    (hjoined : joined.args = part.args ++ rest) :
    (elementwise summed).toOption = (elementwise joined).toOption ∧
    (part.isOp "relax.multiply" → summed.isOp "relax.add" → joined.isOp "relax.ewise_fma" →
      Rules.standard.inferCall part = .ok s ∧
      (Rules.standard.inferCall summed).toOption =
        (Rules.standard.inferCall joined).toOption) := by
  have hsame : (elementwise summed).toOption = (elementwise joined).toOption := by
    have hann : ∀ a ∈ rest, a.sinfo.isSome := fun a ha => (hrest a ha).sinfo_isSome
    have hfirst : ∀ a ∈ part.args, a.sinfo.isSome := fun a ha => (hpart a ha).sinfo_isSome
    obtain ⟨t, ht, rfl⟩ := (elementwise_eq_ok_iff hfirst).mp hs
    apply Except.toOption_eq_of_ok_iff
    intro s'
    rw [elementwise_eq_ok_iff (c := summed), elementwise_eq_ok_iff (c := joined), hsummed, hjoined]
    · simp only [sums_cons_iff ht (ht.tensorRank_toSinfo hpart) hm]
    · rw [hjoined, List.forall_mem_append]
      exact ⟨hfirst, hann⟩
    · rw [hsummed, List.forall_mem_cons, hm]
      exact ⟨rfl, hann⟩
  refine ⟨hsame, fun hmul hadd hfma => ?_⟩
  rw [inferCall_standard hmul (by decide), inferCall_standard hadd (by decide),
    inferCall_standard hfma (by decide)]
  exact ⟨hs, hsame⟩

open Arguments in
/-- The sum of a product and a tensor of unknown rank. -/
theorem elementwise_collapses_product :
    (∀ a ∈ product.args, a.sinfoOrObject.Measured) ∧ tensor.sinfoOrObject.Measured ∧
    elementwise product = .ok productType ∧
    Rules.standard.inferCall product = .ok productType ∧
    (Rules.standard.inferCall sum).toOption = (Rules.standard.inferCall fused).toOption := by
  have hpart : ∀ a ∈ product.args, a.sinfoOrObject.Measured := by decide
  have hrest : ∀ a ∈ [tensor], a.sinfoOrObject.Measured := by decide
  have hs : elementwise product = .ok productType := rfl
  have h := elementwise_collapses product sum fused (arg 12 (some productType)) [tensor] hpart hrest
    hs rfl rfl rfl
  refine ⟨hpart, hrest tensor List.mem_cons_self, hs, ?_⟩
  exact h.2 (by decide) (by decide) (by decide)

end Rule

end DataflowIR
