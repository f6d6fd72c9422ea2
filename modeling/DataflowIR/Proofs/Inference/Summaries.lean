import DataflowIR.Build.Inference
import DataflowIR.Proofs.Scoping.Checks
import Mathlib.Data.List.Basic

namespace DataflowIR

namespace StructInfo

/-- The element type of a tensor. -/
def elemType? : StructInfo → Option DType
  | tensor _ dtype _ => some dtype
  | _ => none

/-- The dimensions of a tensor, if they are known. -/
def tensorDims? : StructInfo → Option (List Dim)
  | tensor dims _ _ => dims
  | _ => none

/-- The rank of a tensor, `unknownNdim` if it is not known. -/
def tensorRank : StructInfo → Int
  | tensor _ _ ndim => ndim
  | _ => unknownNdim

/-- A tensor whose rank is the number of its dimensions, if these are known. -/
def Measured (s : StructInfo) : Prop :=
  s.elemType?.isSome ∧ ∀ dims ∈ s.tensorDims?, s.tensorRank = dims.length

instance (s : StructInfo) : Decidable s.Measured :=
  inferInstanceAs (Decidable (_ ∧ _))

end StructInfo

/-- The expressions are tensors, all of one element type. -/
def UniformTensors (args : List Expr) : Prop :=
  ∃ dtype, ∀ a ∈ args, a.sinfoOrObject.elemType? = some dtype

theorem UniformTensors.of_subset {args more : List Expr} (h : UniformTensors more)
    (hs : args ⊆ more) : UniformTensors args := by
  refine h.imp ?_
  intro _ hd a ha
  exact hd a (hs ha)

theorem Expr.sinfoOrObject_of_some {a : Expr} {s : StructInfo} (h : a.sinfo = some s) :
    a.sinfoOrObject = s := by
  rw [sinfoOrObject, h, Option.getD_some]

theorem StructInfo.Measured.sinfo_isSome {a : Expr} (h : a.sinfoOrObject.Measured) :
    a.sinfo.isSome := by
  cases hs : a.sinfo with
  | some s => rfl
  | none =>
    rw [Expr.sinfoOrObject, hs] at h
    exact absurd h.1 Bool.false_ne_true

namespace TensorSummary

/-- The arguments are tensors of the element type of `t`. It has a shape if that is the shape of
each of them, and its rank is the least that no rank of theirs exceeds, nor the unknown rank. -/
structure Sums (t : TensorSummary) (args : List Expr) : Prop where
  dtype : ∀ a ∈ args, a.sinfoOrObject.elemType? = some t.dtype
  shape : ∀ dims, t.shape = some dims ↔ ∀ a ∈ args, a.sinfoOrObject.tensorDims? = some dims
  ndim : ∀ n, t.ndim ≤ n ↔
    StructInfo.unknownNdim ≤ n ∧ ∀ a ∈ args, a.sinfoOrObject.tensorRank ≤ n

namespace Sums

variable {t u : TensorSummary} {args : List Expr}

theorem uniform (h : t.Sums args) : UniformTensors args := by
  exact ⟨t.dtype, h.dtype⟩

/-- No arguments would have every shape. -/
theorem ne_nil (h : t.Sums args) : args ≠ [] := by
  rintro rfl
  have h0 := (h.shape []).mpr nofun
  have h1 := (h.shape [.int 0]).mpr nofun
  rw [h0] at h1
  cases h1

theorem dtype_eq (h : t.Sums args) {d : DType}
    (hd : ∀ a ∈ args, a.sinfoOrObject.elemType? = some d) : t.dtype = d := by
  obtain ⟨a, ha⟩ := List.exists_mem_of_ne_nil args h.ne_nil
  exact Option.some.inj ((h.dtype a ha).symm.trans (hd a ha))

private theorem unique (h : t.Sums args) (k : u.Sums args) : t = u := by
  have hd : t.dtype = u.dtype := h.dtype_eq k.dtype
  have hs : t.shape = u.shape := by
    ext dims
    exact (h.shape dims).trans (k.shape dims).symm
  have hn : t.ndim = u.ndim :=
    Int.le_antisymm ((h.ndim _).mpr ((k.ndim _).mp (Int.le_refl _)))
      ((k.ndim _).mpr ((h.ndim _).mp (Int.le_refl _)))
  cases t
  cases u
  cases hd
  cases hs
  cases hn
  rfl

/-- Arguments of which the same is to be known. -/
theorem congr {args' : List Expr}
    (hdtype : ∀ d, (∀ a ∈ args, a.sinfoOrObject.elemType? = some d) ↔
      ∀ a ∈ args', a.sinfoOrObject.elemType? = some d)
    (hshape : ∀ dims, (∀ a ∈ args, a.sinfoOrObject.tensorDims? = some dims) ↔
      ∀ a ∈ args', a.sinfoOrObject.tensorDims? = some dims)
    (hndim : ∀ n, (StructInfo.unknownNdim ≤ n ∧ ∀ a ∈ args, a.sinfoOrObject.tensorRank ≤ n) ↔
      StructInfo.unknownNdim ≤ n ∧ ∀ a ∈ args', a.sinfoOrObject.tensorRank ≤ n) :
    t.Sums args ↔ t.Sums args' := by
  constructor
  · intro h
    exact ⟨(hdtype _).mp h.dtype, fun dims => (h.shape dims).trans (hshape dims),
      fun n => (h.ndim n).trans (hndim n)⟩
  · intro h
    exact ⟨(hdtype _).mpr h.dtype, fun dims => (h.shape dims).trans (hshape dims).symm,
      fun n => (h.ndim n).trans (hndim n).symm⟩

/-- A summary tells neither the order of the arguments nor how often one is among them. -/
theorem congr_mem {args' : List Expr} (hm : ∀ a, a ∈ args ↔ a ∈ args') :
    t.Sums args ↔ t.Sums args' := by
  refine congr ?_ ?_ ?_
  · intro _
    simp only [hm]
  · intro _
    simp only [hm]
  · intro _
    simp only [hm]

variable {a : Expr} {dims : Option (List Dim)} {dtype : DType} {ndim : Int}

theorem single (ha : a.sinfo = some (.tensor dims dtype ndim)) :
    Sums ⟨dtype, dims, max StructInfo.unknownNdim ndim⟩ [a] := by
  have hs := Expr.sinfoOrObject_of_some ha
  constructor
  · simp [hs, StructInfo.elemType?]
  · simp [hs, StructInfo.tensorDims?]
  · intro n
    rw [List.forall_mem_singleton, hs]
    exact Int.max_le

theorem add (h : t.Sums args) (ha : a.sinfo = some (.tensor dims t.dtype ndim)) :
    (t.add dims ndim).Sums (args ++ [a]) := by
  have hs := Expr.sinfoOrObject_of_some ha
  constructor
  · rw [List.forall_mem_append]
    exact ⟨h.dtype, by simp [hs, StructInfo.elemType?, TensorSummary.add]⟩
  · intro d
    rw [List.forall_mem_append, ← h.shape, List.forall_mem_singleton, hs]
    change (if t.shape = dims then t.shape else none) = some d ↔ t.shape = some d ∧ dims = some d
    split
    · next he => rw [← he, and_self]
    · next hne => exact ⟨nofun, fun ⟨ht, hd⟩ => absurd (ht.trans hd.symm) hne⟩
  · intro n
    rw [List.forall_mem_append, ← and_assoc, ← h.ndim, List.forall_mem_singleton, hs]
    exact Int.max_le

theorem rank_le (h : t.Sums args) {a : Expr} (ha : a ∈ args) :
    a.sinfoOrObject.tensorRank ≤ t.ndim :=
  ((h.ndim t.ndim).mp (Int.le_refl _)).2 a ha

theorem unknownNdim_le (h : t.Sums args) : StructInfo.unknownNdim ≤ t.ndim :=
  ((h.ndim t.ndim).mp (Int.le_refl _)).1

/-- Otherwise the rank below would do. -/
theorem exists_rank_eq (h : t.Sums args) (hk : t.ndim ≠ StructInfo.unknownNdim) :
    ∃ a ∈ args, a.sinfoOrObject.tensorRank = t.ndim := by
  by_contra hnot
  have hle := h.unknownNdim_le
  have hless : ∀ a ∈ args, a.sinfoOrObject.tensorRank ≤ t.ndim - 1 := by
    intro a ha
    have hne : a.sinfoOrObject.tensorRank ≠ t.ndim := fun he => hnot ⟨a, ha, he⟩
    have := h.rank_le ha
    omega
  have := (h.ndim (t.ndim - 1)).mpr ⟨by omega, hless⟩
  omega

/-- Of measured arguments the summary knows the rank where it knows the shape. -/
theorem tensorRank_toSinfo (h : t.Sums args) (hm : ∀ a ∈ args, a.sinfoOrObject.Measured) :
    t.toSinfo.tensorRank = t.ndim := by
  unfold toSinfo
  split
  · next dims hd =>
    have hall := (h.shape dims).mp hd
    have hrank : ∀ a ∈ args, a.sinfoOrObject.tensorRank = dims.length :=
      fun a ha => (hm a ha).2 dims (hall a ha)
    obtain ⟨a, ha⟩ := List.exists_mem_of_ne_nil args h.ne_nil
    have hle := h.rank_le ha
    rw [hrank a ha] at hle
    refine Int.le_antisymm hle ((h.ndim _).mpr ⟨?_, fun b hb => Int.le_of_eq (hrank b hb)⟩)
    exact Int.le_trans (by decide) (Int.natCast_nonneg dims.length)
  · rfl

end Sums

@[simp] theorem elemType?_toSinfo (t : TensorSummary) : t.toSinfo.elemType? = some t.dtype := by
  unfold toSinfo
  split <;> rfl

@[simp] theorem tensorDims?_toSinfo (t : TensorSummary) : t.toSinfo.tensorDims? = t.shape := by
  unfold toSinfo
  split
  · next h => exact h.symm
  · next h => exact h.symm

end TensorSummary

namespace Rule

/-- What the rule remembers of the arguments before. -/
def Remembers (before : List Expr) : Option TensorSummary → Prop
  | none => before = []
  | some t => t.Sums before

variable {before args : List Expr} {seen : Option TensorSummary} {a : Expr} {c : Call}
  {s : StructInfo}

/-- One argument with struct info: the rule goes on with it in the summary, or fails since the
arguments are no tensors of one element type. -/
private theorem elementwiseFrom_cons (callee : Expr) (h : Remembers before seen)
    (ha : a.sinfo.isSome) :
    (∃ t, t.Sums (before ++ [a]) ∧ ∀ rest,
      elementwiseFrom callee seen (a :: rest) = elementwiseFrom callee (some t) rest) ∨
    (¬UniformTensors (before ++ [a]) ∧ ∀ rest,
      (elementwiseFrom callee seen (a :: rest)).toOption = none) := by
  obtain ⟨s, hs⟩ := Option.isSome_iff_exists.mp ha
  have hso := Expr.sinfoOrObject_of_some hs
  cases s with
  | tensor dims dtype ndim =>
    cases seen with
    | none =>
      obtain rfl : before = [] := h
      exact .inl ⟨_, .single hs, fun rest => by rw [elementwiseFrom, hs]⟩
    | some t =>
      by_cases hd : t.dtype = dtype
      · subst hd
        exact .inl ⟨_, TensorSummary.Sums.add h hs, fun rest => by
          rw [elementwiseFrom, hs]
          exact if_pos rfl⟩
      · refine .inr ⟨?_, fun rest => ?_⟩
        · rintro ⟨d, hall⟩
          rw [List.forall_mem_append, List.forall_mem_singleton, hso] at hall
          exact hd ((TensorSummary.Sums.dtype_eq h hall.1).trans (Option.some.inj hall.2).symm)
        · rw [elementwiseFrom, hs]
          simp only [if_neg hd, Except.toOption]
  | _ =>
    refine .inr ⟨?_, fun rest => by rw [elementwiseFrom, hs]; rfl⟩
    rintro ⟨d, hall⟩
    have hlast := hall a (by simp)
    rw [hso] at hlast
    cases hlast

/-- By induction on the arguments, with what was seen before them growing. -/
private theorem elementwiseFrom_append (callee : Expr) (before : List Expr)
    (seen : Option TensorSummary) (h : Remembers before seen)
    (hargs : ∀ a ∈ args, a.sinfo.isSome) :
    (∃ seen', Remembers (before ++ args) seen' ∧ ∀ rest,
      elementwiseFrom callee seen (args ++ rest) = elementwiseFrom callee seen' rest) ∨
    (¬UniformTensors (before ++ args) ∧ ∀ rest,
      (elementwiseFrom callee seen (args ++ rest)).toOption = none) := by
  induction args generalizing before seen with
  | nil => exact .inl ⟨seen, by rwa [List.append_nil], fun _ => rfl⟩
  | cons a args ih =>
    rw [List.forall_mem_cons] at hargs
    rcases elementwiseFrom_cons callee h hargs.1 with ⟨t, ht, hgo⟩ | ⟨hnot, hfail⟩
    · rw [List.append_cons]
      simp only [List.cons_append, hgo]
      exact ih (before ++ [a]) (some t) ht hargs.2
    · refine .inr ⟨fun hu => hnot (hu.of_subset ?_), fun rest => hfail (args ++ rest)⟩
      rw [List.append_cons before a args]
      exact List.subset_append_left _ _

/-- On arguments with struct info, success is having a summary. -/
theorem elementwise_eq_ok_iff (h : ∀ a ∈ c.args, a.sinfo.isSome) :
    elementwise c = .ok s ↔ ∃ t : TensorSummary, t.Sums c.args ∧ t.toSinfo = s := by
  rw [elementwise, ← List.append_nil c.args]
  rcases elementwiseFrom_append c.callee [] none rfl h with ⟨seen, hseen, hgo⟩ | ⟨hnot, hfail⟩
  · rw [hgo, List.append_nil]
    cases seen with
    | none => exact ⟨nofun, fun ⟨t, ht, _⟩ => absurd hseen ht.ne_nil⟩
    | some u =>
      rw [elementwiseFrom, Except.ok.injEq]
      refine ⟨fun he => ⟨u, hseen, he⟩, ?_⟩
      rintro ⟨t, ht, rfl⟩
      rw [TensorSummary.Sums.unique hseen ht]
  · rw [← Except.toOption_eq_some_iff, hfail, List.append_nil]
    exact ⟨nofun, fun ⟨t, ht, _⟩ => absurd ht.uniform hnot⟩

/-- Nothing after an argument without struct info is looked at. -/
theorem elementwise_of_unannotated (c : Call) (before : List Expr) {after : List Expr} {u : Expr}
    (hc : c.args = before ++ u :: after) (hb : ∀ a ∈ before, a.sinfo.isSome)
    (hu : u.sinfo = none) :
    (UniformTensors before ∧ elementwise c = .ok .object) ∨
      (¬UniformTensors before ∧ (elementwise c).toOption = none) := by
  rw [elementwise, hc]
  rcases elementwiseFrom_append c.callee [] none rfl hb with ⟨seen, hseen, hgo⟩ | ⟨hnot, hfail⟩
  · refine .inl ⟨?_, by rw [hgo, elementwiseFrom, hu]⟩
    cases seen with
    | none =>
      obtain rfl : before = [] := hseen
      exact ⟨.void, nofun⟩
    | some t => exact TensorSummary.Sums.uniform hseen
  · exact .inr ⟨hnot, hfail _⟩

end Rule

end DataflowIR
