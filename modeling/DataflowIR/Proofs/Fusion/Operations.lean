import DataflowIR.Proofs.Scoping.Trace
import Mathlib.Logic.Function.Basic

namespace DataflowIR.Scope

/-- What the factors of the recorded products mention. -/
abbrev Records := Id → Option (List Mention)

def Op.after (r : Records) : Op → Records
  | .record id factors => Function.update r id factors
  | _ => r

/-- A sum whose first operand is on record as a product. -/
def Op.fused? (r : Records) : Op → Option (List Mention)
  | .sum _ id => r id
  | _ => none

/-- The check comes to the operation, with what is in scope and on record then. -/
inductive Comes (known : String → Bool) : Walk → Records → List Op → Op → Walk → Records → Prop
  | here {w r op ops} : Comes known w r (op :: ops) op w r
  | later {w w1 w' r r' op op' ops} (h : step known op w = some w1)
      (hs : Comes known w1 (op.after r) ops op' w' r') : Comes known w r (op :: ops) op' w' r'

/-- Wherever a sum of a recorded product stands, all that the factors mention is in scope. -/
def FactorsInScope (known : String → Bool) (w : Walk) (r : Records) (ops : List Op) : Prop :=
  ∀ op w' r' factors, Comes known w r ops op w' r' → op.fused? r' = some factors →
    ∀ m ∈ factors, w'.scope.Allows known m

/-- No dataflow block without bindings stands inside a dataflow block. -/
def HollowOutside (known : String → Bool) (w : Walk) (r : Records) (ops : List Op) : Prop :=
  ∀ w' r', Comes known w r ops .hollow w' r' → w'.scope.inDataflow = false

section Comes

variable {known : String → Bool} {w : Walk} {r : Records} {op : Op} {ops : List Op}

theorem Comes.mem {w' : Walk} {r' : Records} (h : Comes known w r ops op w' r') : op ∈ ops := by
  induction h with
  | here => exact List.mem_cons_self
  | later _ _ ih => exact List.mem_cons_of_mem _ ih

theorem HollowOutside.of_not_mem (h : .hollow ∉ ops) : HollowOutside known w r ops := by
  intro _ _ hc
  exact absurd hc.mem h

theorem HollowOutside.cons (h : HollowOutside known w r (op :: ops)) {w1 : Walk}
    (hs : step known op w = some w1) : HollowOutside known w1 (op.after r) ops := by
  intro w' r' hc
  exact h w' r' (.later hs hc)

private theorem factorsInScope_nil : FactorsInScope known w r [] := by
  intro op w' r' factors hc
  cases hc

theorem factorsInScope_cons : FactorsInScope known w r (op :: ops) ↔
    (∀ factors, op.fused? r = some factors → ∀ m ∈ factors, w.scope.Allows known m) ∧
      ∀ w1, step known op w = some w1 → FactorsInScope known w1 (op.after r) ops := by
  constructor
  · exact fun h => ⟨fun factors hf => h op w r factors .here hf,
      fun w1 hs op' w' r' factors hc => h op' w' r' factors (.later hs hc)⟩
  · rintro ⟨hhere, hlater⟩ op' w' r' factors hc
    cases hc with
    | here => exact hhere factors
    | later hs hc => exact hlater _ hs op' w' r' factors hc

instance decidableFactorsInScope (known : String → Bool) :
    (ops : List Op) → (w : Walk) → (r : Records) → Decidable (FactorsInScope known w r ops)
  | [], _, _ => .isTrue factorsInScope_nil
  | op :: ops, w, r =>
    have := decidableFactorsInScope known ops
    have : Decidable (∀ factors, op.fused? r = some factors →
        ∀ m ∈ factors, w.scope.Allows known m) :=
      match op.fused? r with
      | none => .isTrue nofun
      | some factors => decidable_of_iff (∀ m ∈ factors, w.scope.Allows known m) (by simp)
    have : Decidable (∀ w1, step known op w = some w1 → FactorsInScope known w1 (op.after r) ops) :=
      match step known op w with
      | none => .isTrue nofun
      | some w1 => decidable_of_iff (FactorsInScope known w1 (op.after r) ops) (by simp)
    decidable_of_iff _ factorsInScope_cons.symm

end Comes

/-- The operations before and after fusing, with what is on record before and after them. -/
inductive Fuses : Records → List Op → List Op → Records → Prop
  | nil {r} : Fuses r [] [] r
  | keep {r r' op ops ops'} (h : op.fused? r = none) (hs : Fuses (op.after r) ops ops' r') :
      Fuses r (op :: ops) (op :: ops') r'
  | fuse {r r' ss id dataflow factors ops ops'} (h : r id = some factors)
      (hs : Fuses r ops ops' r') :
      Fuses r (.sum ss id :: .mention (.var id dataflow) :: ops)
        (.mention (.syms []) :: (factors.map .mention ++ ops')) r'
  /-- A block without bindings may be left out. -/
  | drop {r r' ops ops'} (hs : Fuses r ops ops' r') : Fuses r (.hollow :: ops) ops' r'

namespace Fuses

variable {r r' r'' : Records} {ops ops' more more' : List Op}

theorem append (h : Fuses r ops ops' r') (k : Fuses r' more more' r'') :
    Fuses r (ops ++ more) (ops' ++ more') r'' := by
  induction h with
  | nil => exact k
  | keep h _ ih => exact .keep h (ih k)
  | fuse h _ ih =>
    simpa only [List.cons_append, List.append_assoc] using Fuses.fuse h (ih k)
  | drop _ ih => exact .drop (ih k)

theorem single {op : Op} (h : op.fused? r = none) : Fuses r [op] [op] (op.after r) :=
  .keep h .nil

theorem mentions (ms : List Mention) : Fuses r (ms.map .mention) (ms.map .mention) r := by
  induction ms with
  | nil => exact .nil
  | cons m ms ih => exact .keep rfl ih

theorem params (vs : List Var) :
    Fuses r (vs.flatMap Var.paramOps) (vs.flatMap Var.paramOps) r := by
  induction vs with
  | nil => exact .nil
  | cons v vs ih => exact .keep rfl (.keep rfl ih)

theorem nested (h : Fuses r ops ops' r') : Fuses r (nested ops) (nested ops') r' :=
  .keep rfl (h.append (single rfl))

theorem of_hollow (h : Fuses r ops [.hollow] r') : Fuses r ops [] r' := by
  generalize hops : [Op.hollow] = ops' at h
  induction h with
  | nil => cases hops
  | keep _ hs =>
    cases hops
    exact .drop hs
  | fuse => cases hops
  | drop _ ih => exact .drop (ih hops)

end Fuses

/-- Outside dataflow blocks no dataflow variable is in scope. -/
def Walk.Settled (w : Walk) : Prop :=
  w.scope.inDataflow = false → w.scope.dataflowVars = []

theorem Walk.Settled.step {known : String → Bool} {op : Op} {w w' : Walk} (hw : w.Settled)
    (h : Scope.step known op w = some w') : w'.Settled := by
  cases op with
  | mention | sum =>
    obtain ⟨rfl, -⟩ := require_eq h
    exact hw
  | define id dataflow =>
    obtain ⟨sc, hsc, rfl⟩ := Option.map_eq_some_iff.mp h
    unfold define? at hsc
    split at hsc
    · split at hsc
      · next hd =>
        cases hsc
        exact fun hn => by simp [hd.1] at hn
      · cases hsc
    · split at hsc
      · cases hsc
        exact hw
      · cases hsc
  | conditional =>
    simp only [Scope.step] at h
    split at h
    · cases h
    · cases h
      exact hw
  | leave =>
    obtain ⟨sc, saved⟩ := w
    cases saved with
    | nil => cases h
    | cons =>
      cases h
      exact hw
  | introduce | record | enter =>
    cases h
    exact hw
  | beginDataflow =>
    cases h
    exact nofun
  | endDataflow | hollow =>
    cases h
    exact fun _ => rfl

theorem Walk.Settled.hollow {known : String → Bool} {w w' : Walk} (hw : w.Settled)
    (ho : w.scope.inDataflow = false) (h : Scope.step known .hollow w = some w') : w' = w := by
  obtain ⟨⟨vars, dataflowVars, syms, inDataflow⟩, saved⟩ := w
  cases h
  cases ho
  cases hw rfl
  rfl

/-- The rewritten operations succeed exactly where the factors are in scope. -/
theorem Fuses.run_iff {known : String → Bool} {r r' : Records} {ops ops' : List Op}
    (h : Fuses r ops ops' r') {w : Walk} (hw : w.Settled) (hh : HollowOutside known w r ops)
    (hr : ∃ w', run known ops w = some w') :
    (∃ w', run known ops' w = some w') ↔ FactorsInScope known w r ops := by
  induction h generalizing w with
  | nil => exact ⟨fun _ => factorsInScope_nil, fun _ => hr⟩
  | keep hf _ ih =>
    obtain ⟨w', hr⟩ := hr
    obtain ⟨w1, hs, hr⟩ := Option.bind_eq_some_iff.mp hr
    have ih := ih (hw.step hs) (hh.cons hs) ⟨w', hr⟩
    rw [factorsInScope_cons, run, hs, Option.bind_some, ih]
    exact ⟨fun h => ⟨by simp [hf], fun w2 h2 => by cases h2; exact h⟩, fun h => h.2 w1 rfl⟩
  | fuse hf _ ih =>
    obtain ⟨w', hr⟩ := hr
    obtain ⟨w1, hs, hr1⟩ := Option.bind_eq_some_iff.mp hr
    obtain ⟨w2, hs1, hr2⟩ := Option.bind_eq_some_iff.mp hr1
    obtain ⟨rfl, -⟩ := require_eq hs
    obtain ⟨rfl, -⟩ := require_eq hs1
    have ih := ih hw ((hh.cons hs).cons hs1) ⟨w', hr2⟩
    rw [factorsInScope_cons]
    constructor
    · rintro ⟨w3, hr3⟩
      obtain ⟨w4, hs4, hr4⟩ := Option.bind_eq_some_iff.mp hr3
      obtain ⟨rfl, -⟩ := require_eq hs4
      rw [run_append] at hr4
      obtain ⟨w5, hs5, hr5⟩ := Option.bind_eq_some_iff.mp hr4
      obtain ⟨rfl, hall⟩ := run_mentions.mp hs5
      constructor
      · intro factors hf'
        rw [Op.fused?, hf, Option.some.injEq] at hf'
        exact hf' ▸ hall
      · intro w6 hs6
        obtain ⟨rfl, -⟩ := require_eq hs6
        refine factorsInScope_cons.mpr ⟨nofun, ?_⟩
        intro w7 hs7
        obtain ⟨rfl, -⟩ := require_eq hs7
        exact ih.mp ⟨w3, hr5⟩
    · rintro ⟨hall, hlater⟩
      obtain ⟨w3, hr3⟩ := ih.mpr ((factorsInScope_cons.mp (hlater _ hs)).2 _ hs1)
      refine ⟨w3, ?_⟩
      have hsyms : Scope.step known (.mention (.syms [])) w2 = some w2 := require_of_allows nofun
      rw [run, hsyms, Option.bind_some, run_append, run_mentions.mpr ⟨rfl, hall _ hf⟩,
        Option.bind_some, hr3]
  | drop _ ih =>
    obtain ⟨w', hr⟩ := hr
    obtain ⟨w1, hs, hr1⟩ := Option.bind_eq_some_iff.mp hr
    obtain rfl := hw.hollow (hh _ _ .here) hs
    rw [ih hw (hh.cons hs) ⟨w', hr1⟩, factorsInScope_cons]
    exact ⟨fun h => ⟨nofun, fun w2 h2 => by rw [hs] at h2; cases h2; exact h⟩, fun h => h.2 _ hs⟩

end DataflowIR.Scope
