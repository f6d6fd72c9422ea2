import DataflowIR.Proofs.Fusion.Operations
import DataflowIR.Proofs.Lowering.Operations
import Mathlib.Algebra.Order.Group.Multiset

namespace DataflowIR.Scope

variable {known : String → Bool}

/-- Operations of the same effect. -/
def Op.Alike (op op' : Op) : Prop :=
  ∀ known, step known op = step known op'

theorem Op.Alike.refl (op : Op) : op.Alike op := by
  intro _
  rfl

theorem Op.Alike.of_eq {op op' : Op} (h : op' = op) : op.Alike op' :=
  h ▸ .refl op'

/-- Whether a dataflow block is open after the operation, by whether one was before it; none opens
inside another. -/
def Op.open? (c : Bool) : Op → Option Bool
  | .beginDataflow => if c then none else some true
  | .endDataflow => if c then some false else none
  | .hollow => if c then none else some false
  | _ => some c

/-- Operations that never fail and define no variables. -/
def Op.Grants : Op → Prop
  | .introduce _ | .record .. => True
  | _ => False

/-- The operations before and after insertions, with whether a dataflow block is open before and
after them, and the identities that are new. -/
inductive Extends : Bool → List Op → List Op → Bool → Multiset Id → Prop
  | nil {c} : Extends c [] [] c 0
  | keep {c c1 c' op op' ops ops' new} (h : op.Alike op') (hc : op.open? c = some c1)
      (hs : Extends c1 ops ops' c' new) : Extends c (op :: ops) (op' :: ops') c' new
  /-- A block without bindings may be left out. -/
  | drop {c' ops ops' new} (hs : Extends false ops ops' c' new) :
      Extends false (.hollow :: ops) ops' c' new
  | grant {c c' op ops ops' new} (h : op.Grants) (hs : Extends c ops ops' c' new) :
      Extends c ops (op :: ops') c' new
  | define {c c' id dataflow ops ops' new} (h : dataflow = true → c = true)
      (hs : Extends c ops ops' c' new) :
      Extends c ops (.define id dataflow :: ops') c' (id ::ₘ new)

namespace Extends

variable {c c' c'' : Bool} {ops ops' more more' : List Op} {new new' : Multiset Id}

theorem append (h : Extends c ops ops' c' new) (k : Extends c' more more' c'' new') :
    Extends c (ops ++ more) (ops' ++ more') c'' (new + new') := by
  induction h with
  | nil => rwa [zero_add]
  | keep h hc _ ih => exact .keep h hc (ih k)
  | drop _ ih => exact .drop (ih k)
  | grant h _ ih => exact .grant h (ih k)
  | define h _ ih =>
    rw [Multiset.cons_add]
    exact .define h (ih k)

theorem single {op op' : Op} (h : op.Alike op') (hc : op.open? c = some c') :
    Extends c [op] [op'] c' 0 :=
  .keep h hc .nil

/-- Operations that no dataflow block begins or ends with stay. -/
theorem refl (h : ∀ op ∈ ops, op.open? c = some c) : Extends c ops ops c 0 := by
  induction ops with
  | nil => exact .nil
  | cons op ops ih =>
    obtain ⟨hop, hops⟩ := List.forall_mem_cons.mp h
    exact .keep (.refl op) hop (ih hops)

theorem mentions (ms : List Mention) : Extends c (ms.map .mention) (ms.map .mention) c 0 := by
  apply refl
  intro op hop
  obtain ⟨m, -, rfl⟩ := List.mem_map.mp hop
  rfl

theorem params (vs : List Var) :
    Extends c (vs.flatMap Var.paramOps) (vs.flatMap Var.paramOps) c 0 := by
  apply refl
  intro op hop
  obtain ⟨v, -, hv⟩ := List.mem_flatMap.mp hop
  obtain rfl | hv := List.mem_cons.mp hv
  · rfl
  · obtain rfl := List.mem_singleton.mp hv
    rfl

end Extends

/-- The two lists have the same of the identities below `base`. -/
def SameBelow (base : Nat) (ids ids' : List Id) : Prop :=
  ∀ id, id.index < base → (id ∈ ids' ↔ id ∈ ids)

theorem SameBelow.cons {base : Nat} {ids ids' : List Id} (h : SameBelow base ids ids') (id : Id) :
    SameBelow base (id :: ids) (id :: ids') := by
  intro j hj
  rw [List.mem_cons, List.mem_cons, h j hj]

theorem SameBelow.insert {base : Nat} {ids ids' : List Id} (h : SameBelow base ids ids') {id : Id}
    (hid : base ≤ id.index) : SameBelow base ids (id :: ids') := by
  intro j hj
  have hne : j ≠ id := by
    rintro rfl
    omega
  rw [List.mem_cons, or_iff_right hne, h j hj]

/-- No variable of the identity is in scope or comes to be when a scope ends. -/
def Walk.Lacks (w : Walk) (id : Id) : Prop :=
  id ∉ w.scope.vars ∧ id ∉ w.scope.dataflowVars ∧ ∀ vars ∈ w.saved, id ∉ vars

/-- The two runs have the same variables below `base`; those that are `new` are still to come. -/
structure Matches (base : Nat) (new : Multiset Id) (w w' : Walk) : Prop where
  vars : SameBelow base w.scope.vars w'.scope.vars
  dataflowVars : SameBelow base w.scope.dataflowVars w'.scope.dataflowVars
  saved : List.Forall₂ (SameBelow base) w.saved w'.saved
  syms : ∀ s ∈ w.scope.syms, s ∈ w'.scope.syms
  inDataflow : w'.scope.inDataflow = w.scope.inDataflow
  lacks : ∀ id ∈ new, base ≤ id.index ∧ w'.Lacks id

/-- The walk once the variable is defined. -/
def Walk.adding (w : Walk) (id : Id) (dataflow : Bool) : Walk :=
  if dataflow then ⟨{ w.scope with dataflowVars := id :: w.scope.dataflowVars }, w.saved⟩
  else ⟨{ w.scope with vars := id :: w.scope.vars }, w.saved⟩

theorem step_define {id : Id} {dataflow : Bool} {w v : Walk} :
    step known (.define id dataflow) w = some v ↔
      v = w.adding id dataflow ∧ (dataflow = true → w.scope.inDataflow = true) ∧
        id ∉ (if dataflow then w.scope.dataflowVars else w.scope.vars) := by
  cases dataflow with
  | false =>
    by_cases hm : id ∈ w.scope.vars <;> simp [step, define?, Walk.adding, hm, @eq_comm _ v]
  | true =>
    cases hin : w.scope.inDataflow <;> by_cases hm : id ∈ w.scope.dataflowVars <;>
      simp [step, define?, Walk.adding, hin, hm, @eq_comm _ v]

variable {base : Nat} {new : Multiset Id} {w w' v : Walk}

theorem Walk.Lacks.adding {id j : Id} (h : w.Lacks j) (hj : j ≠ id) (dataflow : Bool) :
    (w.adding id dataflow).Lacks j := by
  obtain ⟨hv, hd, hs⟩ := h
  cases dataflow with
  | false => exact ⟨List.not_mem_cons_of_ne_of_not_mem hj hv, hd, hs⟩
  | true => exact ⟨hv, List.not_mem_cons_of_ne_of_not_mem hj hd, hs⟩

private theorem Op.open?_step {op : Op} {c : Bool} (hc : op.open? w.scope.inDataflow = some c)
    (h : step known op w = some v) : v.scope.inDataflow = c := by
  cases op with
  | mention | sum =>
    obtain ⟨rfl, -⟩ := require_eq h
    exact Option.some.inj hc
  | define id dataflow =>
    obtain ⟨rfl, -⟩ := step_define.mp h
    rw [← Option.some.inj hc]
    cases dataflow <;> rfl
  | conditional =>
    simp only [step] at h
    split at h
    · cases h
    · cases h
      exact Option.some.inj hc
  | leave =>
    obtain ⟨sc, _ | ⟨vars, saved⟩⟩ := w
    · cases h
    · cases h
      exact Option.some.inj hc
  | introduce | record | enter =>
    cases h
    exact Option.some.inj hc
  | beginDataflow | endDataflow | hollow =>
    cases h
    simp only [Op.open?] at hc
    split at hc <;> cases hc
    rfl

namespace Matches

theorem allows (h : Matches base new w w') {m : Mention}
    (hm : ∀ id dataflow, m = .var id dataflow → id.index < base) (ha : w.scope.Allows known m) :
    w'.scope.Allows known m := by
  cases m with
  | var id dataflow =>
    have hid := hm id dataflow rfl
    cases dataflow with
    | false => exact (h.vars id hid).mpr ha
    | true => exact ⟨h.inDataflow.trans ha.1, (h.dataflowVars id hid).mpr ha.2⟩
  | syms ss => exact fun s hs => h.syms s (ha s hs)
  | global name => exact ha
  | misplaced => exact ha

theorem require (h : Matches base new w w') {m : Mention}
    (hm : ∀ id dataflow, m = .var id dataflow → id.index < base)
    (hs : require known m w = some v) :
    ∃ v', Scope.require known m w' = some v' ∧ Matches base new v v' := by
  obtain ⟨rfl, ha⟩ := require_eq hs
  exact ⟨w', require_of_allows (h.allows hm ha), h⟩

/-- A variable of both programs is defined. -/
theorem define (h : Matches base new w w') {id : Id} {dataflow : Bool} (hid : id.index < base)
    (hs : step known (.define id dataflow) w = some v) :
    ∃ v', step known (.define id dataflow) w' = some v' ∧ Matches base new v v' := by
  obtain ⟨rfl, hd, hm⟩ := step_define.mp hs
  have hd : dataflow = true → w'.scope.inDataflow = true := fun ht => h.inDataflow.trans (hd ht)
  have hlacks : ∀ j ∈ new, base ≤ j.index ∧ (w'.adding id dataflow).Lacks j := by
    intro j hj
    obtain ⟨hle, hl⟩ := h.lacks j hj
    refine ⟨hle, hl.adding ?_ dataflow⟩
    rintro rfl
    omega
  refine ⟨w'.adding id dataflow, step_define.mpr ⟨rfl, hd, ?_⟩, ?_⟩
  · cases dataflow with
    | false => exact mt (h.vars id hid).mp hm
    | true => exact mt (h.dataflowVars id hid).mp hm
  · cases dataflow with
    | false => exact ⟨h.vars.cons id, h.dataflowVars, h.saved, h.syms, h.inDataflow, hlacks⟩
    | true => exact ⟨h.vars, h.dataflowVars.cons id, h.saved, h.syms, h.inDataflow, hlacks⟩

variable (known) in
/-- A new variable is defined in the second run only. -/
theorem insert {id : Id} {dataflow : Bool} (h : Matches base (id ::ₘ new) w w')
    (hn : (id ::ₘ new).Nodup) (hd : dataflow = true → w.scope.inDataflow = true) :
    ∃ v', step known (.define id dataflow) w' = some v' ∧ Matches base new w v' := by
  obtain ⟨hle, hv, hdv, -⟩ := h.lacks id (Multiset.mem_cons_self _ _)
  have hd : dataflow = true → w'.scope.inDataflow = true := fun ht => h.inDataflow.trans (hd ht)
  have hlacks : ∀ j ∈ new, base ≤ j.index ∧ (w'.adding id dataflow).Lacks j := by
    intro j hj
    obtain ⟨hle, hl⟩ := h.lacks j (Multiset.mem_cons_of_mem hj)
    refine ⟨hle, hl.adding ?_ dataflow⟩
    rintro rfl
    exact (Multiset.nodup_cons.mp hn).1 hj
  refine ⟨w'.adding id dataflow, step_define.mpr ⟨rfl, hd, ?_⟩, ?_⟩
  · cases dataflow with
    | false => exact hv
    | true => exact hdv
  · cases dataflow with
    | false => exact ⟨h.vars.insert hle, h.dataflowVars, h.saved, h.syms, h.inDataflow, hlacks⟩
    | true => exact ⟨h.vars, h.dataflowVars.insert hle, h.saved, h.syms, h.inDataflow, hlacks⟩

variable (known) in
theorem grant (h : Matches base new w w') {op : Op} (hop : op.Grants) :
    ∃ v', step known op w' = some v' ∧ Matches base new w v' := by
  cases op with
  | introduce ss =>
    exact ⟨_, rfl, h.vars, h.dataflowVars, h.saved,
      fun s hs => List.mem_append_right _ (h.syms s hs), h.inDataflow, h.lacks⟩
  | record => exact ⟨w', rfl, h⟩
  | _ => cases hop

/-- A step of the first run is one of the second. -/
theorem step (h : Matches base new w w') {op : Op}
    (hop : ∀ a, op.var? = some a → a.1.index < base) (hs : step known op w = some v) :
    ∃ v', Scope.step known op w' = some v' ∧ Matches base new v v' := by
  cases op with
  | mention m =>
    refine h.require ?_ hs
    rintro id dataflow rfl
    exact hop _ rfl
  | sum ss id => exact h.require (m := .syms ss) nofun hs
  | define id dataflow => exact h.define (hop _ rfl) hs
  | introduce ss =>
    cases hs
    refine ⟨_, rfl, h.vars, h.dataflowVars, h.saved, ?_, h.inDataflow, h.lacks⟩
    intro s hs
    exact List.mem_append.mpr ((List.mem_append.mp hs).imp_right (h.syms s))
  | record =>
    cases hs
    exact ⟨w', rfl, h⟩
  | conditional =>
    simp only [Scope.step] at hs ⊢
    rw [h.inDataflow]
    split at hs
    · cases hs
    · next hin =>
      cases hs
      exact ⟨w', if_neg hin, h⟩
  | enter =>
    cases hs
    refine ⟨_, rfl, h.vars, h.dataflowVars, .cons h.vars h.saved, h.syms, h.inDataflow, ?_⟩
    intro id hid
    obtain ⟨hle, hv, hd, hs⟩ := h.lacks id hid
    exact ⟨hle, hv, hd, List.forall_mem_cons.mpr ⟨hv, hs⟩⟩
  | leave =>
    obtain ⟨sc, saved⟩ := w
    obtain ⟨sc', saved'⟩ := w'
    obtain ⟨-, hd, hsaved, hsyms, hin, hlacks⟩ := h
    cases hsaved with
    | nil => cases hs
    | cons hv hsaved =>
      cases hs
      refine ⟨_, rfl, hv, hd, hsaved, hsyms, hin, ?_⟩
      intro id hid
      obtain ⟨hle, -, hl, hs⟩ := hlacks id hid
      obtain ⟨hvars, hrest⟩ := List.forall_mem_cons.mp hs
      exact ⟨hle, hvars, hl, hrest⟩
  | beginDataflow =>
    cases hs
    exact ⟨_, rfl, h.vars, h.dataflowVars, h.saved, h.syms, rfl, h.lacks⟩
  | endDataflow | hollow =>
    cases hs
    refine ⟨_, rfl, h.vars, fun _ _ => Iff.rfl, h.saved, h.syms, rfl, ?_⟩
    intro id hid
    obtain ⟨hle, hv, -, hs⟩ := h.lacks id hid
    exact ⟨hle, hv, List.not_mem_nil, hs⟩

end Matches

/-- With the insertions a run still succeeds. -/
theorem Extends.run {c c' : Bool} {ops ops' : List Op} (h : Extends c ops ops' c' new)
    (hw : Matches base new w w') (hc : w.scope.inDataflow = c) (hset : w.Settled)
    (hn : new.Nodup) (hold : ∀ op ∈ ops, ∀ a, op.var? = some a → a.1.index < base)
    (hr : run known ops w = some v) : ∃ v', Scope.run known ops' w' = some v' := by
  induction h generalizing w w' with
  | nil => exact ⟨w', rfl⟩
  | keep h hc1 _ ih =>
    obtain ⟨hop, hold⟩ := List.forall_mem_cons.mp hold
    obtain ⟨w1, hs, hr⟩ := Option.bind_eq_some_iff.mp hr
    obtain ⟨w1', hs', hw1⟩ := hw.step hop hs
    obtain ⟨v', hv⟩ := ih hw1 (Op.open?_step (hc ▸ hc1) hs) (hset.step hs) hn hold hr
    rw [h known] at hs'
    exact ⟨v', by rw [run_cons_of_step hs', hv]⟩
  | drop _ ih =>
    -- Where no dataflow block is open there are no dataflow variables left to forget.
    obtain ⟨-, hold⟩ := List.forall_mem_cons.mp hold
    obtain ⟨w1, hs, hr⟩ := Option.bind_eq_some_iff.mp hr
    rw [hset.hollow hc hs] at hr
    exact ih hw hc hset hn hold hr
  | grant h _ ih =>
    obtain ⟨w1', hs', hw1⟩ := hw.grant known h
    rw [run_cons_of_step hs']
    exact ih hw1 hc hset hn hold hr
  | define h _ ih =>
    obtain ⟨w1', hs', hw1⟩ := hw.insert known hn fun hd => hc.trans (h hd)
    rw [run_cons_of_step hs']
    exact ih hw1 hc hset (Multiset.nodup_cons.mp hn).2 hold hr

end DataflowIR.Scope
