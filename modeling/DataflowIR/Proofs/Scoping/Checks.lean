import DataflowIR.Analysis.WellFormed
import Mathlib.Tactic.Tauto

namespace DataflowIR

theorem Except.bind_ok {ε α β : Type} {x : Except ε α} {f : α → Except ε β} {b : β} :
    (x >>= f) = .ok b ↔ ∃ a, x = .ok a ∧ f a = .ok b := by
  cases x with
  | error e => exact ⟨nofun, nofun⟩
  | ok a => exact ⟨fun h => ⟨a, rfl, h⟩, fun ⟨_, ha, h⟩ => by cases ha; exact h⟩

theorem Except.pure_ok {ε α : Type} {a b : α} : (pure a : Except ε α) = .ok b ↔ a = b := by
  exact ⟨fun h => by cases h; rfl, fun h => h ▸ rfl⟩

/-- A test that must fail. -/
private theorem Except.guard_ok {ε α : Type} {c : Bool} {e : ε} {x : Except ε α} {a : α} :
    (if c then .error e else x) = .ok a ↔ c = false ∧ x = .ok a := by
  cases c <;> simp

theorem Except.toOption_eq_some_iff {ε α : Type} {r : Except ε α} {a : α} :
    r.toOption = some a ↔ r = .ok a := by
  cases r <;> simp [Except.toOption]

theorem Except.toOption_eq_of_ok_iff {ε α : Type} {r r' : Except ε α}
    (h : ∀ a, r = .ok a ↔ r' = .ok a) : r.toOption = r'.toOption := by
  ext a
  rw [toOption_eq_some_iff, toOption_eq_some_iff]
  exact h a

theorem Expr.areNormal_iff {es : List Expr} : Expr.areNormal es ↔ ∀ e ∈ es, e.isNormal := by
  induction es with
  | nil => simp [Expr.areNormal]
  | cons e es ih => simp [Expr.areNormal, ih]

theorem Expr.find?_not_normal {es : List Expr} :
    es.find? (fun e => !e.isNormal) = none ↔ ∀ e ∈ es, e.isNormal := by
  simp

namespace Scope

/-- Whether the variable may be used. -/
def Sees (sc : Scope) (v : Var) : Prop :=
  if v.dataflow then sc.inDataflow ∧ v.id ∈ sc.dataflowVars else v.id ∈ sc.vars

theorem useVar_ok {sc sc' : Scope} {v : Var} : sc.useVar v = .ok sc' ↔ sc' = sc ∧ sc.Sees v := by
  unfold useVar Sees
  cases v.dataflow <;> cases sc.inDataflow <;> simp <;> split <;> simp_all [eq_comm]

theorem Sees.mem {sc : Scope} {v : Var} (h : sc.Sees v) :
    v.id ∈ sc.vars ∨ v.id ∈ sc.dataflowVars := by
  unfold Sees at h
  split at h
  · exact .inr h.2
  · exact .inl h

theorem useDim_ok {sc sc' : Scope} {d : Dim} :
    sc.useDim d = .ok sc' ↔ sc' = sc ∧ ∀ s ∈ d.syms, s ∈ sc.syms := by
  unfold useDim
  split
  · next s h =>
    have hm := List.mem_of_find?_eq_some h
    have hs := List.find?_some h
    simp only [decide_eq_true_eq] at hs
    exact ⟨nofun, fun hall => absurd (hall.2 s hm) hs⟩
  · next h =>
    simp only [List.find?_eq_none, decide_eq_true_eq, Decidable.not_not] at h
    exact ⟨fun hs => by cases hs; exact ⟨rfl, h⟩, fun hs => hs.1 ▸ rfl⟩

theorem useType_ok {sc sc' : Scope} {i : StructInfo} :
    sc.useType i = .ok sc' ↔ sc' = sc ∧ ∀ s ∈ i.syms, s ∈ sc.syms := by
  unfold useType
  split
  · next s h =>
    have hm := List.mem_of_find?_eq_some h
    have hs := List.find?_some h
    simp only [decide_eq_true_eq] at hs
    exact ⟨nofun, fun hall => absurd (hall.2 s hm) hs⟩
  · next h =>
    simp only [List.find?_eq_none, decide_eq_true_eq, Decidable.not_not] at h
    exact ⟨fun hs => by cases hs; exact ⟨rfl, h⟩, fun hs => hs.1 ▸ rfl⟩

theorem useDims_ok {sc sc' : Scope} {ds : List Dim} :
    sc.useDims ds = .ok sc' ↔ sc' = sc ∧ ∀ d ∈ ds, ∀ s ∈ d.syms, s ∈ sc.syms := by
  induction ds with
  | nil => simp [useDims, eq_comm]
  | cons d ds ih =>
    simp only [useDims, Except.bind_ok, useDim_ok]
    grind

theorem useTypes_ok {sc sc' : Scope} {is : List StructInfo} :
    sc.useTypes is = .ok sc' ↔ sc' = sc ∧ ∀ i ∈ is, ∀ s ∈ i.syms, s ∈ sc.syms := by
  induction is with
  | nil => simp [useTypes, eq_comm]
  | cons i is ih =>
    simp only [useTypes, Except.bind_ok, useType_ok]
    grind

end Scope

variable {known : String → Bool} {asBody : Bool} {sc sc' : Scope}

theorem check_leaf {node : Node} {content : Leaf} :
    Expr.check known asBody sc (.leaf node content) = .ok sc' ↔
      sc' = sc ∧ ∀ name, content = .globalVar name → known name := by
  have hok : ∀ {s s' : Scope}, (.ok s : Except Violation Scope) = .ok s' ↔ s' = s := by
    intro s s'
    rw [Except.ok.injEq, eq_comm]
  cases content with
  | globalVar name =>
    rw [Expr.check]
    split
    · next h => simp [hok, h]
    · next h => simp [h]
  | _ => exact hok.trans ⟨fun h => ⟨h, nofun⟩, fun h => h.1⟩

theorem check_tuple {node : Node} {fields : List Expr} :
    Expr.check known asBody sc (.tuple node fields) = .ok sc' ↔
      (∀ e ∈ fields, e.isNormal) ∧ Expr.checkAll known sc fields = .ok sc' := by
  simp only [Expr.check]
  rw [← Expr.find?_not_normal]
  split
  · next h => simp [h]
  · next h => simp [h]

theorem check_item {node : Node} {whole : Expr} {index : Nat} :
    Expr.check known asBody sc (.item node whole index) = .ok sc' ↔
      whole.check known false sc = .ok sc' :=
  Iff.rfl

theorem check_call {node : Node} {callee : Expr} {args : List Expr} {attrs : Option Attrs}
    {sinfoArgs : List StructInfo} :
    Expr.check known asBody sc (.call node callee args attrs sinfoArgs) = .ok sc' ↔
      (∀ e ∈ args, e.isNormal) ∧ ∃ sc1, callee.check known false sc = .ok sc1 ∧
        (∀ i ∈ sinfoArgs, ∀ s ∈ i.syms, s ∈ sc1.syms) ∧ Expr.checkAll known sc1 args = .ok sc' := by
  simp only [Expr.check]
  rw [← Expr.find?_not_normal]
  split
  · next h => simp [h]
  · next h =>
    simp only [h, true_and, Except.bind_ok, Scope.useTypes_ok]
    grind

theorem check_ite {node : Node} {cond onTrue onFalse : Expr} :
    Expr.check known asBody sc (.ite node cond onTrue onFalse) = .ok sc' ↔
      sc.inDataflow = false ∧ ∃ sc1 after sc2, cond.check known false sc = .ok sc1 ∧
        onTrue.check known true sc1 = .ok after ∧
        onFalse.check known true { after with vars := sc1.vars } = .ok sc2 ∧
        sc' = { sc2 with vars := sc1.vars } := by
  refine Except.guard_ok.trans ?_
  simp only [Except.bind_ok, Except.pure_ok]
  grind

theorem check_seq {node : Node} {blocks : List Block} {body : Expr} :
    Expr.check known asBody sc (.seq node blocks body) = .ok sc' ↔
      asBody ∧
        ∃ sc1, Block.checkAll known sc blocks = .ok sc1 ∧ body.check known false sc1 = .ok sc' := by
  cases asBody with
  | false => exact ⟨nofun, nofun⟩
  | true => exact Except.bind_ok.trans (by simp)

theorem check_function {node : Node} {params : List Var} {body : Expr} {ret : StructInfo}
    {attrs : Attrs} :
    Expr.check known asBody sc (.function node params body ret attrs) = .ok sc' ↔
      ∃ sc1 sc2, sc.defineParams params = .ok sc1 ∧ body.check known true sc1 = .ok sc2 ∧
        (∀ s ∈ ret.syms, s ∈ sc2.syms) ∧ sc' = { sc2 with vars := sc.vars } := by
  refine Except.bind_ok.trans ?_
  simp only [Except.bind_ok, Except.pure_ok, Scope.useType_ok]
  grind

theorem checkAll_cons {e : Expr} {es : List Expr} :
    Expr.checkAll known sc (e :: es) = .ok sc' ↔
      ∃ sc1, e.check known false sc = .ok sc1 ∧ Expr.checkAll known sc1 es = .ok sc' :=
  Except.bind_ok

theorem check_bind {mark : Mark} {v : Var} {value : Expr} :
    Binding.check known sc (.bind mark v value) = .ok sc' ↔
      ∃ sc1, value.check known false sc = .ok sc1 ∧ sc1.defineVar v = .ok sc' :=
  Except.bind_ok

theorem check_cast {mark : Mark} {v : Var} {value : Expr} {sinfo : StructInfo} :
    Binding.check known sc (.cast mark v value sinfo) = .ok sc' ↔
      ∃ sc1, value.check known false sc = .ok sc1 ∧
        (sc1.defineSyms sinfo).defineVar v = .ok sc' :=
  Except.bind_ok

theorem binding_checkAll_cons {b : Binding} {bs : List Binding} :
    Binding.checkAll known sc (b :: bs) = .ok sc' ↔
      ∃ sc1, b.check known sc = .ok sc1 ∧ Binding.checkAll known sc1 bs = .ok sc' :=
  Except.bind_ok

theorem check_dataflow {mark : Mark} {bindings : List Binding} :
    Block.check known sc (.mk mark .dataflow bindings) = .ok sc' ↔
      ∃ sc1, Binding.checkAll known { sc with inDataflow := true } bindings = .ok sc1 ∧
        sc' = { sc1 with inDataflow := false, dataflowVars := [] } := by
  refine Except.bind_ok.trans ?_
  simp only [Except.pure_ok]
  grind

theorem block_checkAll_cons {b : Block} {bs : List Block} :
    Block.checkAll known sc (b :: bs) = .ok sc' ↔
      ∃ sc1, b.check known sc = .ok sc1 ∧ Block.checkAll known sc1 bs = .ok sc' :=
  Except.bind_ok

namespace Scope

theorem defineVar_ok {v : Var} (h : sc.defineVar v = .ok sc') :
    sc' = if v.dataflow then { sc with dataflowVars := v.id :: sc.dataflowVars }
      else { sc with vars := v.id :: sc.vars } := by
  unfold defineVar at h
  cases hd : v.dataflow with
  | false =>
    simp only [hd, Bool.false_eq_true, if_false] at h ⊢
    split at h
    · cases h
    · cases h
      rfl
  | true =>
    simp only [hd, if_true] at h ⊢
    split at h
    · cases h
    · split at h
      · cases h
      · cases h
        rfl

/-- Of the variables in scope in `sc'`, those that are not among `ids` were in scope in `sc`. -/
structure Adds (sc : Scope) (ids : List Id) (sc' : Scope) : Prop where
  vars : ∀ id ∈ sc'.vars, id ∈ ids ∨ id ∈ sc.vars
  dataflowVars : ∀ id ∈ sc'.dataflowVars, id ∈ ids ∨ id ∈ sc.dataflowVars

theorem Adds.trans {sc1 : Scope} {ids ids' : List Id} (h : sc.Adds ids sc1)
    (k : sc1.Adds ids' sc') : sc.Adds (ids ++ ids') sc' := by
  constructor
  · intro id hid
    rw [List.mem_append]
    have h1 := k.vars id hid
    have h2 := h.vars id
    tauto
  · intro id hid
    rw [List.mem_append]
    have h1 := k.dataflowVars id hid
    have h2 := h.dataflowVars id
    tauto

theorem Adds.of_defineSyms {i : StructInfo} {ids : List Id} (h : (sc.defineSyms i).Adds ids sc') :
    sc.Adds ids sc' := by
  exact ⟨h.vars, h.dataflowVars⟩

theorem defineVar_adds {v : Var} (h : sc.defineVar v = .ok sc') : sc.Adds [v.id] sc' := by
  rw [defineVar_ok h]
  split
  · exact ⟨fun id hid => .inr hid, fun id hid => by simpa using hid⟩
  · exact ⟨fun id hid => by simpa using hid, fun id hid => .inr hid⟩

theorem dataflowVars_of_defineVar {v : Var} (hv : v.dataflow = false)
    (h : sc.defineVar v = .ok sc') : sc'.dataflowVars = sc.dataflowVars := by
  rw [defineVar_ok h, hv]
  rfl

theorem defineParams_adds {vs : List Var} (h : sc.defineParams vs = .ok sc') :
    sc.Adds (vs.map Var.id) sc' := by
  induction vs generalizing sc with
  | nil =>
    cases h
    exact ⟨fun _ hid => .inr hid, fun _ hid => .inr hid⟩
  | cons v vs ih =>
    simp only [defineParams, Except.bind_ok] at h
    obtain ⟨sc1, h1, h2⟩ := h
    have hv : sc.Adds [v.id] sc1 := by
      unfold defineParam at h1
      split at h1
      · exact (defineVar_adds h1).of_defineSyms
      · exact defineVar_adds h1
    exact hv.trans (ih h2)

end Scope

mutual

/-- Only a sequence leaves variables behind. -/
theorem Expr.check_vars {sc sc' : Scope} {e : Expr} (h : e.check known false sc = .ok sc') :
    sc'.vars = sc.vars := by
  cases e with
  | leaf =>
    obtain ⟨rfl, -⟩ := check_leaf.mp h
    rfl
  | var v =>
    obtain ⟨rfl, -⟩ := Scope.useVar_ok.mp h
    rfl
  | shape _ values =>
    obtain ⟨rfl, -⟩ := Scope.useDims_ok.mp h
    rfl
  | prim _ value _ =>
    obtain ⟨rfl, -⟩ := Scope.useDim_ok.mp h
    rfl
  | tuple _ fields => exact Expr.checkAll_vars (check_tuple.mp h).2
  | item _ whole _ => exact Expr.check_vars (check_item.mp h)
  | call _ callee args _ _ =>
    obtain ⟨-, sc1, h1, -, h2⟩ := check_call.mp h
    rw [Expr.checkAll_vars h2, Expr.check_vars h1]
  | ite _ cond _ _ =>
    obtain ⟨-, sc1, _, _, h1, -, -, rfl⟩ := check_ite.mp h
    have hv := Expr.check_vars h1
    exact hv
  | seq =>
    obtain ⟨hb, -⟩ := check_seq.mp h
    cases hb
  | function =>
    obtain ⟨_, _, -, -, -, rfl⟩ := check_function.mp h
    rfl

theorem Expr.checkAll_vars {sc sc' : Scope} {es : List Expr}
    (h : Expr.checkAll known sc es = .ok sc') : sc'.vars = sc.vars := by
  cases es with
  | nil =>
    cases h
    rfl
  | cons e es =>
    obtain ⟨sc1, h1, h2⟩ := checkAll_cons.mp h
    rw [Expr.checkAll_vars h2, Expr.check_vars h1]

end

private theorem Module.checkFunctions_ok {fs : List Function} :
    Module.checkFunctions known fs = .ok () ↔
      ∀ f ∈ fs, ∃ sc, f.toExpr.check known false .empty = .ok sc := by
  induction fs with
  | nil => simp [Module.checkFunctions]
  | cons f fs ih =>
    rw [Module.checkFunctions, Except.bind_ok, List.forall_mem_cons, ← ih]
    exact ⟨fun ⟨sc, h1, h2⟩ => ⟨⟨sc, h1⟩, h2⟩, fun ⟨⟨sc, h1⟩, h2⟩ => ⟨sc, h1, h2⟩⟩

theorem Module.wellFormed_ok {m : Module} : m.wellFormed = .ok () ↔
    ∀ e ∈ m.toList, ∃ sc, e.2.toExpr.check m.contains false .empty = .ok sc := by
  rw [Module.wellFormed, Module.checkFunctions_ok, List.forall_mem_map]

end DataflowIR
