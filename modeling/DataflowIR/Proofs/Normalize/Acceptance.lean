import DataflowIR.Pass.Pipeline
import DataflowIR.Proofs.Normalize.Passage
import Mathlib.Data.List.Basic

namespace DataflowIR

open Session

theorem Act.fst_exec_bind {σ α β : Type} (act : Act σ α) (next : α → Act σ β) (s : σ) :
    ((act >>= next).exec s).1 =
      match (act.exec s).1 with
      | .ok a => ((next a).exec (act.exec s).2).1
      | .error f => .error f := by
  rw [exec_bind]
  rcases act.exec s with ⟨r, t⟩
  cases r <;> rfl

namespace Module

private theorem fst_exec_dropBuilder (s : Session Unit) : (dropBuilder.exec s).1 = .ok () := by
  rw [dropBuilder, Act.fst_exec_bind]
  change ((if s.builder.depth ≠ 0 then report (.builderDropped s.builder.depth)
    else pure () : Build Unit Unit).exec s).1 = .ok ()
  split <;> rfl

/-- How a step ends that gives `a` unless it fails. -/
def outcome {α : Type} (a : α) : Option Fault → Except Fault α
  | some f => .error f
  | none => .ok a

/-- The pass finds nothing to do in any of the functions. -/
def Rest (p : Pass) (entries : List (GlobalVar × Function)) : Prop :=
  ∀ e ∈ entries, ∃ t', e.2.toExpr.Rests p (fun _ => none) t'

private theorem rest_of_isAnnotated {p : Pass} (hp : p ≠ .fusedMultiplyAdd)
    {entries : List (GlobalVar × Function)} (ha : ∀ e ∈ entries, e.2.toExpr.isAnnotated) :
    Rest p entries := by
  intro e he
  exact Expr.rests_of_isAnnotated hp _ (ha e he)

variable {p : Pass} {s : Session Unit}

private theorem transformFunction_rests (hp : p ≠ .explicitMemory) (name : String) {f : Function}
    {t' : Values} (hr : f.toExpr.Rests p (fun _ => none) t') :
    ((transformFunction p.transformer .standard Expr.fuel name f).exec s).1 =
      outcome none ((f.toExpr.placements []).findSome? Placement.rejection?) := by
  let s1 : Session Unit := { s with builder := .new .standard, remap := .empty }
  have hwithin : s1.Within [] := ⟨fun _ => rfl, rfl⟩
  have hpass := (Transformer.passing_transformer hp f.toExpr.fuel).expr (s := s1) hr hwithin
  have hfuel : ¬ f.toExpr.fuel.toNat < 4 * f.toExpr.size := by
    rw [Expr.fuel_eq_ofNat, Fuel.toNat_ofNat]
    omega
  simp only [transformFunction, Act.exec_bind, Act.exec_modify, Act.exec_attempt]
  revert hpass
  rcases (p.transformer.run f.toExpr.fuel (.expr f.toExpr)).exec s1 with ⟨r, s2⟩
  intro hpass
  cases hpass with
  | spent h => exact absurd h hfuel
  | rejected h =>
    dsimp only
    rw [h, Act.fst_exec_bind, fst_exec_dropBuilder]
    rfl
  | passed h _ =>
    dsimp only
    rw [h, if_pos (Expr.sameAs_self _), Act.fst_exec_bind]
    dsimp only [report, Act.exec_modify]
    rw [Act.fst_exec_bind, fst_exec_dropBuilder]
    rfl

private theorem transformEach_rests (hp : p ≠ .explicitMemory)
    {entries : List (GlobalVar × Function)} (hr : Rest p entries) :
    ((transformEach p.transformer .standard Expr.fuel entries).exec s).1 =
      outcome [] ((entries.flatMap fun e => e.2.toExpr.placements []).findSome?
        Placement.rejection?) := by
  induction entries generalizing s with
  | nil => rfl
  | cons e rest ih =>
    obtain ⟨g, f⟩ := e
    obtain ⟨⟨_, hf⟩, hrest⟩ := List.forall_mem_cons.mp hr
    rw [transformEach, Act.fst_exec_bind, transformFunction_rests hp g.name hf, List.flatMap_cons,
      List.findSome?_append]
    cases (f.toExpr.placements []).findSome? Placement.rejection? with
    | some fault => rfl
    | none => exact ih hrest

private theorem transformEach_annotated {entries : List (GlobalVar × Function)}
    (ha : ∀ e ∈ entries, e.2.toExpr.isAnnotated) :
    ((transformEach Transformer.walk .standard Expr.fuel entries).exec s).1 =
      outcome [] ((entries.flatMap fun e => e.2.toExpr.placements []).findSome?
        Placement.rejection?) := by
  exact transformEach_rests Pass.normalize_ne (rest_of_isAnnotated (p := .normalize) nofun ha)

end Module

/-- A run that finds nothing to do changes nothing, and it fails only where the builder rejects a
binding. -/
theorem Pass.apply_of_rest {p : Pass} (hp : p ≠ .explicitMemory) {m : Module}
    (hr : Module.Rest p m.toList) (w : World) :
    ((p.apply m).exec w).1 =
      Module.outcome none (m.placements.findSome? Placement.rejection?) := by
  change ((m.transform p.transformer .standard Expr.fuel).exec (.new () .standard w)).1 = _
  rw [Module.transform, Act.fst_exec_bind, Module.transformEach_rests hp hr, ← Module.placements]
  cases m.placements.findSome? Placement.rejection? with
  | some f => rfl
  | none => rfl

theorem normalize_outcome {m : Module} (hw : m.wellFormed = .ok ()) (ha : m.isAnnotated)
    (w : World) :
    ((Pass.normalize.apply m).exec w).1 =
      match m.placements.findSome? Placement.dataflowFault? with
      | some f => .error f
      | none => .ok none := by
  have hannotated : ∀ e ∈ m.toList, e.2.toExpr.isAnnotated := List.all_eq_true.mp ha
  have hproper := Module.placements_proper hw
  have hfault : m.placements.findSome? Placement.rejection? =
      m.placements.findSome? Placement.dataflowFault? := by
    rw [← List.head?_filterMap, ← List.head?_filterMap,
      List.filterMap_congr fun p hp => (hproper p hp).rejection?_eq]
  change ((m.transform Transformer.walk .standard Expr.fuel).exec (.new () .standard w)).1 = _
  rw [Module.transform, Act.fst_exec_bind, Module.transformEach_annotated hannotated,
    ← Module.placements, hfault]
  cases m.placements.findSome? Placement.dataflowFault? with
  | some f => rfl
  | none => rfl

namespace Settled

def module : Module :=
  (Module.empty.add 20 "main" main).2

def world : World := ⟨30, []⟩

/-- It binds the dataflow variable `d` in a plain block. -/
def inner : Function :=
  ⟨node 21, [o],
    .seq (node 22) [.mk ⟨23, none⟩ .plain [.bind ⟨24, none⟩ d (.var o)]] (.var d), .object, .empty⟩

def nested : Module :=
  (Module.empty.add 20 "main" ⟨node 25, [x],
    .seq (node 26) [.mk ⟨27, none⟩ .dataflow [.bind ⟨28, none⟩ r inner.toExpr]] (.var r),
    .object, .empty⟩).2

/-- A dataflow variable that has the identity of the parameter. -/
def again : Var :=
  ⟨node 29, x.id, true⟩

def rebound : Module :=
  (Module.empty.add 20 "main" ⟨node 25, [x],
    .seq (node 26) [.mk ⟨27, none⟩ .dataflow [.bind ⟨28, none⟩ again (.var x)]] (.var x),
    .object, .empty⟩).2

def outcome (m : Module) : Except Fault (Option Module) :=
  ((Pass.normalize.apply m).exec world).1

end Settled

open Settled in
theorem normalize_outcome_settled :
    module.wellFormed = .ok () ∧ module.isAnnotated ∧ outcome module = .ok none := by
  have hannotated : module.isAnnotated := by decide +kernel
  exact ⟨rfl, hannotated, (normalize_outcome rfl hannotated world).trans rfl⟩

open Settled in
/-- The check lets a dataflow variable be bound in any block inside a dataflow block, and keeps
dataflow variables apart from parameters of the same identity; the builder does neither. -/
theorem normalize_rejects_wellFormed :
    (nested.wellFormed = .ok () ∧ nested.isAnnotated ∧
      outcome nested = .error (.dataflowVarInPlainBlock d)) ∧
    (rebound.wellFormed = .ok () ∧ rebound.isAnnotated ∧
      outcome rebound = .error (.parameterBoundAgain again)) := by
  refine ⟨⟨rfl, by decide +kernel, ?_⟩, rfl, by decide +kernel, ?_⟩
  · have h : (match outcome nested with
        | .error (.dataflowVarInPlainBlock v) => decide (v = d)
        | _ => false) = true := by decide +kernel
    split at h
    · next v hv => rw [hv, of_decide_eq_true h]
    · cases h
  · have h : (match outcome rebound with
        | .error (.parameterBoundAgain v) => decide (v = again)
        | _ => false) = true := by decide +kernel
    split at h
    · next v hv => rw [hv, of_decide_eq_true h]
    · cases h

end DataflowIR
