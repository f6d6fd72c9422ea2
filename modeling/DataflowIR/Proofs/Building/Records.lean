import DataflowIR.Proofs.Building.Exchanges

namespace DataflowIR

/-- A match cast binds no value. -/
def Binding.boundValue? : Binding → Option Expr
  | .bind _ _ value => some value
  | .cast .. => none

namespace BuildStep

def emission? (id : Id) : BuildStep → Option Binding
  | .emitted b => if b.var.id = id then some b else none
  | _ => none

/-- The bindings emitted for the identity, in their order. -/
def emissions (id : Id) (steps : List BuildStep) : List Binding :=
  steps.filterMap (emission? id)

/-- The value of the latest variable binding for the identity. -/
def latestValue (id : Id) (steps : List BuildStep) : Option Expr :=
  ((emissions id steps).filterMap Binding.boundValue?).getLast?

/-- Whether the latest binding for the identity is a match cast. -/
def latestIsCast (id : Id) (steps : List BuildStep) : Bool :=
  (emissions id steps).getLast?.any fun b => b.kind == .cast

/-- The parameters of the scopes that were begun and not ended, the innermost first. -/
def openScopes (steps : List BuildStep) : List (List Var) :=
  steps.foldl (fun scopes step =>
    match step with
    | .scopeBegun params => params :: scopes
    | .scopeEnded => scopes.tail
    | _ => scopes) []

def isOpenParameter (id : Id) (steps : List BuildStep) : Bool :=
  (openScopes steps).any fun params => params.any fun v => v.id == id

/-- What a lookup should give: parameters and variables of match casts have no bound value. -/
def promisedValue (id : Id) (steps : List BuildStep) : Option Expr :=
  if isOpenParameter id steps || latestIsCast id steps then none else latestValue id steps

variable {id : Id} {steps : List BuildStep}

private theorem latestValue_append (step : BuildStep) : latestValue id (steps ++ [step]) =
    ((step.emission? id).bind Binding.boundValue?).or (latestValue id steps) := by
  unfold latestValue emissions
  rw [List.filterMap_append, List.filterMap_append, List.getLast?_append]
  congr 1
  cases h : step.emission? id with
  | none => simp [h]
  | some b => cases hb : b.boundValue? <;> simp [h, hb]

end BuildStep

open BuildStep

/-- The latest value is on record for every identity. -/
def Builder.Records (b : Builder) (steps : List BuildStep) : Prop :=
  ∀ id, b.bound.get? id = latestValue id steps

namespace Builder.Records

variable {b b' : Builder} {steps : List BuildStep}

theorem push {binding : Binding} (h : b.Records steps) (hp : b.push binding = .ok b') :
    b'.Records (steps ++ [.emitted binding]) := by
  obtain ⟨frame, rest, -, -, rfl⟩ := push_ok hp
  intro id
  rw [latestValue_append, ← h id]
  by_cases hv : binding.var.id = id
  · rw [emission?, if_pos hv]
    cases binding with
    | bind m v value => exact (IdTable.get?_insert _ _ _ _).trans (if_pos hv.symm)
    | cast => rfl
  · rw [emission?, if_neg hv]
    cases binding with
    | bind m v value => exact (IdTable.get?_insert _ _ _ _).trans (if_neg (Ne.symm hv))
    | cast => rfl

theorem other {step : BuildStep} (h : b.Records steps) (hs : ∀ id, step.emission? id = none) :
    b.Records (steps ++ [step]) := by
  intro id
  rw [latestValue_append, hs id]
  exact h id

theorem turn {next : Nat} {step? : Option BuildStep} {draw? : Option Draw} (h : b.Records steps)
    (ht : b.Turn next step? draw? b') : b'.Records (steps ++ step?.toList) := by
  cases ht with
  | quiet | named | lost => rwa [Option.toList_none, List.append_nil]
  | begun | ended | scopeBegun | scopeEnded => exact h.other fun _ => rfl
  | emitted hp => exact h.push hp
  | emittedNew hint hp => exact push (b := (b.requestName hint).2) h hp

end Builder.Records

open Session

/-- A lookup gives the latest value that was emitted for the variable. That is what it should give
exactly if there is none, or if the variable is not a parameter of an open scope and was not bound by
a match cast since. -/
theorem lookup_promised_iff (rules : Rules) (names : NameTable) (world : World)
    (rs : List Request) (v : Var) :
    let steps := (opened rules names world).steps rs
    let b := ((opened rules names world).served rs).builder
    b.lookup v = latestValue v.id steps ∧
      (b.lookup v = promisedValue v.id steps ↔ latestValue v.id steps = none ∨
        (isOpenParameter v.id steps = false ∧ latestIsCast v.id steps = false)) := by
  intro steps b
  have hrec : b.Records steps := steps_induction (s := opened rules names world)
    (P := fun steps b => b.Records steps) (fun _ => rfl) (fun h ht => h.turn ht) rs
  have hlookup : b.lookup v = latestValue v.id steps := hrec v.id
  refine ⟨hlookup, ?_⟩
  rw [hlookup, promisedValue]
  split
  · next hp =>
    refine ⟨.inl, fun h => ?_⟩
    rcases h with h | ⟨hparam, hcast⟩
    · exact h
    · rw [hparam, hcast] at hp
      cases hp
  · next hp =>
    rw [Bool.or_eq_true, not_or, Bool.not_eq_true, Bool.not_eq_true] at hp
    exact ⟨fun _ => .inr hp, fun _ => rfl⟩

namespace Rebinding

def x : Var :=
  .make ⟨0, none⟩ ⟨1, "x"⟩ none false

def value : Expr :=
  .leaf ⟨⟨2, none⟩, none⟩ (.externFunc "f")

def session : Session Unit :=
  opened .empty .empty ⟨5, []⟩

/-- A match cast of a variable that is bound already. -/
def recast : List Request :=
  [.beginBlock .plain, .emitBinding (.bind ⟨3, none⟩ x value),
    .emitBinding (.cast ⟨4, none⟩ x value .object)]

/-- A scope of a variable that is bound already. -/
def rescope : List Request :=
  [.beginBlock .plain, .emitBinding (.bind ⟨3, none⟩ x value), .endBlock, .beginScope [x]]

end Rebinding

open Rebinding in
/-- The value of before is still on record for a variable of a match cast and for a parameter. -/
theorem lookup_outdated :
    ((session.served recast).builder.lookup x = some value ∧
      promisedValue x.id (session.steps recast) = none) ∧
    ((session.served rescope).builder.lookup x = some value ∧
      promisedValue x.id (session.steps rescope) = none) := by
  exact ⟨⟨rfl, rfl⟩, rfl, rfl⟩

end DataflowIR
