import DataflowIR.Build.Request
import DataflowIR.Proofs.Rewrite.Steps
import DataflowIR.Proofs.Traversal.Agreement
import Mathlib.Order.Nat

namespace DataflowIR

/-- A request, and the state in which it was made. -/
structure Exchange (σ : Type) where
  before : Session σ
  request : Request

/-- What a client sees of the blocks, the scopes and the bindings of a builder. -/
inductive BuildStep where
  | begun (kind : BlockKind)
  | ended (b : Block)
  | scopeBegun (params : List Var)
  | scopeEnded
  | emitted (b : Binding)

/-- A name that was handed out, with the hint that was given. -/
structure Draw where
  hint : String
  name : String
  deriving DecidableEq

/-- The expression as it is bound, with its struct info filled in. -/
def Session.filled {σ : Type} (s : Session σ) (e : Expr) : Expr :=
  match s.builder.missingSinfo e with
  | .ok (some sinfo) => e.withSinfo s.world.next sinfo
  | _ => e

namespace Exchange

variable {σ : Type}

def outcome (x : Exchange σ) : Except Fault Answer :=
  ((Session.serve x.request).exec x.before).1

def after (x : Exchange σ) : Session σ :=
  ((Session.serve x.request).exec x.before).2

/-- A binding of a new variable is a new node too, made right after the variable. -/
def step? (x : Exchange σ) : Option BuildStep :=
  match x.request, x.outcome with
  | .beginBlock kind, .ok _ => some (.begun kind)
  | .endBlock, .ok (.block b) => some (.ended b)
  | .beginScope params, .ok _ => some (.scopeBegun params)
  | .endScope, .ok _ => some .scopeEnded
  | .emit value _, .ok (.var v) | .emitOutput value _, .ok (.var v) =>
    some (.emitted (.bind ⟨v.id.index + 1, none⟩ v (x.before.filled value)))
  | .emitCast value sinfo _, .ok (.var v) =>
    some (.emitted (.cast ⟨v.id.index + 1, none⟩ v (x.before.filled value) sinfo))
  | .emitBinding b, .ok _ => some (.emitted b)
  | _, _ => none

def draw? (x : Exchange σ) : Option Draw :=
  match x.request, x.outcome with
  | .name hint, .ok (.name name) => some ⟨hint, name⟩
  | .emit _ hint, .ok (.var v) | .emitOutput _ hint, .ok (.var v)
  | .emitCast _ _ hint, .ok (.var v) => some ⟨Builder.hintOrDefault hint v.dataflow, v.id.hint⟩
  | _, _ => none

end Exchange

namespace Session

variable {σ : Type}

/-- A new builder that takes its names from the table. -/
def opened (rules : Rules) (names : NameTable) (world : World) : Session Unit :=
  { new () rules world with builder := { Builder.new rules with names } }

def exchanges (s : Session σ) : List Request → List (Exchange σ)
  | [] => []
  | r :: rs => ⟨s, r⟩ :: exchanges (Exchange.after ⟨s, r⟩) rs

/-- The state once all requests are served, whatever their outcomes. -/
def served (s : Session σ) (rs : List Request) : Session σ :=
  rs.foldl (fun t r => Exchange.after ⟨t, r⟩) s

def steps (s : Session σ) (rs : List Request) : List BuildStep :=
  (s.exchanges rs).filterMap Exchange.step?

/-- What holds at the start and is kept by each exchange holds after all of them. -/
theorem exchanges_induction {P : List (Exchange σ) → Session σ → Prop} {s : Session σ}
    (start : P [] s) (step : ∀ xs x, P xs x.before → P (xs ++ [x]) x.after) (rs : List Request) :
    P (s.exchanges rs) (s.served rs) := by
  suffices h : ∀ xs t, P xs t → P (xs ++ t.exchanges rs) (t.served rs) from h [] s start
  induction rs with
  | nil =>
    intro xs t ht
    rwa [exchanges, List.append_nil]
  | cons r rs ih =>
    intro xs t ht
    have h := ih (xs ++ [⟨t, r⟩]) _ (step xs ⟨t, r⟩ ht)
    rwa [List.append_assoc] at h

end Session

namespace Builder

/-- What a request can do to the builder `b`, by what the client sees of it. A name that was taken
for a variable is lost if the variable turns out to be a parameter. -/
inductive Turn (next : Nat) (b : Builder) : Option BuildStep → Option Draw → Builder → Prop
  | quiet : Turn next b none none b
  | begun (kind : BlockKind) : Turn next b (some (.begun kind)) none (b.beginBlock kind)
  | ended {frame : Frame} {rest : List Frame} (mark : Mark) (h : b.frames = frame :: rest) :
      Turn next b (some (.ended (.mk mark frame.kind frame.bindings))) none
        { b with frames := rest }
  | scopeBegun (params : List Var) :
      Turn next b (some (.scopeBegun params)) none (b.beginScope params)
  | scopeEnded {params : List Id} {rest : List (List Id)} (h : b.scopes = params :: rest) :
      Turn next b (some .scopeEnded) none { b with scopes := rest }
  | emitted {binding : Binding} {b' : Builder} (h : b.push binding = .ok b') :
      Turn next b (some (.emitted binding)) none b'
  | named (hint : String) :
      Turn next b none (some ⟨hint, (b.requestName hint).1⟩) (b.requestName hint).2
  | emittedNew {binding : Binding} {b' : Builder} (hint : String)
      (h : (b.requestName hint).2.push binding = .ok b') :
      Turn next b (some (.emitted binding)) (some ⟨hint, (b.requestName hint).1⟩) b'
  | lost {id : Id} (hint : String) (hid : next ≤ id.index) (h : b.isParameter id = true) :
      Turn next b none none (b.requestName hint).2

end Builder

namespace Session

variable {σ : Type}

private theorem exec_freshVar (hint : String) (sinfo : Option StructInfo) (dataflow : Bool)
    (s : Session σ) :
    (freshVar hint sinfo dataflow).exec s =
      let named := s.builder.requestName (Builder.hintOrDefault hint dataflow)
      (.ok (.make ⟨s.world.next, none⟩ ⟨s.world.next + 1, named.1⟩ sinfo dataflow),
        { s with builder := named.2, world := s.world.fresh.2.fresh.2 }) := rfl

end Session

namespace Builder

/-- In a block that takes variables of its kind, a binding is refused for a parameter only. -/
private theorem isParameter_of_push {b : Builder} {binding : Binding} {f : Fault}
    (h : b.push binding = .error f) (hne : b.frames ≠ [])
    (hd : binding.var.dataflow → b.inDataflow) : b.isParameter binding.var.id = true := by
  unfold push at h
  split at h
  · next hf => exact absurd hf hne
  · next frame rest hf =>
    split at h
    · next hv =>
      simp only [Bool.and_eq_true] at hv
      simpa [inDataflow, hf, bne] using And.intro (hd hv.1) hv.2
    · split at h
      · next hp => exact hp
      · cases h

end Builder

namespace Session

variable {σ : Type}

/-- How a request to bind a new variable to `value` ends: `binding` makes the binding of its mark,
its variable and the value with its struct info. -/
inductive BindsNew (s : Session σ) (value : Expr) (hint : String)
    (binding : Mark → Var → Expr → Binding) : Except Fault Var × Session σ → Prop
  | refused {f : Fault} : BindsNew s value hint binding (.error f, s)
  | bound {v : Var} {s' : Session σ} (hle : s.world.next ≤ s'.world.next)
      (hn : v.id.hint = (s.builder.requestName (Builder.hintOrDefault hint v.dataflow)).1)
      (h : (s.builder.requestName (Builder.hintOrDefault hint v.dataflow)).2.push
        (binding ⟨v.id.index + 1, none⟩ v (s.filled value)) = .ok s'.builder) :
      BindsNew s value hint binding (.ok v, s')
  | lost {v : Var} {f : Fault} {s' : Session σ} (hle : s.world.next ≤ s'.world.next)
      (hb : s'.builder = (s.builder.requestName (Builder.hintOrDefault hint v.dataflow)).2)
      (hid : s.world.next ≤ v.id.index) (h : s.builder.isParameter v.id = true) :
      BindsNew s value hint binding (.error f, s')

section Binds

variable {s : Session σ} (value : Expr) (hint : String) {dataflow : Bool}
  {binding : Mark → Var → Expr → Binding} (hv : ∀ m v e, (binding m v e).var = v)
  (hne : s.builder.frames ≠ []) (hd : dataflow → s.builder.inDataflow)

include hv hne hd

/-- The value has its struct info, and `t` differs from `s` in the supply alone. -/
private theorem bindsNew_of_filled {t : Session σ} (sinfo : Option StructInfo)
    (hb : t.builder = s.builder) (hle : s.world.next ≤ t.world.next) :
    s.BindsNew value hint binding ((do
      let v ← freshVar hint sinfo dataflow
      emitBinding (binding (← freshMark none) v (s.filled value))
      return v : Build σ Var).exec t) := by
  have hid : s.world.next ≤ t.world.next + 1 := hle.trans (Nat.le_succ _)
  have hnext : s.world.next ≤ t.world.next + 3 := hle.trans (Nat.le_add_right _ _)
  simp only [Act.exec_bind, exec_freshVar, exec_emitBinding, freshMark, fresh, Act.exec_modifyGet,
    Act.exec_pure, hb]
  let v : Var := .make ⟨t.world.next, none⟩ ⟨t.world.next + 1,
    (s.builder.requestName (Builder.hintOrDefault hint dataflow)).1⟩ sinfo dataflow
  generalize hp : Builder.push _ _ = pushed
  cases pushed with
  | ok b => exact .bound (v := v) hnext rfl hp
  | error f =>
    have h := Builder.isParameter_of_push hp hne (by rw [hv]; exact hd)
    rw [hv] at h
    exact .lost (v := v) hnext rfl hid h

theorem bindsNew (sinfo : Expr → Option StructInfo) :
    s.BindsNew value hint binding ((do
      let value ← normalize value
      let v ← freshVar hint (sinfo value) dataflow
      emitBinding (binding (← freshMark none) v value)
      return v : Build σ Var).exec s) := by
  rw [Act.exec_bind, exec_normalize]
  cases hm : s.builder.missingSinfo value with
  | error f => exact .refused
  | ok r =>
    cases r with
    | none =>
      have hf : s.filled value = value := by rw [filled, hm]
      have h := bindsNew_of_filled value hint hv hne hd (sinfo value) rfl (le_refl s.world.next)
      rwa [hf] at h
    | some i =>
      have hf : s.filled value = value.withSinfo s.world.next i := by rw [filled, hm]
      have h := bindsNew_of_filled (t := { s with world := s.world.fresh.2 }) value hint hv hne hd
        (sinfo (value.withSinfo s.world.next i)) rfl (Nat.le_succ _)
      rwa [hf] at h

end Binds

variable (s : Session σ) (value : Expr) (hint : String)

private theorem emit_bindsNew : s.BindsNew value hint .bind ((emit value hint).exec s) := by
  simp only [emit, getBuilder, Act.exec_bind, Act.exec_get, Act.exec_pure]
  split
  · exact .refused
  · next hf => exact bindsNew value hint (fun _ _ _ => rfl) (by simpa using hf) id _

private theorem emitOutput_bindsNew :
    s.BindsNew value hint .bind ((emitOutput value hint).exec s) := by
  simp only [emitOutput, getBuilder, Act.exec_bind, Act.exec_get, Act.exec_pure]
  split
  · exact .refused
  · next hin =>
    have hne : s.builder.frames ≠ [] := by
      intro hf
      simp [Builder.inDataflow, hf] at hin
    exact bindsNew value hint (fun _ _ _ => rfl) hne (fun h => absurd h Bool.false_ne_true) _

private theorem emitCast_bindsNew (sinfo : StructInfo) : s.BindsNew value hint
    (fun m v e => .cast m v e sinfo) ((emitCast value sinfo hint).exec s) := by
  simp only [emitCast, getBuilder, Act.exec_bind, Act.exec_get, Act.exec_pure]
  split
  · exact .refused
  · next hf =>
    exact bindsNew value hint (fun _ _ _ => rfl) (by simpa using hf) id fun _ => some sinfo

end Session

theorem Session.BindsNew.turn {σ : Type} {s : Session σ} {value : Expr} {hint : String}
    {binding : Mark → Var → Expr → Binding} {r : Except Fault Var × Session σ}
    (h : s.BindsNew value hint binding r) :
    s.world.next ≤ r.2.world.next ∧ s.builder.Turn s.world.next
      (r.1.toOption.map fun v =>
        .emitted (binding ⟨v.id.index + 1, none⟩ v (s.filled value)))
      (r.1.toOption.map fun v => ⟨Builder.hintOrDefault hint v.dataflow, v.id.hint⟩)
      r.2.builder := by
  cases h with
  | refused => exact ⟨le_refl _, .quiet⟩
  | @bound v s' hle hn h =>
    refine ⟨hle, ?_⟩
    change Builder.Turn _ _ (some _) (some ⟨_, v.id.hint⟩) _
    rw [hn]
    exact .emittedNew _ h
  | lost hle hb hid h =>
    refine ⟨hle, ?_⟩
    change Builder.Turn _ _ none none _
    rw [hb]
    exact .lost _ hid h

namespace Exchange

variable {σ : Type}

/-- What fails shows nothing to the client. -/
theorem silent_of_error {x : Exchange σ} {f : Fault} (h : x.outcome = .error f) :
    x.step? = none ∧ x.draw? = none := by
  obtain ⟨s, r⟩ := x
  cases r <;> simp [step?, draw?, h]

/-- A request that is served by binding a new variable. -/
theorem turn_of_bindsNew {x : Exchange σ} {act : Build σ Var} {value : Expr} {hint : String}
    {binding : Mark → Var → Expr → Binding}
    (hx : Session.serve x.request = do return .var (← act))
    (hbinds : x.before.BindsNew value hint binding (act.exec x.before))
    (hseen : ∀ v, x.outcome = .ok (.var v) →
      x.step? = some (.emitted (binding ⟨v.id.index + 1, none⟩ v (x.before.filled value))) ∧
        x.draw? = some ⟨Builder.hintOrDefault hint v.dataflow, v.id.hint⟩) :
    x.before.world.next ≤ x.after.world.next ∧
      x.before.builder.Turn x.before.world.next x.step? x.draw? x.after.builder := by
  have hserve : (Session.serve x.request).exec x.before = (x.outcome, x.after) := rfl
  rw [hx, Act.exec_bind] at hserve
  have h := hbinds.turn
  rcases hr : act.exec x.before with ⟨r, s'⟩
  rw [hr] at h hserve
  obtain ⟨ho, ha⟩ := Prod.mk.inj hserve
  cases r with
  | error f =>
    obtain ⟨hs, hd⟩ := silent_of_error ho.symm
    rw [hs, hd, ← ha]
    exact h
  | ok v =>
    obtain ⟨hs, hd⟩ := hseen v ho.symm
    rw [hs, hd, ← ha]
    exact h

/-- What has become of the builder follows from what the client sees. -/
theorem turn (x : Exchange σ) : x.before.world.next ≤ x.after.world.next ∧
    x.before.builder.Turn x.before.world.next x.step? x.draw? x.after.builder := by
  obtain ⟨s, r⟩ := x
  cases r with
  | beginBlock kind => exact ⟨le_refl _, .begun kind⟩
  | endBlock =>
    unfold step? draw? outcome after
    simp only [Session.serve, Act.exec_bind, Session.exec_endBlock]
    cases hf : s.builder.frames with
    | nil => exact ⟨le_refl _, .quiet⟩
    | cons frame rest => exact ⟨Nat.le_succ _, .ended _ hf⟩
  | beginScope params => exact ⟨le_refl _, .scopeBegun params⟩
  | endScope =>
    unfold step? draw? outcome after
    simp only [Session.serve, Act.exec_bind, Session.exec_endScope]
    cases hs : s.builder.scopes with
    | nil => exact ⟨le_refl _, .quiet⟩
    | cons params rest => exact ⟨le_refl _, .scopeEnded hs⟩
  | emit value hint =>
    exact turn_of_bindsNew rfl (s.emit_bindsNew value hint) fun v h => by simp [step?, draw?, h]
  | emitOutput value hint =>
    exact turn_of_bindsNew rfl (s.emitOutput_bindsNew value hint) fun v h => by
      simp [step?, draw?, h]
  | emitCast value sinfo hint =>
    exact turn_of_bindsNew rfl (s.emitCast_bindsNew value hint sinfo) fun v h => by
      simp [step?, draw?, h]
  | emitBinding b =>
    unfold step? draw? outcome after
    simp only [Session.serve, Act.exec_bind, Session.exec_emitBinding]
    cases hp : s.builder.push b with
    | error f => exact ⟨le_refl _, .quiet⟩
    | ok b' => exact ⟨le_refl _, .emitted hp⟩
  | normalize e =>
    unfold step? draw? outcome after
    simp only [Session.serve, Act.exec_bind, Session.exec_normalize]
    cases hm : s.builder.missingSinfo e with
    | error f => exact ⟨le_refl _, .quiet⟩
    | ok r =>
      cases r with
      | none => exact ⟨le_refl _, .quiet⟩
      | some i => exact ⟨Nat.le_succ _, .quiet⟩
  | name hint => exact ⟨le_refl _, .named hint⟩
  | number => exact ⟨Nat.le_succ _, .quiet⟩

end Exchange

/-- What holds of a builder at the start, and is kept by whatever a request can do, holds after all
requests. -/
theorem Session.steps_induction {σ : Type} {P : List BuildStep → Builder → Prop} {s : Session σ}
    (start : P [] s.builder) (turn : ∀ {steps next b step? draw? b'}, P steps b →
      b.Turn next step? draw? b' → P (steps ++ step?.toList) b') (rs : List Request) :
    P (s.steps rs) (s.served rs).builder := by
  refine exchanges_induction (P := fun xs t => P (xs.filterMap Exchange.step?) t.builder) start
    (fun xs x h => ?_) rs
  have happ : (xs ++ [x]).filterMap Exchange.step? =
      xs.filterMap Exchange.step? ++ x.step?.toList := by
    rw [List.filterMap_append]
    cases hx : x.step? <;> simp [hx]
  rw [happ]
  exact turn h x.turn.2

end DataflowIR
