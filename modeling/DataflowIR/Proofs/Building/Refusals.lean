import DataflowIR.Proofs.Building.Exchanges

namespace DataflowIR

open Session

/-- Whether the parameters of the scope that it begins, if any, have identities from the supply. -/
def Exchange.allocated {σ : Type} (x : Exchange σ) : Bool :=
  match x.step? with
  | some (.scopeBegun params) => params.all fun v => v.id.index < x.before.world.next
  | _ => true

namespace Builder

/-- The parameters of the open scopes were made when `n` was unused. -/
def ScopesBelow (b : Builder) (n : Nat) : Prop :=
  ∀ params ∈ b.scopes, ∀ id ∈ params, id.index < n

namespace ScopesBelow

variable {b b' : Builder} {n n' : Nat}

theorem mono (h : b.ScopesBelow n) (hn : n ≤ n') : b.ScopesBelow n' := by
  intro params hp id hid
  exact (h params hp id hid).trans_le hn

theorem isParameter_eq_false (h : b.ScopesBelow n) {id : Id} (hid : n ≤ id.index) :
    b.isParameter id = false := by
  rw [Bool.eq_false_iff]
  intro hp
  obtain ⟨params, hparams, hc⟩ := List.any_eq_true.mp hp
  have hlt := h params hparams id (List.contains_iff_mem.mp hc)
  exact absurd hid (Nat.not_le_of_lt hlt)

theorem turn {step? : Option BuildStep} {draw? : Option Draw} (h : b.ScopesBelow n)
    (hs : ∀ params, step? = some (.scopeBegun params) → ∀ v ∈ params, v.id.index < n)
    (ht : b.Turn n step? draw? b') : b'.ScopesBelow n := by
  cases ht with
  | quiet | begun | ended | named | lost => exact h
  | scopeBegun params =>
    refine List.forall_mem_cons.mpr ⟨?_, h⟩
    intro id hid
    obtain ⟨v, hv, rfl⟩ := List.mem_map.mp hid
    exact hs params rfl v hv
  | scopeEnded hsc =>
    intro params hp
    exact h params (by rw [hsc]; exact List.mem_cons_of_mem _ hp)
  | emitted hp | emittedNew _ hp =>
    obtain ⟨_, _, -, -, rfl⟩ := push_ok hp
    exact h

end ScopesBelow

end Builder

theorem Exchange.scopesBelow {σ : Type} {x : Exchange σ} (ha : x.allocated)
    (h : x.before.builder.ScopesBelow x.before.world.next) :
    x.after.builder.ScopesBelow x.after.world.next := by
  obtain ⟨hle, ht⟩ := x.turn
  refine (h.turn ?_ ht).mono hle
  intro params hs v hv
  rw [Exchange.allocated, hs] at ha
  simpa using List.all_eq_true.mp ha v hv

/-- By induction on the requests. -/
private theorem Session.scopesBelow_served {σ : Type} {s : Session σ}
    (hs : s.builder.ScopesBelow s.world.next) {rs : List Request}
    (h : (s.exchanges rs).all Exchange.allocated) :
    (s.served rs).builder.ScopesBelow (s.served rs).world.next := by
  refine exchanges_induction (P := fun xs t => xs.all Exchange.allocated = true →
    t.builder.ScopesBelow t.world.next) (fun _ => hs) (fun xs x ih ha => ?_) rs h
  rw [List.all_append, Bool.and_eq_true, List.all_cons, Bool.and_eq_true] at ha
  exact x.scopesBelow ha.2.1 (ih ha.1)

/-- What was lost was the name of a variable that is a parameter. -/
private theorem Exchange.builder_of_error {σ : Type} {x : Exchange σ} {f : Fault}
    (h : x.before.builder.ScopesBelow x.before.world.next) (hf : x.outcome = .error f) :
    x.after.builder = x.before.builder := by
  obtain ⟨hs, hd⟩ := Exchange.silent_of_error hf
  have ht := x.turn.2
  rw [hs, hd] at ht
  generalize hb : x.after.builder = b' at ht
  cases ht with
  | quiet => rfl
  | lost hint hid hp =>
    rw [h.isParameter_eq_false hid] at hp
    cases hp

/-- In every state that requests can bring about, whose scopes have parameters with identities from
the supply, a request that fails leaves the blocks, the scopes, the record of bound values and the
name table as they were. -/
theorem failed_keeps_builder {rules : Rules} {names : NameTable} {world : World}
    {rs : List Request} (h : ((opened rules names world).exchanges rs).all Exchange.allocated)
    {r : Request} {f : Fault}
    (hf : (Exchange.mk ((opened rules names world).served rs) r).outcome = .error f) :
    (Exchange.mk ((opened rules names world).served rs) r).after.builder =
      ((opened rules names world).served rs).builder := by
  have hstart : (opened rules names world).builder.ScopesBelow world.next := List.forall_mem_nil _
  exact Exchange.builder_of_error (scopesBelow_served hstart h) hf

namespace Refusing

def x : Var :=
  .make ⟨0, none⟩ ⟨1, "x"⟩ none false

def rules : Rules :=
  .singleton "bad" (.fail "refused")

/-- A call that the rules refuse. -/
def call : Expr :=
  .mkCall ⟨2, none⟩ (.mkOp 3 "bad") [] none []

def start : Session Unit :=
  opened rules .empty ⟨4, []⟩

def requests : List Request :=
  [.beginScope [x], .beginBlock .dataflow, .emit (.var x) ""]

end Refusing

open Refusing in
theorem failed_keeps_builder_call :
    (Exchange.mk (start.served requests) (.emit call "")).outcome = .error (.raised "refused") ∧
      (Exchange.mk (start.served requests) (.emit call "")).after.builder =
        (start.served requests).builder := by
  have h : (start.exchanges requests).all Exchange.allocated := rfl
  have hf : (Exchange.mk (start.served requests) (.emit call "")).outcome =
    .error (.raised "refused") := rfl
  exact ⟨hf, failed_keeps_builder h hf⟩

end DataflowIR
