import DataflowIR.Proofs.Relabeling.Sessions
import DataflowIR.Proofs.Traversal.Agreement
import Mathlib.Order.Nat

namespace DataflowIR

/-- The labels that one run takes from `start` on, as far as `stop`, are those that another run
takes from `start'` on. -/
structure Relabeling where
  perm : Equiv.Perm Nat
  start : Nat
  start' : Nat
  stop : Nat
  shift : ∀ k, start + k < stop → perm (start + k) = start' + k

variable {τ υ : Type} (ℓ : Relabeling)

/-- The state `s'` is `s` relabeled, but for reports and data. -/
structure Session.Relabels (s : Session τ) (s' : Session υ) : Prop where
  uniform : s.builder.rules.Uniform ℓ.perm
  builder : s'.builder = s.builder.relabel ℓ.perm
  remap : s'.remap = s.remap.relabel ℓ.perm
  supply : ∃ k, s.world.next = ℓ.start + k ∧ s'.world.next = ℓ.start' + k

variable {α α' β β' : Type}

/-- From a state and the relabeled state the two computations end alike, if the first has not
passed the end of the labels that are known; `g` relabels what it gives. -/
structure Act.Tracks (g : α → α') (act : Build τ α) (act' : Build υ α') : Prop where
  next_le : ∀ s, s.world.next ≤ (act.exec s).2.world.next
  alike : ∀ s s', s.Relabels ℓ s' → (act.exec s).2.world.next ≤ ℓ.stop →
    (act'.exec s').1 = relabelOutcome ℓ.perm g (act.exec s).1 ∧
      (act.exec s).2.Relabels ℓ (act'.exec s').2

variable {ℓ}

namespace Act.Tracks

open Act

theorem pure {g : α → α'} (a : α) :
    Tracks ℓ g (pure a : Build τ α) (pure (g a) : Build υ α') := by
  exact ⟨fun _ => le_rfl, fun _ _ hs _ => ⟨rfl, hs⟩⟩

theorem pure_of_eq {g : α → α'} {a : α} {b : α'} (h : b = g a) :
    Tracks ℓ g (Pure.pure a : Build τ α) (Pure.pure b : Build υ α') := by
  rw [h]
  exact .pure a

theorem fail {g : α → α'} (f : Fault) :
    Tracks ℓ g (fail f : Build τ α) (fail (f.relabel ℓ.perm) : Build υ α') := by
  exact ⟨fun _ => le_rfl, fun _ _ hs _ => ⟨rfl, hs⟩⟩

theorem resume {g : α → α'} (r : Except Fault α) :
    Tracks ℓ g (resume r : Build τ α) (resume (relabelOutcome ℓ.perm g r) : Build υ α') := by
  cases r with
  | ok a => exact .pure a
  | error f => exact .fail f

/-- The labels that the second part takes are taken after those of the first. -/
theorem bind {g : α → α'} {h : β → β'} {act : Build τ α} {act' : Build υ α'}
    {next : α → Build τ β} {next' : α' → Build υ β'} (ha : Tracks ℓ g act act')
    (hn : ∀ a, Tracks ℓ h (next a) (next' (g a))) :
    Tracks ℓ h (act >>= next) (act' >>= next') := by
  constructor
  · intro s
    have hle := ha.next_le s
    rw [exec_bind]
    cases hr : act.exec s with
    | mk r t =>
      rw [hr] at hle
      cases r with
      | ok a => exact hle.trans ((hn a).next_le t)
      | error f => exact hle
  · intro s s' hs hstop
    have halike := ha.alike s s' hs
    rw [exec_bind] at hstop ⊢
    rw [exec_bind]
    cases hr : act.exec s with
    | mk r t =>
      cases hr' : act'.exec s' with
      | mk r' t' =>
        rw [hr] at hstop halike
        rw [hr'] at halike
        cases r with
        | ok a =>
          obtain ⟨rfl, ht⟩ := halike (((hn a).next_le t).trans hstop)
          exact (hn a).alike t t' ht hstop
        | error f =>
          obtain ⟨rfl, ht⟩ := halike hstop
          exact ⟨rfl, ht⟩

theorem attempt {g : α → α'} {act : Build τ α} {act' : Build υ α'} (h : Tracks ℓ g act act') :
    Tracks ℓ (relabelOutcome ℓ.perm g) act.attempt act'.attempt := by
  refine ⟨h.next_le, ?_⟩
  intro s s' hs hstop
  obtain ⟨hr, ht⟩ := h.alike s s' hs hstop
  exact ⟨congrArg Except.ok hr, ht⟩

theorem ite {g : α → α'} {p : Prop} [Decidable p] {x y : Build τ α} {x' y' : Build υ α'}
    (hx : Tracks ℓ g x x') (hy : Tracks ℓ g y y') :
    Tracks ℓ g (if p then x else y) (if p then x' else y') := by
  split
  · exact hx
  · exact hy

/-- A computation that takes no labels. -/
theorem of_exec {g : α → α'} {act : Build τ α} {act' : Build υ α'}
    (hn : ∀ s, (act.exec s).2.world.next = s.world.next)
    (h : ∀ s s', s.Relabels ℓ s' →
      (act'.exec s').1 = relabelOutcome ℓ.perm g (act.exec s).1 ∧
        (act.exec s).2.Relabels ℓ (act'.exec s').2) : Tracks ℓ g act act' := by
  exact ⟨fun s => (hn s).ge, fun s s' hs _ => h s s' hs⟩

end Act.Tracks

namespace Session

open Act (Tracks)

theorem fresh_tracks : Tracks ℓ ℓ.perm (fresh : Build τ Nat) (fresh : Build υ Nat) := by
  refine ⟨fun s => Nat.le_succ _, ?_⟩
  rintro s s' ⟨hu, hb, hr, k, hk, hk'⟩ hstop
  have hlt : ℓ.start + k < ℓ.stop := by
    rw [← hk]
    exact hstop
  refine ⟨?_, hu, hb, hr, k + 1, congrArg (· + 1) hk, congrArg (· + 1) hk'⟩
  change Except.ok s'.world.next = .ok (ℓ.perm s.world.next)
  rw [hk, hk', ℓ.shift k hlt]

theorem freshMark_tracks (span : Option Span) :
    Tracks ℓ (Mark.relabel ℓ.perm) (freshMark span : Build τ Mark)
      (freshMark span : Build υ Mark) := by
  exact fresh_tracks.bind fun n => .pure (Mark.mk n span)

theorem report_tracks (e e' : Event) :
    Tracks ℓ id (report e : Build τ Unit) (report e' : Build υ Unit) := by
  refine .of_exec (fun _ => rfl) ?_
  intro _ _ hs
  exact ⟨rfl, hs.uniform, hs.builder, hs.remap, hs.supply⟩

theorem getBuilder_tracks :
    Tracks ℓ (Builder.relabel ℓ.perm) (getBuilder : Build τ Builder)
      (getBuilder : Build υ Builder) := by
  refine .of_exec (fun _ => rfl) ?_
  intro _ _ hs
  exact ⟨congrArg Except.ok hs.builder, hs⟩

theorem beginBlock_tracks (kind : BlockKind) :
    Tracks ℓ id (beginBlock kind : Build τ Unit) (beginBlock kind : Build υ Unit) := by
  refine .of_exec (fun _ => rfl) fun s _ hs => ?_
  refine ⟨rfl, hs.uniform, ?_, hs.remap, hs.supply⟩
  exact (congrArg (Builder.beginBlock kind) hs.builder).trans (s.builder.beginBlock_relabel _
    kind).symm

theorem endBlock_tracks :
    Tracks ℓ (Block.relabel ℓ.perm) (endBlock : Build τ Block) (endBlock : Build υ Block) := by
  constructor
  · intro s
    rw [exec_endBlock]
    cases s.builder.frames with
    | nil => exact le_rfl
    | cons => exact Nat.le_succ _
  · rintro s s' ⟨hu, hb, hr, k, hk, hk'⟩ hstop
    have hf : s'.builder.frames = s.builder.frames.map (Frame.relabel ℓ.perm) := by rw [hb]; rfl
    rw [exec_endBlock] at hstop ⊢
    rw [exec_endBlock, hf]
    cases hframes : s.builder.frames with
    | nil => exact ⟨rfl, hu, hb, hr, k, hk, hk'⟩
    | cons frame rest =>
      rw [hframes] at hstop
      have hlt : ℓ.start + k < ℓ.stop := by
        rw [← hk]
        exact hstop
      refine ⟨?_, hu, ?_, hr, k + 1, congrArg (· + 1) hk, congrArg (· + 1) hk'⟩
      · have hn : s'.world.next = ℓ.perm s.world.next := by rw [hk, hk', ℓ.shift k hlt]
        simp only [List.map_cons, relabelOutcome, Block.relabel, Mark.relabel, hn,
          Binding.relabelAll_eq_map]
        rfl
      · simp only [hb]
        rfl

theorem beginScope_tracks (params : List Var) :
    Tracks ℓ id (beginScope params : Build τ Unit)
      (beginScope (params.map (Var.relabel ℓ.perm)) : Build υ Unit) := by
  refine .of_exec (fun _ => rfl) fun s _ hs => ?_
  refine ⟨rfl, hs.uniform, ?_, hs.remap, hs.supply⟩
  exact (congrArg (Builder.beginScope _) hs.builder).trans (s.builder.beginScope_relabel _
    params).symm

theorem endScope_tracks :
    Tracks ℓ id (endScope : Build τ Unit) (endScope : Build υ Unit) := by
  refine .of_exec ?_ ?_
  · intro s
    rw [exec_endScope]
    cases s.builder.scopes <;> rfl
  · rintro s s' ⟨hu, hb, hr, hn⟩
    have hsc : s'.builder.scopes = s.builder.scopes.map (List.map (Id.relabel ℓ.perm)) := by
      rw [hb]
      rfl
    rw [exec_endScope, exec_endScope, hsc]
    cases s.builder.scopes with
    | nil => exact ⟨rfl, hu, hb, hr, hn⟩
    | cons ids rest =>
      refine ⟨rfl, hu, ?_, hr, hn⟩
      simp only [hb]
      rfl

theorem normalize_tracks (e : Expr) :
    Tracks ℓ (Expr.relabel ℓ.perm) (normalize e : Build τ Expr)
      (normalize (e.relabel ℓ.perm) : Build υ Expr) := by
  constructor
  · intro s
    rw [exec_normalize]
    cases s.builder.missingSinfo e with
    | error f => exact le_rfl
    | ok i =>
      cases i with
      | none => exact le_rfl
      | some i => exact Nat.le_succ _
  · rintro s s' ⟨hu, hb, hr, k, hk, hk'⟩ hstop
    have hm := Builder.missingSinfo_relabel hu e
    rw [exec_normalize] at hstop ⊢
    rw [exec_normalize, hb, hm]
    cases hi : s.builder.missingSinfo e with
    | error f => exact ⟨rfl, hu, hb, hr, k, hk, hk'⟩
    | ok i =>
      rw [hi] at hstop
      cases i with
      | none => exact ⟨rfl, hu, hb, hr, k, hk, hk'⟩
      | some i =>
        have hlt : ℓ.start + k < ℓ.stop := by
          rw [← hk]
          exact hstop
        have hn : s'.world.next = ℓ.perm s.world.next := by rw [hk, hk', ℓ.shift k hlt]
        refine ⟨?_, hu, rfl, hr, k + 1, congrArg (· + 1) hk, congrArg (· + 1) hk'⟩
        simp only [relabelOutcome, id, World.fresh, hn, Expr.relabel_withSinfo]

theorem emitBinding_tracks (b : Binding) :
    Tracks ℓ id (emitBinding b : Build τ Unit) (emitBinding (b.relabel ℓ.perm) : Build υ Unit) := by
  refine .of_exec ?_ ?_
  · intro s
    rw [exec_emitBinding]
    cases s.builder.push b <;> rfl
  · rintro s s' ⟨hu, hb, hr, hn⟩
    rw [exec_emitBinding, exec_emitBinding, hb, Builder.push_relabel]
    cases hp : s.builder.push b with
    | error f => exact ⟨rfl, hu, hb, hr, hn⟩
    | ok builder => exact ⟨rfl, (Builder.rules_of_push hp).symm ▸ hu, rfl, hr, hn⟩

private theorem requestName_tracks (hint : String) :
    Tracks ℓ id (requestName hint : Build τ String) (requestName hint : Build υ String) := by
  refine .of_exec (fun _ => rfl) ?_
  rintro s s' ⟨hu, hb, hr, hn⟩
  have hexec : ∀ {ρ : Type} (s : Session ρ), (requestName hint).exec s =
      (.ok (s.builder.requestName hint).1,
        { s with builder := (s.builder.requestName hint).2 }) := fun _ => rfl
  rw [hexec, hexec, hb]
  exact ⟨rfl, hu, rfl, hr, hn⟩

private theorem freshVar_tracks (hint : String) (sinfo : Option StructInfo) (dataflow : Bool) :
    Tracks ℓ (Var.relabel ℓ.perm) (freshVar hint sinfo dataflow : Build τ Var)
      (freshVar hint sinfo dataflow : Build υ Var) := by
  refine (requestName_tracks _).bind fun name => ?_
  refine (freshMark_tracks none).bind fun m => ?_
  refine (fresh_tracks.bind fun n => .pure (g := Id.relabel ℓ.perm) ⟨n, name⟩).bind fun id => ?_
  exact .pure (Var.make m id sinfo dataflow)

private theorem emitValue_tracks (value : Expr) (hint : String) (dataflow : Bool) :
    Tracks ℓ (Var.relabel ℓ.perm) (emitValue value hint dataflow : Build τ Var)
      (emitValue (value.relabel ℓ.perm) hint dataflow : Build υ Var) := by
  refine (normalize_tracks value).bind fun value => ?_
  rw [Expr.sinfo_relabel]
  exact (freshVar_tracks hint _ dataflow).bind fun v => (freshMark_tracks none).bind fun m =>
    (emitBinding_tracks (.bind m v value)).bind fun _ => .pure v

theorem emit_tracks (value : Expr) (hint : String) :
    Tracks ℓ (Var.relabel ℓ.perm) (emit value hint : Build τ Var)
      (emit (value.relabel ℓ.perm) hint : Build υ Var) := by
  refine getBuilder_tracks.bind fun b => ?_
  rw [Builder.isEmpty_frames_relabel, Builder.inDataflow_relabel]
  exact .ite ((Tracks.fail (g := id) _).bind fun _ => emitValue_tracks value hint _)
    (emitValue_tracks value hint _)

theorem openRemap_tracks :
    Tracks ℓ id (openRemap : Build τ Unit) (openRemap : Build υ Unit) := by
  refine .of_exec (fun _ => rfl) fun _ _ hs => ?_
  exact ⟨rfl, hs.uniform, hs.builder, congrArg Remap.openScope hs.remap, hs.supply⟩

theorem closeRemap_tracks :
    Tracks ℓ id (closeRemap : Build τ Unit) (closeRemap : Build υ Unit) := by
  refine .of_exec ?_ ?_
  · intro s
    rw [exec_closeRemap]
    cases s.remap.closeScope? <;> rfl
  · rintro s s' ⟨hu, hb, hr, hn⟩
    rw [exec_closeRemap, exec_closeRemap, hr, Remap.closeScope?_relabel]
    cases s.remap.closeScope? with
    | none => exact ⟨rfl, hu, hb, hr, hn⟩
    | some r => exact ⟨rfl, hu, hb, rfl, hn⟩

theorem setRemap_tracks (id : Id) (v : Var) :
    Tracks ℓ (fun u => u) (setRemap id v : Build τ Unit)
      (setRemap (id.relabel ℓ.perm) (v.relabel ℓ.perm) : Build υ Unit) := by
  refine .of_exec (fun _ => rfl) fun s _ hs => ?_
  refine ⟨rfl, hs.uniform, hs.builder, ?_, hs.supply⟩
  exact (congrArg (Remap.insert · _ _) hs.remap).trans (s.remap.insert_relabel _ id v).symm

theorem getRemap?_tracks (id : Id) :
    Tracks ℓ (Option.map (Var.relabel ℓ.perm)) (getRemap? id : Build τ (Option Var))
      (getRemap? (id.relabel ℓ.perm) : Build υ (Option Var)) := by
  refine .of_exec (fun _ => rfl) fun s _ hs => ?_
  refine ⟨?_, hs⟩
  exact congrArg Except.ok ((congrArg (Remap.get? · _) hs.remap).trans (s.remap.get?_relabel _ id))

theorem retype_tracks (v : Var) (sinfo : Option StructInfo) :
    Tracks ℓ (Var.relabel ℓ.perm) (retype v sinfo : Build τ Var)
      (retype (v.relabel ℓ.perm) sinfo : Build υ Var) := by
  cases sinfo with
  | none => exact .pure v
  | some i => exact .ite (.pure v) (fresh_tracks.bind fun n => .pure (v.withSinfo n i))

theorem dropBuilder_tracks :
    Tracks ℓ id (dropBuilder : Build τ Unit) (dropBuilder : Build υ Unit) := by
  refine getBuilder_tracks.bind fun b => ?_
  dsimp only
  rw [Builder.depth_relabel]
  exact .ite (report_tracks _ _) (.pure ())

end Session

end DataflowIR
