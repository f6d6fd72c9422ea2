import DataflowIR.Proofs.Emission.Visits
import DataflowIR.Proofs.Traversal.Balance

namespace DataflowIR

def Event.emission? : Event → Option Binding
  | emitted _ b => some b
  | _ => none

/-- The bindings emitted so far, in their order. -/
def World.emissions (w : World) : List Binding :=
  (w.log.filterMap Event.emission?).reverse

theorem World.emissions_report (w : World) (e : Event) :
    (w.report e).emissions = w.emissions ++ e.emission?.toList := by
  rw [emissions, emissions, report, List.filterMap_cons]
  cases e.emission? <;> simp

/-- The bindings are appended to the innermost block. -/
def Frame.append (bs : List Binding) : List Frame → List Frame
  | [] => []
  | frame :: rest => { frame with bindings := frame.bindings ++ bs } :: rest

@[simp] theorem Frame.append_nil (frames : List Frame) : Frame.append [] frames = frames := by
  cases frames <;> simp [append]

private theorem Frame.append_append (bs cs : List Binding) (frames : List Frame) :
    append cs (append bs frames) = append (bs ++ cs) frames := by
  cases frames <;> simp [append]

namespace Remap

variable {V : Id → Var → Prop}

/-- `V` allows each replacement, those that a scope brings back included. -/
structure Within (V : Id → Var → Prop) (r : Remap) : Prop where
  table : ∀ {id w}, r.table.get? id = some w → V id w
  scopes : ∀ changes ∈ r.scopes, ∀ c ∈ changes, ∀ w, c.2 = some w → V c.1 w

theorem Within.openScope {r : Remap} (h : r.Within V) : r.openScope.Within V := by
  refine ⟨h.table, ?_⟩
  exact List.forall_mem_cons.mpr ⟨nofun, h.scopes⟩

theorem Within.insert {r : Remap} (h : r.Within V) {id : Id} {v : Var} (hv : V id v) :
    (r.insert id v).Within V := by
  obtain ⟨t, scopes⟩ := r
  refine ⟨?_, ?_⟩
  · intro k w hw
    rw [Remap.insert, IdTable.get?_insert] at hw
    split at hw
    · next hk =>
      cases hw
      exact hk ▸ hv
    · exact h.table hw
  · cases scopes with
    | nil => nofun
    | cons changes rest =>
      obtain ⟨hc, hr⟩ := List.forall_mem_cons.mp h.scopes
      refine List.forall_mem_cons.mpr ⟨List.forall_mem_cons.mpr ⟨?_, hc⟩, hr⟩
      intro w hw
      exact h.table hw

private theorem undo_within {t : IdTable Var} (ht : ∀ {id w}, t.get? id = some w → V id w)
    {changes : List RemapChange} (hc : ∀ c ∈ changes, ∀ w, c.2 = some w → V c.1 w) {id : Id}
    {w : Var} (h : (undo t changes).get? id = some w) : V id w := by
  induction changes generalizing t with
  | nil => exact ht h
  | cons c rest ih =>
    obtain ⟨hc, hrest⟩ := List.forall_mem_cons.mp hc
    refine ih ?_ hrest h
    intro k u hu
    rw [IdTable.get?_set] at hu
    split at hu
    · next hk => exact hk ▸ hc u hu
    · exact ht hu

theorem Within.closeScope? {r u : Remap} (h : r.Within V) (hu : r.closeScope? = some u) :
    u.Within V := by
  obtain ⟨t, scopes⟩ := r
  cases scopes with
  | nil => cases hu
  | cons changes rest =>
    cases hu
    obtain ⟨hc, hr⟩ := List.forall_mem_cons.mp h.scopes
    exact ⟨fun hw => undo_within h.table hc hw, hr⟩

end Remap

/-- A binding of the value to a variable whose identity was unused before, a dataflow variable only
in a dataflow block. -/
structure Binding.Binds (d : Bool) (n : Nat) (value : Expr) (n' : Nat) (b : Binding) : Prop where
  value : Refills n value b.value
  le : n ≤ b.var.id.index
  lt : b.var.id.index < n'
  dataflow : b.var.dataflow → d

/-- What is only done where a condition does not fail. -/
theorem Act.exec_failIf_ok {σ α : Type} {c : Prop} [Decidable c] {f : Fault} {next : Unit → Act σ α}
    {s s' : σ} {a : α}
    (h : (if c then Act.fail f >>= next else next ()).exec s = (.ok a, s')) :
    (next ()).exec s = (.ok a, s') := by
  split at h
  · obtain ⟨_, _, hf, -⟩ := Act.exec_bind_ok.mp h
    cases hf
  · exact h

namespace Session

variable {σ α : Type} {V : Id → Var → Prop}

/-- From `s` to `s'` the bindings `g` were appended to the innermost block, and `l` were emitted in
all. Replacements stay among those that `V` allows. -/
structure Gets (V : Id → Var → Prop) (s : Session σ) (g l : List Binding) (s' : Session σ) :
    Prop where
  frames : s'.builder.frames = Frame.append g s.builder.frames
  outside : s.builder.frames = [] → g = []
  emissions : s'.world.emissions = s.world.emissions ++ l
  remap : s.remap.Within V → s'.remap.Within V
  next : s.world.next ≤ s'.world.next

namespace Gets

variable {s s' s'' : Session σ} {g g' l l' : List Binding}

theorem of_eq (hf : s'.builder.frames = s.builder.frames)
    (he : s'.world.emissions = s.world.emissions) (hr : s'.remap = s.remap)
    (hn : s.world.next ≤ s'.world.next) : s.Gets V [] [] s' := by
  refine ⟨?_, fun _ => rfl, ?_, ?_, hn⟩
  · rw [Frame.append_nil, hf]
  · rw [List.append_nil, he]
  · rw [hr]
    exact id

theorem refl (s : Session σ) : s.Gets V [] [] s :=
  of_eq rfl rfl rfl (le_refl _)

theorem trans (h : s.Gets V g l s') (k : s'.Gets V g' l' s'') :
    s.Gets V (g ++ g') (l ++ l') s'' where
  frames := by rw [k.frames, h.frames, Frame.append_append]
  outside hs := by
    rw [h.outside hs, List.nil_append]
    exact k.outside (by rw [h.frames, hs, Frame.append])
  emissions := by rw [k.emissions, h.emissions, List.append_assoc]
  remap hs := k.remap (h.remap hs)
  next := h.next.trans k.next

/-- A step without emissions follows. -/
theorem quiet (h : s.Gets V g l s') (k : s'.Gets V [] [] s'') : s.Gets V g l s'' := by
  simpa using h.trans k

theorem inDataflow (h : s.Gets V g l s') : s'.builder.inDataflow = s.builder.inDataflow := by
  unfold Builder.inDataflow
  rw [h.frames]
  cases s.builder.frames <;> rfl

end Gets

private theorem fresh_gets {s s' : Session σ} {n : Nat} (h : fresh.exec s = (.ok n, s')) :
    n = s.world.next ∧ s.Gets V [] [] s' := by
  cases h
  exact ⟨rfl, .of_eq rfl rfl rfl (Nat.le_succ _)⟩

theorem freshMark_gets {s s' : Session σ} {span : Option Span} {m : Mark}
    (h : (freshMark span).exec s = (.ok m, s')) : m.tag = s.world.next ∧ s.Gets V [] [] s' := by
  cases h
  exact ⟨rfl, .of_eq rfl rfl rfl (Nat.le_succ _)⟩

private theorem freshId_gets {s s' : Session σ} {hint : String} {id : Id}
    (h : (freshId hint).exec s = (.ok id, s')) :
    id.index = s.world.next ∧ s'.world.next = s.world.next + 1 ∧ s.Gets V [] [] s' := by
  cases h
  exact ⟨rfl, rfl, .of_eq rfl rfl rfl (Nat.le_succ _)⟩

private theorem requestName_gets {s s' : Session σ} {hint name : String}
    (h : (requestName hint).exec s = (.ok name, s')) : s.Gets V [] [] s' := by
  cases h
  exact .of_eq rfl rfl rfl (le_refl _)

theorem normalize_gets {s s' : Session σ} {e e' : Expr}
    (h : (normalize e).exec s = (.ok e', s')) :
    Refills s.world.next e e' ∧ s.Gets V [] [] s' := by
  simp only [normalize, Act.exec_bind_ok] at h
  obtain ⟨_, _, hb, r, _, hm, h⟩ := h
  obtain ⟨rfl, rfl⟩ := getBuilder_ok hb
  obtain ⟨-, rfl⟩ := Act.exec_resume_ok.mp hm
  cases r with
  | none =>
    obtain ⟨rfl, rfl⟩ := Act.exec_pure_ok.mp h
    exact ⟨.kept, .refl _⟩
  | some i =>
    obtain ⟨_, _, hn, hp⟩ := Act.exec_bind_ok.mp h
    obtain ⟨rfl, hg⟩ := fresh_gets hn
    obtain ⟨rfl, rfl⟩ := Act.exec_pure_ok.mp hp
    exact ⟨.filled (le_refl _), hg⟩

/-- The variable keeps its identity and its kind. -/
theorem retype_gets {s s' : Session σ} {v v' : Var} {sinfo : Option StructInfo}
    (h : (retype v sinfo).exec s = (.ok v', s')) :
    (v'.id = v.id ∧ v'.dataflow = v.dataflow) ∧ s.Gets V [] [] s' := by
  cases sinfo with
  | none =>
    obtain ⟨rfl, rfl⟩ := Act.exec_pure_ok.mp h
    exact ⟨⟨rfl, rfl⟩, .refl _⟩
  | some i =>
    simp only [retype] at h
    split at h
    · obtain ⟨rfl, rfl⟩ := Act.exec_pure_ok.mp h
      exact ⟨⟨rfl, rfl⟩, .refl _⟩
    · obtain ⟨_, _, hn, hp⟩ := Act.exec_bind_ok.mp h
      obtain ⟨-, hg⟩ := fresh_gets hn
      obtain ⟨rfl, rfl⟩ := Act.exec_pure_ok.mp hp
      exact ⟨⟨rfl, rfl⟩, hg⟩

theorem setRemap_gets {s s' : Session σ} {id : Id} {v : Var} (hv : V id v)
    (h : (setRemap id v).exec s = (.ok (), s')) : s.Gets V [] [] s' := by
  cases h
  refine ⟨(Frame.append_nil _).symm, fun _ => rfl, ?_, fun hr => hr.insert hv, le_refl _⟩
  exact World.emissions_report _ _

/-- A binding goes to the innermost block; outside a block there is none to emit it into. -/
theorem emitBinding_gets {s s' : Session σ} {b : Binding}
    (h : (emitBinding b).exec s = (.ok (), s')) :
    (b.var.dataflow → s.builder.inDataflow) ∧ s'.world.next = s.world.next ∧
      s.Gets V [b] [b] s' := by
  obtain ⟨b', hp, rfl⟩ := push_of_emitBinding h
  obtain ⟨frame, rest, hf, hd, rfl⟩ := Builder.push_ok hp
  refine ⟨?_, rfl, ?_, ?_, World.emissions_report _ _, id, le_refl _⟩
  · intro hv
    cases hk : frame.kind with
    | plain => exact absurd hv (by simp [hd hk])
    | dataflow => simp [Builder.inDataflow, hf, hk]
  · rw [hf]
    rfl
  · rw [hf]
    intro hnil
    cases hnil

private theorem freshVar_gets {s s' : Session σ} {hint : String} {sinfo : Option StructInfo}
    {dataflow : Bool} {v : Var} (h : (freshVar hint sinfo dataflow).exec s = (.ok v, s')) :
    s.world.next ≤ v.id.index ∧ v.id.index < s'.world.next ∧ s.Gets V [] [] s' := by
  simp only [freshVar, Act.exec_bind_ok] at h
  obtain ⟨name, s1, h1, mark, s2, h2, id, s3, h3, hp⟩ := h
  have k1 := requestName_gets (V := V) h1
  obtain ⟨-, k2⟩ := freshMark_gets (V := V) h2
  obtain ⟨hi, hn, k3⟩ := freshId_gets (V := V) h3
  obtain ⟨rfl, rfl⟩ := Act.exec_pure_ok.mp hp
  have hle := (k1.trans k2).next
  exact ⟨hle.trans hi.ge, by simp only [Var.make]; omega, (k1.trans k2).trans k3⟩

/-- The value, with its struct info, is bound to a new variable. -/
private theorem bindNew_gets {s s' : Session σ} {value : Expr} {hint : String}
    {sinfo : Expr → Option StructInfo} {dataflow : Bool} {f : Mark → Var → Expr → Binding}
    {v : Var} (hf : ∀ m v e, (f m v e).var = v ∧ (f m v e).value = e) (h : (do
      let value ← normalize value
      let v ← freshVar hint (sinfo value) dataflow
      emitBinding (f (← freshMark none) v value)
      return v : Build σ Var).exec s = (.ok v, s')) :
    ∃ b, s.Gets V [b] [b] s' ∧
      b.Binds s.builder.inDataflow s.world.next value s'.world.next := by
  simp only [Act.exec_bind_ok] at h
  obtain ⟨e, s1, h1, w, s2, h2, m, s3, h3, _, s4, h4, hp⟩ := h
  obtain ⟨rfl, rfl⟩ := Act.exec_pure_ok.mp hp
  obtain ⟨hr, k1⟩ := normalize_gets (V := V) h1
  obtain ⟨hle, hlt, k2⟩ := freshVar_gets (V := V) h2
  obtain ⟨-, k3⟩ := freshMark_gets (V := V) h3
  obtain ⟨hb, hn, k4⟩ := emitBinding_gets (V := V) h4
  have k := (k1.trans k2).trans k3
  have hn1 := k1.next
  have hn3 := k3.next
  obtain ⟨hvar, hvalue⟩ := hf m w e
  refine ⟨f m w e, k.trans k4, ?_, ?_, ?_, ?_⟩
  · rwa [hvalue]
  · rw [hvar]
    omega
  · rw [hvar]
    omega
  · rw [← k.inDataflow]
    exact hb

private theorem emitValue_gets {s s' : Session σ} {value : Expr} {hint : String} {dataflow : Bool}
    {v : Var} (h : (emitValue value hint dataflow).exec s = (.ok v, s')) :
    ∃ b, s.Gets V [b] [b] s' ∧ b.Binds s.builder.inDataflow s.world.next value s'.world.next := by
  refine bindNew_gets (f := fun m v e => .bind m v e) ?_ h
  intro _ _ _
  exact ⟨rfl, rfl⟩

theorem emit_gets {s s' : Session σ} {value : Expr} {hint : String} {v : Var}
    (h : (emit value hint).exec s = (.ok v, s')) :
    ∃ b, s.Gets V [b] [b] s' ∧
      b.Binds s.builder.inDataflow s.world.next value s'.world.next := by
  obtain ⟨_, _, hb, h⟩ := Act.exec_bind_ok.mp h
  obtain ⟨rfl, rfl⟩ := getBuilder_ok hb
  exact emitValue_gets (Act.exec_failIf_ok h)

theorem emitOutput_gets {s s' : Session σ} {value : Expr} {hint : String} {v : Var}
    (h : (emitOutput value hint).exec s = (.ok v, s')) :
    ∃ b, s.Gets V [b] [b] s' ∧
      b.Binds s.builder.inDataflow s.world.next value s'.world.next := by
  obtain ⟨_, _, hb, h⟩ := Act.exec_bind_ok.mp h
  obtain ⟨rfl, rfl⟩ := getBuilder_ok hb
  exact emitValue_gets (Act.exec_failIf_ok h)

theorem emitCast_gets {s s' : Session σ} {value : Expr} {sinfo : StructInfo} {hint : String}
    {v : Var} (h : (emitCast value sinfo hint).exec s = (.ok v, s')) :
    ∃ b, s.Gets V [b] [b] s' ∧
      b.Binds s.builder.inDataflow s.world.next value s'.world.next := by
  obtain ⟨_, _, hb, h⟩ := Act.exec_bind_ok.mp h
  obtain ⟨rfl, rfl⟩ := getBuilder_ok hb
  exact bindNew_gets (f := fun m v e => .cast m v e sinfo) (fun _ _ _ => ⟨rfl, rfl⟩)
    (Act.exec_failIf_ok h)

theorem beginScope_gets {s s' : Session σ} {params : List Var}
    (h : (beginScope params).exec s = (.ok (), s')) : s.Gets V [] [] s' := by
  cases h
  exact .of_eq rfl rfl rfl (le_refl _)

theorem endScope_gets {s s' : Session σ} (h : endScope.exec s = (.ok (), s')) :
    s.Gets V [] [] s' := by
  rw [exec_endScope] at h
  split at h
  · cases h
    exact .of_eq rfl rfl rfl (le_refl _)
  · cases h

theorem openRemap_gets {s s' : Session σ} (h : openRemap.exec s = (.ok (), s')) :
    s.Gets V [] [] s' := by
  cases h
  exact ⟨(Frame.append_nil _).symm, fun _ => rfl, (List.append_nil _).symm,
    Remap.Within.openScope, le_refl _⟩

theorem closeRemap_gets {s s' : Session σ} (h : closeRemap.exec s = (.ok (), s')) :
    s.Gets V [] [] s' := by
  rw [exec_closeRemap] at h
  split at h
  · next r hr =>
    cases h
    exact ⟨(Frame.append_nil _).symm, fun _ => rfl, (List.append_nil _).symm,
      fun hs => hs.closeScope? hr, le_refl _⟩
  · cases h

theorem beginBlock_ok_iff {s s' : Session σ} {kind : BlockKind} :
    (beginBlock kind).exec s = (.ok (), s') ↔ s' = { s with
      builder := s.builder.beginBlock kind
      world := s.world.report (.blockBegun s.builder.depth kind) } := by
  constructor
  · intro h
    cases h
    rfl
  · rintro rfl
    rfl

/-- A finished block holds what was appended to it, and the blocks around it got nothing. -/
theorem endBlock_gets {s s1 s2 s3 : Session σ} {kind : BlockKind} {g l : List Binding} {b : Block}
    (h1 : (beginBlock kind).exec s = (.ok (), s1)) (h2 : s1.Gets V g l s2)
    (h3 : endBlock.exec s2 = (.ok b, s3)) :
    (∃ mark, b = .mk mark kind g ∧ s2.world.next ≤ mark.tag) ∧
      s2.world.next ≤ s3.world.next ∧ s.Gets V [] l s3 := by
  cases h1
  have hf : s2.builder.frames = ⟨kind, g⟩ :: s.builder.frames := h2.frames
  have he : s2.world.emissions =
      (s.world.report (.blockBegun s.builder.depth kind)).emissions ++ l := h2.emissions
  rw [World.emissions_report] at he
  rw [exec_endBlock, hf] at h3
  cases h3
  refine ⟨⟨_, rfl, le_refl _⟩, Nat.le_succ _, (Frame.append_nil _).symm, fun _ => rfl, ?_,
    h2.remap, ?_⟩
  · refine (World.emissions_report _ _).trans ?_
    simpa [Event.emission?] using he
  · exact h2.next.trans (Nat.le_succ _)

end Session

open Session

variable {σ α β : Type} {E : Emissions} {m : Moment}

/-- The step emits what `E` has at the moment, and replaces no variables. -/
def Act.Emits (E : Emissions) (m : Moment) (act : Build σ α) : Prop :=
  ∀ (V : Id → Var → Prop) s a s', act.exec s = (.ok a, s') → ∃ bs, s.Gets V bs bs s' ∧
    E.emits m s.builder.inDataflow s.world.next bs s'.world.next

namespace Transformer

/-- What the transformer does at a place is the default, with emissions before and after it. A hook
emits once the struct info of the node is filled in. -/
inductive Surrounds (E : Emissions) (t : Transformer σ) : Site → Prop
  | handled {site : Site} (before : Build σ Unit) (after : site.Result → Build σ Unit)
      (hb : before.Emits E (.before site)) (ha : ∀ r, (after r).Emits E (.after site))
      (h : ∀ self, t self site = do
        before
        let r ← walk self site
        after r
        return r) : Surrounds E t site
  | hooked {e : Expr} (before : Build σ Unit) (after : Expr → Build σ Unit)
      (hb : before.Emits E (.before (.exprKind e)))
      (ha : ∀ r, (after r).Emits E (.after (.exprKind e)))
      (h : ∀ self, t self (.exprKind e) = do
        before
        let r ← normalize (← walk self (.exprKind e))
        after r
        return r) : Surrounds E t (.exprKind e)

theorem Surrounds.congr {t u : Transformer σ} {site : Site} (h : u.Surrounds E site)
    (he : ∀ self, t self site = u self site) : t.Surrounds E site := by
  cases h with
  | handled _ _ hb ha h => exact .handled _ _ hb ha fun self => (he self).trans (h self)
  | hooked _ _ hb ha h => exact .hooked _ _ hb ha fun self => (he self).trans (h self)

private theorem surrounds_fail (f : Fault) (site : Site) :
    Surrounds E (fun _ _ => Act.fail f : Transformer σ) site := by
  exact .handled (Act.fail f) (fun _ => Act.fail f) nofun nofun fun _ => rfl

end Transformer

/-- A table does around the default what its handlers and its hooks do. -/
theorem TransformerTable.surrounds {t : TransformerTable σ} {site : Site}
    (hh : ∀ {slot h}, site.slot? = some slot → t.handler slot = some h → h.Surrounds E site)
    (hk : ∀ {h}, (∀ slot, site.slot? = some slot → t.handler slot = none) →
      t.hookAt site = some h → (runHook h).Surrounds E site)
    (hw : (∀ slot, site.slot? = some slot → t.handler slot = none) → t.hookAt site = none →
      (Transformer.walk : Transformer σ).Surrounds E site) :
    t.transformer.Surrounds E site := by
  cases hs : site.slot? with
  | none =>
    have hook : t.hookAt site = none := by
      cases site with
      | dim => rfl
      | _ => cases hs
    exact (hw (by simp [hs]) hook).congr fun self => by rw [transformer, hs]
  | some slot =>
    suffices h : (t.transformerAt slot site).Surrounds E site by
      exact h.congr fun self => by rw [transformer, hs]
    unfold transformerAt
    split
    · next hslot => exact hh hs hslot
    · next hslot hook => exact hk (fun _ h => by cases hs.symm.trans h; exact hslot) hook
    · next hslot hook =>
      split
      · exact Transformer.surrounds_fail _ site
      · exact hw (fun _ h => by cases hs.symm.trans h; exact hslot) hook

end DataflowIR
