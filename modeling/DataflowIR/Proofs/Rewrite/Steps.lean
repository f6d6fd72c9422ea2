import DataflowIR.Proofs.Rewrite.Trail

namespace DataflowIR

namespace Act

variable {σ α β : Type}

theorem exec_bind_ok {act : Act σ α} {next : α → Act σ β} {s u : σ} {b : β} :
    (act >>= next).exec s = (.ok b, u) ↔
      ∃ a t, act.exec s = (.ok a, t) ∧ (next a).exec t = (.ok b, u) := by
  rw [exec_bind]
  rcases act.exec s with ⟨r, t⟩
  cases r with
  | ok a => exact ⟨fun h => ⟨a, t, rfl, h⟩, fun ⟨_, _, h, k⟩ => by cases h; exact k⟩
  | error f => exact ⟨fun h => by simp at h, fun ⟨_, _, h, _⟩ => by simp at h⟩

theorem exec_attempt_bind (act : Act σ α) (next : Except Fault α → Act σ β) (s : σ) :
    (act.attempt >>= next).exec s = (next (act.exec s).1).exec (act.exec s).2 := rfl

theorem exec_pure_ok {a b : α} {s t : σ} :
    (pure a : Act σ α).exec s = (.ok b, t) ↔ a = b ∧ s = t := by
  simp

theorem exec_attempt_ok {act : Act σ α} {s t : σ} {r : Except Fault α} :
    act.attempt.exec s = (.ok r, t) ↔ act.exec s = (r, t) := by
  rw [exec_attempt]
  rcases act.exec s with ⟨r', t'⟩
  simp

theorem exec_resume_ok {r : Except Fault α} {s t : σ} {a : α} :
    (resume r : Act σ α).exec s = (.ok a, t) ↔ r = .ok a ∧ s = t := by
  rw [exec_resume]
  simp

theorem eq_ok_of_isOk {run : Except Fault α × σ} (h : run.1.isOk) : ∃ a, run = (.ok a, run.2) := by
  obtain ⟨r, s⟩ := run
  cases r with
  | ok a => exact ⟨a, rfl⟩
  | error f => cases h

end Act

/-- The passes infer all calls by one rule. -/
theorem Rules.eq_elementwise {name : String} {rule : Rule}
    (h : standard.find? name = some rule) : rule = Rule.elementwise := by
  simp only [standard, Dictionary.ofList, List.map_cons, List.map_nil, List.foldl_cons,
    List.foldl_nil, Dictionary.find?_insert, Dictionary.find?_empty] at h
  grind

theorem Var.sameAs_self (v : Var) : v.sameAs v = true :=
  beq_self_eq_true v.tag

theorem Expr.sameAs_self (e : Expr) : e.sameAs e = true :=
  beq_self_eq_true e.tag

theorem Binding.sameAs_self (b : Binding) : b.sameAs b = true :=
  beq_self_eq_true b.tag

theorem Block.sameAs_self (b : Block) : b.sameAs b = true :=
  beq_self_eq_true b.tag

theorem Transformer.allSame_refl {α : Type} {same : α → α → Bool} (h : ∀ a, same a a = true)
    (as : List α) : allSame same as as = true := by
  induction as with
  | nil => rfl
  | cons a as ih => rw [allSame, h, ih, Bool.true_and]

theorem Transformer.length_of_allSame {α : Type} {same : α → α → Bool} :
    {as bs : List α} → allSame same as bs → as.length = bs.length
  | [], [], _ => rfl
  | _ :: _, _ :: _, h => by
    refine congrArg (· + 1) ?_
    exact length_of_allSame (Bool.and_eq_true_iff.mp h).2

/-- Putting back the value of before undoes an insertion. -/
theorem IdTable.get?_set_insert {α : Type} (t : IdTable α) (id : Id) (a : α) (k : Id) :
    ((t.insert id a).set id (t.get? id)).get? k = t.get? k := by
  rw [get?_set, get?_insert]
  split
  · next hk => rw [hk]
  · rfl

namespace Remap

theorem undo_congr {t u : IdTable Var} (h : ∀ id, t.get? id = u.get? id)
    (changes : List RemapChange) (id : Id) :
    (undo t changes).get? id = (undo u changes).get? id := by
  induction changes generalizing t u with
  | nil => exact h id
  | cons c rest ih =>
    apply ih
    intro k
    rw [IdTable.get?_set, IdTable.get?_set, h]

private theorem undo_append (t : IdTable Var) (changes more : List RemapChange) :
    undo t (changes ++ more) = undo (undo t changes) more := by
  simp [undo, List.foldl_append]

/-- The innermost scope of `r` has got more changes; undoing them gives back `r`. -/
def Extends (r r' : Remap) : Prop :=
  ∃ changes, r'.scopes = (match r.scopes with
      | [] => []
      | top :: rest => (changes ++ top) :: rest) ∧
    ∀ id, (undo r'.table changes).get? id = r.get? id

theorem Extends.refl (r : Remap) : r.Extends r := by
  refine ⟨[], ?_, fun _ => rfl⟩
  cases r.scopes <;> rfl

theorem Extends.trans {r r' r'' : Remap} (h : r.Extends r') (k : r'.Extends r'') :
    r.Extends r'' := by
  obtain ⟨changes, hs, hg⟩ := h
  obtain ⟨more, ks, kg⟩ := k
  refine ⟨more ++ changes, ?_, ?_⟩
  · rw [ks, hs]
    cases r.scopes with
    | nil => rfl
    | cons top rest => simp
  · intro id
    rw [undo_append, undo_congr kg changes id]
    exact hg id

private theorem extends_insert (r : Remap) (id : Id) (v : Var) : r.Extends (r.insert id v) := by
  refine ⟨[(id, r.get? id)], ?_, ?_⟩
  · unfold insert
    cases r.scopes <;> rfl
  · exact IdTable.get?_set_insert r.table id v

/-- A scope that was opened can be closed, and its replacements are gone. -/
theorem closeScope?_of_extends {r r' : Remap} (h : r.openScope.Extends r') :
    ∃ u, r'.closeScope? = some u ∧ r.Extends u ∧ u.get? = r.get? := by
  obtain ⟨changes, hs, hg⟩ := h
  rw [← List.append_nil changes] at hg
  refine ⟨⟨undo r'.table (changes ++ []), r.scopes⟩, ?_, ⟨[], ?_, hg⟩, funext hg⟩
  · simp only [closeScope?, hs, openScope]
  · cases r.scopes <;> rfl

end Remap

theorem Builder.push_ok {b b' : Builder} {binding : Binding} (h : b.push binding = .ok b') :
    ∃ frame rest, b.frames = frame :: rest ∧
      (frame.kind = .plain → binding.var.dataflow = false) ∧
      b' = { b with
        frames := { frame with bindings := frame.bindings ++ [binding] } :: rest
        bound := recordBinding b.bound binding } := by
  unfold Builder.push at h
  split at h
  · cases h
  · next frame rest hf =>
    split at h
    · cases h
    · next hd =>
      split at h
      · cases h
      · cases h
        exact ⟨frame, rest, hf, fun hk => by simpa [hk] using hd, rfl⟩

namespace Session

variable {σ α : Type}

def trail (s : Session σ) : Trail :=
  ⟨s.remap.get?, s.builder.bound.get?, s.world.next⟩

/-- Apart from the trail, only the blocks under construction may differ: they are now `frames`. -/
structure Keeps (s : Session σ) (frames : List Frame) (s' : Session σ) : Prop where
  rules : s'.builder.rules = s.builder.rules
  frames : s'.builder.frames = frames
  scopes : s'.builder.scopes = s.builder.scopes
  remap : s.remap.Extends s'.remap

theorem Keeps.refl (s : Session σ) : s.Keeps s.builder.frames s := by
  exact ⟨rfl, rfl, rfl, .refl _⟩

theorem Keeps.trans {s s1 s2 : Session σ} {frames frames' : List Frame}
    (h : s.Keeps frames s1) (k : s1.Keeps frames' s2) : s.Keeps frames' s2 := by
  exact ⟨k.rules.trans h.rules, k.frames, k.scopes.trans h.scopes, h.remap.trans k.remap⟩

theorem fresh_ok {s s' : Session σ} {n : Nat} (h : fresh.exec s = (.ok n, s')) :
    n = s.trail.next ∧ s'.trail = s.trail.tick ∧ s.Keeps s.builder.frames s' := by
  cases h
  exact ⟨rfl, rfl, rfl, rfl, rfl, .refl _⟩

theorem freshMark_ok {s s' : Session σ} {span : Option Span} {m : Mark}
    (h : (freshMark span).exec s = (.ok m, s')) :
    m = ⟨s.trail.next, span⟩ ∧ s'.trail = s.trail.tick ∧ s.Keeps s.builder.frames s' := by
  cases h
  exact ⟨rfl, rfl, rfl, rfl, rfl, .refl _⟩

theorem report_ok {s s' : Session σ} {e : Event} (h : (report e).exec s = (.ok (), s')) :
    s'.trail = s.trail ∧ s.Keeps s.builder.frames s' := by
  cases h
  exact ⟨rfl, rfl, rfl, rfl, .refl _⟩

theorem getBuilder_ok {s s' : Session σ} {b : Builder}
    (h : getBuilder.exec s = (.ok b, s')) : b = s.builder ∧ s' = s := by
  cases h
  exact ⟨rfl, rfl⟩

theorem beginBlock_ok {s s' : Session σ} {kind : BlockKind}
    (h : (beginBlock kind).exec s = (.ok (), s')) :
    s'.trail = s.trail ∧ s.Keeps (⟨kind, []⟩ :: s.builder.frames) s' := by
  cases h
  exact ⟨rfl, rfl, rfl, rfl, .refl _⟩

theorem endBlock_ok {s s' : Session σ} {b : Block} {frame : Frame} {rest : List Frame}
    (hf : s.builder.frames = frame :: rest) (h : endBlock.exec s = (.ok b, s')) :
    b = .mk ⟨s.trail.next, none⟩ frame.kind frame.bindings ∧ s'.trail = s.trail.tick ∧
      s.Keeps rest s' := by
  simp only [endBlock, Act.exec_bind_ok] at h
  obtain ⟨_, _, hb, ⟨f, b'⟩, _, he, _, _, hs, _, _, hr, _, _, hm, hp⟩ := h
  obtain ⟨rfl, rfl⟩ := getBuilder_ok hb
  simp only [Builder.endBlock, hf, Act.exec_resume_ok, Except.ok.injEq, Prod.mk.injEq] at he
  obtain ⟨⟨rfl, rfl⟩, rfl⟩ := he
  cases hs
  cases hr
  obtain ⟨rfl, ht, hk⟩ := freshMark_ok hm
  obtain ⟨rfl, rfl⟩ := Act.exec_pure_ok.mp hp
  exact ⟨rfl, ht, ⟨hk.rules, hk.frames, hk.scopes, hk.remap⟩⟩

theorem openRemap_ok {s s' : Session σ} (h : openRemap.exec s = (.ok (), s')) :
    s' = { s with remap := s.remap.openScope } := by
  cases h
  rfl

theorem closeRemap_ok {s s' : Session σ} {r : Remap} (hr : s.remap.closeScope? = some r)
    (h : closeRemap.exec s = (.ok (), s')) : s' = { s with remap := r } := by
  simp only [closeRemap, Act.exec_bind_ok] at h
  obtain ⟨_, _, hg, h⟩ := h
  cases hg
  simp only [hr] at h
  cases h
  rfl

theorem beginScope_ok {s s' : Session σ} {params : List Var}
    (h : (beginScope params).exec s = (.ok (), s')) :
    s' = { s with builder := s.builder.beginScope params } := by
  cases h
  rfl

theorem endScope_ok {s s' : Session σ} {params : List Id} {rest : List (List Id)}
    (hs : s.builder.scopes = params :: rest) (h : endScope.exec s = (.ok (), s')) :
    s' = { s with builder := { s.builder with scopes := rest } } := by
  simp only [endScope, Act.exec_bind_ok, Act.exec_resume_ok] at h
  obtain ⟨_, _, hb, _, _, ⟨he, rfl⟩, h⟩ := h
  obtain ⟨rfl, rfl⟩ := getBuilder_ok hb
  simp only [Builder.endScope, hs, Except.ok.injEq] at he
  cases h
  rw [← he]

theorem setRemap_ok {s s' : Session σ} {id : Id} {v : Var}
    (h : (setRemap id v).exec s = (.ok (), s')) :
    s'.trail = s.trail.replace id v ∧ s.Keeps s.builder.frames s' := by
  cases h
  refine ⟨?_, rfl, rfl, rfl, Remap.extends_insert _ _ _⟩
  refine congrArg (Trail.mk · _ _) (funext ?_)
  intro k
  rw [Function.update_apply]
  exact IdTable.get?_insert _ _ _ _

theorem normalize_ok {s s' : Session σ} {e e' : Expr} (h : (normalize e).exec s = (.ok e', s')) :
    ((s.builder.missingSinfo e = .ok none ∧ e' = e ∧ s'.trail = s.trail) ∨
      ∃ i, s.builder.missingSinfo e = .ok (some i) ∧ e' = e.withSinfo s.trail.next i ∧
        s'.trail = s.trail.tick) ∧ s.Keeps s.builder.frames s' := by
  simp only [normalize, Act.exec_bind_ok] at h
  obtain ⟨_, _, hb, r, _, hm, h⟩ := h
  obtain ⟨rfl, rfl⟩ := getBuilder_ok hb
  obtain ⟨hi, rfl⟩ := Act.exec_resume_ok.mp hm
  cases r with
  | none =>
    obtain ⟨rfl, rfl⟩ := Act.exec_pure_ok.mp h
    exact ⟨.inl ⟨hi, rfl, rfl⟩, .refl _⟩
  | some i =>
    obtain ⟨_, _, hn, hp⟩ := Act.exec_bind_ok.mp h
    obtain ⟨rfl, ht, hk⟩ := fresh_ok hn
    obtain ⟨rfl, rfl⟩ := Act.exec_pure_ok.mp hp
    exact ⟨.inr ⟨i, hi, rfl, ht⟩, hk⟩

theorem retype_ok {s s' : Session σ} {v v' : Var} {sinfo : Option StructInfo}
    (h : (retype v sinfo).exec s = (.ok v', s')) :
    s.trail.retype v sinfo = (v', s'.trail) ∧ s.Keeps s.builder.frames s' := by
  cases sinfo with
  | none =>
    obtain ⟨rfl, rfl⟩ := Act.exec_pure_ok.mp h
    exact ⟨rfl, .refl _⟩
  | some i =>
    simp only [retype] at h
    split at h
    · next hi =>
      obtain ⟨rfl, rfl⟩ := Act.exec_pure_ok.mp h
      exact ⟨by simp [Trail.retype, hi], .refl _⟩
    · next hi =>
      obtain ⟨_, _, hn, hp⟩ := Act.exec_bind_ok.mp h
      obtain ⟨rfl, ht, hk⟩ := fresh_ok hn
      obtain ⟨rfl, rfl⟩ := Act.exec_pure_ok.mp hp
      exact ⟨by simp [Trail.retype, hi, ht], hk⟩

theorem exec_emitBinding (binding : Binding) (s : Session σ) :
    (emitBinding binding).exec s =
      match s.builder.push binding with
      | .ok b =>
        (.ok (), { s with builder := b, world := s.world.report (.emitted s.builder.depth binding) })
      | .error f => (.error f, s) := by
  simp only [emitBinding, getBuilder, setBuilder, report, Act.exec_bind, Act.exec_get,
    Act.exec_pure, Act.exec_resume, Act.exec_modify]
  cases s.builder.push binding <;> rfl

/-- The binding was pushed, and reported. -/
theorem push_of_emitBinding {s s' : Session σ} {b : Binding}
    (h : (emitBinding b).exec s = (.ok (), s')) : ∃ b', s.builder.push b = .ok b' ∧
      s' = { s with builder := b', world := s.world.report (.emitted s.builder.depth b) } := by
  rw [exec_emitBinding] at h
  cases hp : s.builder.push b with
  | error f =>
    rw [hp] at h
    cases h
  | ok b' =>
    rw [hp] at h
    cases h
    exact ⟨b', rfl, rfl⟩

theorem emitBinding_ok {s s' : Session σ} {b : Binding} {frame : Frame} {rest : List Frame}
    (hf : s.builder.frames = frame :: rest) (h : (emitBinding b).exec s = (.ok (), s')) :
    (b.var.dataflow → frame.kind = .dataflow) ∧ s'.trail = s.trail.record b ∧
      s.Keeps (⟨frame.kind, frame.bindings ++ [b]⟩ :: rest) s' := by
  obtain ⟨b', hp, rfl⟩ := push_of_emitBinding h
  obtain ⟨_, _, hf', hd, rfl⟩ := Builder.push_ok hp
  obtain ⟨rfl, rfl⟩ := List.cons.inj (hf.symm.trans hf')
  refine ⟨?_, ?_, rfl, rfl, rfl, .refl _⟩
  · intro hv
    cases hk : frame.kind with
    | plain => exact absurd hv (by simp [hd hk])
    | dataflow => rfl
  · cases b with
    | cast m v e i => rfl
    | bind m v e =>
      refine congrArg (Trail.mk _ · _) (funext ?_)
      intro k
      rw [Function.update_apply]
      exact IdTable.get?_insert _ _ _ _

theorem exec_endBlock (s : Session σ) :
    endBlock.exec s =
      match s.builder.frames with
      | frame :: rest =>
        (.ok (.mk ⟨s.world.next, none⟩ frame.kind frame.bindings),
          { s with
            builder := { s.builder with frames := rest }
            world := (s.world.report (.blockEnded rest.length frame.bindings.length)).fresh.2 })
      | [] => (.error .endBlockOutsideBlock, s) := by
  simp only [endBlock, getBuilder, setBuilder, report, freshMark, fresh, Builder.endBlock,
    Act.exec_bind, Act.exec_get, Act.exec_pure, Act.exec_resume, Act.exec_modify,
    Act.exec_modifyGet]
  cases s.builder.frames <;> rfl

theorem exec_endScope (s : Session σ) :
    endScope.exec s =
      match s.builder.scopes with
      | _ :: rest => (.ok (), { s with builder := { s.builder with scopes := rest } })
      | [] => (.error .endScopeOutsideScope, s) := by
  simp only [endScope, getBuilder, setBuilder, Builder.endScope, Act.exec_bind, Act.exec_get,
    Act.exec_pure, Act.exec_resume, Act.exec_modify]
  cases s.builder.scopes <;> rfl

theorem exec_closeRemap (s : Session σ) :
    closeRemap.exec s =
      match s.remap.closeScope? with
      | some r => (.ok (), { s with remap := r })
      | none => (.error .endRemapOutsideScope, s) := by
  simp only [closeRemap, Act.exec_bind, Act.exec_get]
  cases s.remap.closeScope? <;> rfl

theorem dropBuilder_ok {s s' : Session σ} (h : dropBuilder.exec s = (.ok (), s')) :
    s'.world.next = s.world.next := by
  simp only [dropBuilder, Act.exec_bind_ok] at h
  obtain ⟨_, _, hb, hr⟩ := h
  obtain ⟨rfl, rfl⟩ := getBuilder_ok hb
  split at hr
  · cases hr
    rfl
  · cases hr
    rfl

end Session

end DataflowIR
