import DataflowIR.Proofs.Fusion.Semantics
import DataflowIR.Proofs.Rewrite.Parts

namespace DataflowIR

/-- From `t` on, values are recorded for the definitions `ds` alone. -/
structure Trail.Grows (ds : List (Role × Id)) (t t' : Trail) : Prop where
  remap : t.KeepsIds → t'.KeepsIds
  bound : ∀ id, (Role.bound, id) ∉ ds → t'.bound id = t.bound id

namespace Trail.Grows

variable {ds ds' : List (Role × Id)} {t t' t'' : Trail}

theorem refl (ds : List (Role × Id)) (t : Trail) : t.Grows ds t := by
  exact ⟨id, fun _ _ => rfl⟩

theorem trans (h : t.Grows ds t') (k : t'.Grows ds' t'') : t.Grows (ds ++ ds') t'' := by
  refine ⟨fun ht => k.remap (h.remap ht), ?_⟩
  intro id hid
  rw [List.mem_append, not_or] at hid
  rw [k.bound id hid.2, h.bound id hid.1]

theorem of_eq (h : t.Grows ds t') (hr : t''.remap = t'.remap) (hb : t''.bound = t'.bound) :
    t.Grows ds t'' := by
  constructor
  · intro ht id v hv
    rw [hr] at hv
    exact h.remap ht id v hv
  · intro id hid
    rw [hb]
    exact h.bound id hid

theorem tick (h : t.Grows ds t') : t.Grows ds t'.tick := by
  exact ⟨h.remap, h.bound⟩

/-- The end of a scope brings back the replacements from before. -/
theorem leave (h : t.Grows ds t') : t.Grows ds (t'.tick.leave t) := by
  exact ⟨fun ht => ht, h.bound⟩

theorem mono (h : t.Grows ds t') (hs : ∀ d ∈ ds, d ∈ ds') : t.Grows ds' t' := by
  refine ⟨h.remap, ?_⟩
  intro id hid
  exact h.bound id fun hd => hid (hs _ hd)

theorem replaceIfChanged (h : t.Grows ds t') {v v' : Var} (hv : v'.id = v.id) :
    t.Grows ds (t'.replaceIfChanged v v') := by
  constructor
  · intro ht id w hw
    unfold Trail.replaceIfChanged at hw
    split at hw
    · exact h.remap ht id w hw
    · simp only [Trail.replace, Function.update_apply] at hw
      split at hw
      · next hid =>
        cases hw
        rw [hid, hv]
      · exact h.remap ht id w hw
  · intro id hid
    rw [replaceIfChanged_bound]
    exact h.bound id hid

theorem record (h : t.Grows ds t') {mark : Mark} {v w : Var} {value : Expr} (hw : w.id = v.id) :
    t.Grows (ds ++ [(.bound, v.id)]) (t'.record (.bind mark w value)) := by
  refine ⟨h.remap, ?_⟩
  intro id hid
  simp only [List.mem_append, List.mem_singleton, Prod.mk.injEq, true_and, not_or] at hid
  rw [← hw] at hid
  exact (Function.update_of_ne hid.2 _ _).trans (h.bound id hid.1)

end Trail.Grows

mutual

theorem Expr.Rebuilds.grows {t t' : Trail} {e e' : Expr}
    (hrebuilds : Expr.Rebuilds .fusedMultiplyAdd .standard t e e' t') :
    t.Grows e.definitions t' := by
  match hrebuilds with
  | .leaf | .var | .shape | .prim => exact .refl _ _
  | .tuple hf hs => exact hf.grows.of_eq hs.trail_eq.1 hs.trail_eq.2
  | .item hw hs => exact hw.grows.of_eq hs.trail_eq.1 hs.trail_eq.2
  | .call hc ha hs hf =>
    refine (hc.grows.trans ha.grows).of_eq ?_ ?_
    · exact hf.trail_eq.1.trans hs.trail_eq.1
    · exact hf.trail_eq.2.trans hs.trail_eq.2
  | .ite hc ht hf hs =>
    exact (hc.grows.trans (ht.grows.leave.trans hf.grows.leave)).of_eq hs.trail_eq.1 hs.trail_eq.2
  | .seq hb hy hs => exact (hb.grows.trans hy.grows).of_eq hs.trail_eq.1 hs.trail_eq.2
  | .function hp hb hs =>
    have h := hb.grows
    rw [Trail.defineAll_eq Pass.fusedMultiplyAdd_ne] at hp
    cases hp
    refine Trail.Grows.mono (h.leave.of_eq rfl hs.trail_eq.2) ?_
    intro d hd
    exact List.mem_append_right _ hd

theorem Expr.Becomes.grows {t t' : Trail} {e e' : Expr}
    (h : Expr.Becomes .fusedMultiplyAdd .standard t e e' t') : t.Grows e.definitions t' := by
  match h with
  | .mk hr hf => exact hr.grows.of_eq hf.trail_eq.1 hf.trail_eq.2

theorem Expr.BecomeAll.grows {t t' : Trail} {es es' : List Expr}
    (h : Expr.BecomeAll .fusedMultiplyAdd .standard t es es' t') :
    t.Grows (Expr.definitionsAll es) t' := by
  match h with
  | .nil => exact .refl _ _
  | .cons he hs => exact he.grows.trans hs.grows

theorem Binding.Becomes.grows {kind : BlockKind} {t t' : Trail} {b : Binding}
    {out : List Binding} (hbecomes : Binding.Becomes .fusedMultiplyAdd .standard kind t b out t') :
    t.Grows b.definitions t' := by
  match hbecomes with
  | .kept hl hy hd hs hk =>
    have h := hy.grows
    rw [Trail.define_eq Pass.fusedMultiplyAdd_ne] at hd
    cases hd
    exact h.record rfl
  | .changed hl hy hd hs hr hk =>
    have h := hy.grows
    rw [Trail.define_eq Pass.fusedMultiplyAdd_ne] at hd
    cases hd
    obtain ⟨hid, -, -, hrm, hbd⟩ := Trail.retype_eq hr
    exact (((h.of_eq hrm hbd).replaceIfChanged hid).tick).record hid
  | .lowered hl .. => simp [Pass.lowered?] at hl
  | .keptCast hy hd hs hk =>
    have h := hy.grows
    rw [Trail.define_eq Pass.fusedMultiplyAdd_ne] at hd
    cases hd
    exact h.mono fun d hd => List.mem_append_left _ hd
  | .changedCast hy hd hs hr hk =>
    have h := hy.grows
    rw [Trail.define_eq Pass.fusedMultiplyAdd_ne] at hd
    cases hd
    obtain ⟨hid, -, -, hrm, hbd⟩ := Trail.retype_eq hr
    apply Trail.Grows.mono (((h.of_eq hrm hbd).replaceIfChanged hid).tick)
    intro d hd
    exact List.mem_append_left _ hd

theorem Binding.BecomeAll.grows {kind : BlockKind} {t t' : Trail} {bs outs : List Binding}
    (h : Binding.BecomeAll .fusedMultiplyAdd .standard kind t bs outs t') :
    t.Grows (Binding.definitionsAll bs) t' := by
  match h with
  | .nil => exact .refl _ _
  | .cons hb hs => exact hb.grows.trans hs.grows

theorem Block.Becomes.grows {t t' : Trail} {b b' : Block}
    (h : Block.Becomes .fusedMultiplyAdd .standard t b b' t') : t.Grows b.definitions t' := by
  match h with
  | @Block.Becomes.kept _ _ _ _ (.mk ..) _ hb _ => exact hb.grows.tick
  | @Block.Becomes.changed _ _ _ _ (.mk ..) _ hb _ => exact hb.grows.tick

theorem Block.BecomeAll.grows {t t' : Trail} {bs bs' : List Block}
    (h : Block.BecomeAll .fusedMultiplyAdd .standard t bs bs' t') :
    t.Grows (Block.definitionsAll bs) t' := by
  match h with
  | .nil => exact .refl _ _
  | .cons hb hs => exact hb.grows.trans hs.grows

end

/-- Exactly the variables bound to values are in `B`. -/
def Labels (B : Id → Prop) (ds : List (Role × Id)) : Prop :=
  ∀ d ∈ ds, d.1 = .bound ↔ B d.2

theorem Labels.append {B : Id → Prop} {ds ds' : List (Role × Id)} (h : Labels B (ds ++ ds')) :
    Labels B ds ∧ Labels B ds' := by
  constructor
  · intro d hd
    exact h d (List.mem_append_left _ hd)
  · intro d hd
    exact h d (List.mem_append_right _ hd)

theorem Labels.params {B : Id → Prop} {params : List Var}
    (h : Labels B (params.map fun v => (.parameter, v.id))) {id : Id} (hid : B id) :
    id ∉ params.map Var.id := by
  intro hm
  obtain ⟨v, hv, rfl⟩ := List.mem_map.mp hm
  have hr := h (.parameter, v.id) (List.mem_map.mpr ⟨v, hv, rfl⟩)
  simp [hid] at hr

section Leaks

variable {B : Id → Prop} {id : Id} {known : String → Bool}

mutual

theorem Expr.Rebuilds.leaks {t t' : Trail} {e e' : Expr} {asBody : Bool} {sc sc' : Scope}
    (hid : B id) (hrebuilds : Expr.Rebuilds .fusedMultiplyAdd .standard t e e' t') :
    e.check known asBody sc = .ok sc' → Labels B e.definitions → id ∈ sc'.dataflowVars →
      id ∈ sc.dataflowVars := by
  match hrebuilds with
  | .leaf =>
    intro h _ hm
    obtain ⟨rfl, -⟩ := check_leaf.mp h
    exact hm
  | .var =>
    intro h _ hm
    obtain ⟨rfl, -⟩ := Scope.useVar_ok.mp h
    exact hm
  | .shape =>
    intro h _ hm
    obtain ⟨rfl, -⟩ := Scope.useDims_ok.mp h
    exact hm
  | .prim =>
    intro h _ hm
    obtain ⟨rfl, -⟩ := Scope.useDim_ok.mp h
    exact hm
  | .tuple hf _ =>
    intro h hl hm
    exact hf.leaks hid (check_tuple.mp h).2 hl hm
  | .item hw _ =>
    intro h hl hm
    exact hw.leaks hid (check_item.mp h) hl hm
  | .call hc ha _ _ =>
    intro h hl hm
    obtain ⟨-, sc1, h1, -, h2⟩ := check_call.mp h
    exact hc.leaks hid h1 hl.append.1 (ha.leaks hid h2 hl.append.2 hm)
  | .ite hc ht hf _ =>
    intro h hl hm
    obtain ⟨-, sc1, after, sc2, h1, h2, h3, rfl⟩ := check_ite.mp h
    have hl1 := hl.append.2.append
    have hm := hf.leaks hid h3 hl1.2 hm
    exact hc.leaks hid h1 hl.append.1 (ht.leaks hid h2 hl1.1 hm)
  | .seq hb hy _ =>
    intro h hl hm
    obtain ⟨-, sc1, h1, h2⟩ := check_seq.mp h
    exact hb.leaks hid h1 hl.append.1 (hy.leaks hid h2 hl.append.2 hm)
  | .function hp hb _ =>
    intro h hl hm
    obtain ⟨sc1, sc2, h1, h2, -, rfl⟩ := check_function.mp h
    have hm := hb.leaks hid h2 hl.append.2 hm
    obtain hp | hsc := (Scope.defineParams_adds h1).dataflowVars id hm
    · exact absurd hp (hl.append.1.params hid)
    · exact hsc

theorem Expr.Becomes.leaks {t t' : Trail} {e e' : Expr} {asBody : Bool} {sc sc' : Scope}
    (hid : B id) (hbecomes : Expr.Becomes .fusedMultiplyAdd .standard t e e' t') :
    e.check known asBody sc = .ok sc' → Labels B e.definitions → id ∈ sc'.dataflowVars →
      id ∈ sc.dataflowVars := by
  match hbecomes with
  | .mk hr _ =>
    intro h hl hm
    exact hr.leaks hid h hl hm

theorem Expr.BecomeAll.leaks {t t' : Trail} {es es' : List Expr} {sc sc' : Scope}
    (hid : B id) (hbecomes : Expr.BecomeAll .fusedMultiplyAdd .standard t es es' t') :
    Expr.checkAll known sc es = .ok sc' → Labels B (Expr.definitionsAll es) →
      id ∈ sc'.dataflowVars → id ∈ sc.dataflowVars := by
  match hbecomes with
  | .nil =>
    intro h _ hm
    cases h
    exact hm
  | .cons he hs =>
    intro h hl hm
    obtain ⟨sc1, h1, h2⟩ := checkAll_cons.mp h
    exact he.leaks hid h1 hl.append.1 (hs.leaks hid h2 hl.append.2 hm)

theorem Binding.Becomes.leaks {kind : BlockKind} {t t' : Trail} {b : Binding}
    {out : List Binding} {sc sc' : Scope} (hid : B id) (hp : kind = .plain)
    (hbecomes : Binding.Becomes .fusedMultiplyAdd .standard kind t b out t') :
    b.check known sc = .ok sc' → Labels B b.definitions → id ∈ sc'.dataflowVars →
      id ∈ sc.dataflowVars := by
  match hbecomes with
  | .kept _ hy _ _ hk =>
    intro h hl hm
    obtain ⟨sc1, h1, h2⟩ := check_bind.mp h
    rw [Scope.dataflowVars_of_defineVar (by simpa [hp] using hk) h2] at hm
    exact hy.leaks hid h1 hl.append.1 hm
  | .changed _ hy hd _ hr hk =>
    intro h hl hm
    obtain ⟨sc1, h1, h2⟩ := check_bind.mp h
    have hm1 := hy.leaks hid h1 hl.append.1
    rw [Trail.define_eq Pass.fusedMultiplyAdd_ne] at hd
    cases hd
    rw [(Trail.retype_eq hr).2.1] at hk
    rw [Scope.dataflowVars_of_defineVar (by simpa [hp] using hk) h2] at hm
    exact hm1 hm
  | .lowered hl .. =>
    intro _ _ _
    simp [Pass.lowered?] at hl
  | .keptCast hy _ _ hk =>
    intro h hl hm
    obtain ⟨sc1, h1, h2⟩ := check_cast.mp h
    rw [Scope.dataflowVars_of_defineVar (by simpa [hp] using hk) h2] at hm
    exact hy.leaks hid h1 hl.append.1 hm
  | .changedCast hy hd _ hr hk =>
    intro h hl hm
    obtain ⟨sc1, h1, h2⟩ := check_cast.mp h
    have hm1 := hy.leaks hid h1 hl.append.1
    rw [Trail.define_eq Pass.fusedMultiplyAdd_ne] at hd
    cases hd
    rw [(Trail.retype_eq hr).2.1] at hk
    rw [Scope.dataflowVars_of_defineVar (by simpa [hp] using hk) h2] at hm
    exact hm1 hm

theorem Binding.BecomeAll.leaks {kind : BlockKind} {t t' : Trail} {bs outs : List Binding}
    {sc sc' : Scope} (hid : B id) (hp : kind = .plain)
    (hbecomes : Binding.BecomeAll .fusedMultiplyAdd .standard kind t bs outs t') :
    Binding.checkAll known sc bs = .ok sc' → Labels B (Binding.definitionsAll bs) →
      id ∈ sc'.dataflowVars → id ∈ sc.dataflowVars := by
  match hbecomes with
  | .nil =>
    intro h _ hm
    cases h
    exact hm
  | .cons hb hs =>
    intro h hl hm
    obtain ⟨sc1, h1, h2⟩ := binding_checkAll_cons.mp h
    exact hb.leaks hid hp h1 hl.append.1 (hs.leaks hid hp h2 hl.append.2 hm)

theorem Block.Becomes.leaks {t t' : Trail} {b b' : Block} {sc sc' : Scope}
    (hid : B id) : Block.Becomes .fusedMultiplyAdd .standard t b b' t' →
      b.check known sc = .ok sc' → Labels B b.definitions →
      id ∈ sc'.dataflowVars → id ∈ sc.dataflowVars
  | @Block.Becomes.kept _ _ _ _ (.mk _ .plain _) _ hb _, h, hl, hm
  | @Block.Becomes.changed _ _ _ _ (.mk _ .plain _) _ hb _, h, hl, hm => hb.leaks hid rfl h hl hm
  | @Block.Becomes.kept _ _ _ _ (.mk _ .dataflow _) _ _ _, h, _, hm
  | @Block.Becomes.changed _ _ _ _ (.mk _ .dataflow _) _ _ _, h, _, hm => by
    obtain ⟨_, -, rfl⟩ := check_dataflow.mp h
    cases hm

theorem Block.BecomeAll.leaks {t t' : Trail} {bs bs' : List Block} {sc sc' : Scope}
    (hid : B id) (hbecomes : Block.BecomeAll .fusedMultiplyAdd .standard t bs bs' t') :
    Block.checkAll known sc bs = .ok sc' → Labels B (Block.definitionsAll bs) →
      id ∈ sc'.dataflowVars → id ∈ sc.dataflowVars := by
  match hbecomes with
  | .nil =>
    intro h _ hm
    cases h
    exact hm
  | .cons hb hs =>
    intro h hl hm
    obtain ⟨sc1, h1, h2⟩ := block_checkAll_cons.mp h
    exact hb.leaks hid h1 hl.append.1 (hs.leaks hid h2 hl.append.2 hm)

end

end Leaks

end DataflowIR
