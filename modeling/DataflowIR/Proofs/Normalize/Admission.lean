import DataflowIR.Proofs.Normalize.Passage
import DataflowIR.Proofs.Rewrite.Apply

namespace DataflowIR

variable {σ : Type}

/-- The builder rejects none of the bindings. -/
def Admitted (ps : List Placement) : Prop :=
  ∀ p ∈ ps, p.rejection? = none

theorem admitted_nil : Admitted [] :=
  List.forall_mem_nil _

theorem admitted_append {ps qs : List Placement} :
    Admitted (ps ++ qs) ↔ Admitted ps ∧ Admitted qs :=
  List.forall_mem_append

theorem admitted_singleton {p : Placement} : Admitted [p] ↔ p.rejection? = none :=
  List.forall_mem_singleton

namespace Placement

private theorem rejection?_eq_none {p : Placement} : p.rejection? = none ↔
    (p.var.dataflow → p.block = .dataflow) ∧ ∀ q ∈ p.params, q.id ≠ p.var.id := by
  unfold rejection?
  split
  · next h =>
    rw [Bool.and_eq_true, bne_iff_ne] at h
    exact iff_of_false nofun fun k => h.2 (k.1 h.1)
  · next h =>
    have hkind : p.var.dataflow → p.block = .dataflow := by simpa using h
    split
    · next h =>
      obtain ⟨q, hq, hid⟩ := List.any_eq_true.mp h
      exact iff_of_false nofun fun k => k.2 q hq (eq_of_beq hid)
    · next h =>
      refine iff_of_true rfl ⟨hkind, ?_⟩
      intro q hq hid
      exact h (List.any_eq_true.mpr ⟨q, hq, beq_iff_eq.mpr hid⟩)

/-- New struct info does not matter. -/
private theorem rejection?_eq_none_congr {v v' : Var} (hid : v'.id = v.id)
    (hd : v'.dataflow = v.dataflow) (block : BlockKind) (params : List Var) :
    rejection? ⟨v', block, params⟩ = none ↔ rejection? ⟨v, block, params⟩ = none := by
  rw [rejection?_eq_none, rejection?_eq_none, hid, hd]

end Placement

theorem admitted_binding {v : Var} {value value' : Expr} {v' : Var} {block : BlockKind}
    {params : List Var} (hid : v'.id = v.id) (hd : v'.dataflow = v.dataflow)
    (hvalue : Admitted (value'.placements params) ↔ Admitted (value.placements params)) :
    Admitted (value'.placements params ++ [⟨v', block, params⟩]) ↔
      Admitted (value.placements params ++ [⟨v, block, params⟩]) := by
  rw [admitted_append, admitted_append, hvalue, admitted_singleton, admitted_singleton,
    Placement.rejection?_eq_none_congr hid hd]

namespace Session

/-- The open scopes are those of the parameters. -/
structure Inside (s : Session σ) (rules : Rules) (params : List Var) : Prop where
  rules : s.builder.rules = rules
  scopes : s.builder.scopes.flatten = params.map Var.id

variable {s s' : Session σ} {rules : Rules} {params : List Var}

theorem Inside.keeps (h : s.Inside rules params) {frames : List Frame} (k : s.Keeps frames s') :
    s'.Inside rules params := by
  exact ⟨k.rules.trans h.rules, k.scopes ▸ h.scopes⟩

theorem emitBinding_admitted (h : s.Inside rules params) {frame : Frame} {rest : List Frame}
    (hf : s.builder.frames = frame :: rest) {b : Binding}
    (he : (emitBinding b).exec s = (.ok (), s')) :
    Placement.rejection? ⟨b.var, frame.kind, params⟩ = none := by
  simp only [emitBinding, Act.exec_bind_ok, Act.exec_resume_ok] at he
  obtain ⟨_, _, hb, bd, _, ⟨hpush, -⟩, -⟩ := he
  obtain ⟨rfl, -⟩ := getBuilder_ok hb
  rw [Builder.push_eq h.scopes hf] at hpush
  split at hpush
  · cases hpush
  · assumption

end Session

namespace Transformer

open Session

/-- A traversal of the pass `p` that emits every binding on its way. -/
structure Admitting (p : Pass) (rules : Rules) (go : (s : Site) → Build σ s.Result) : Prop
    extends Faithful p rules go where
  ne : p ≠ .explicitMemory
  admitsExpr : ∀ {e e' s s' params}, s.Inside rules params →
    (go (.expr e)).exec s = (.ok e', s') → Admitted (e.placements params)
  admitsExprKind : ∀ {e e' s s' params}, s.Inside rules params →
    (go (.exprKind e)).exec s = (.ok e', s') → Admitted (e.placements params)
  admitsBinding : ∀ {b s s' params frame rest}, s.Inside rules params →
    s.builder.frames = frame :: rest → (go (.binding b)).exec s = (.ok (), s') →
    Admitted (b.placements frame.kind params)
  admitsBindingKind : ∀ {b s s' params frame rest}, s.Inside rules params →
    s.builder.frames = frame :: rest → (go (.bindingKind b)).exec s = (.ok (), s') →
    Admitted (b.placements frame.kind params)
  admitsBlock : ∀ {b b' s s' params}, s.Inside rules params →
    (go (.block b)).exec s = (.ok b', s') → Admitted (b.placements params)
  admitsBlockKind : ∀ {b b' s s' params}, s.Inside rules params →
    (go (.blockKind b)).exec s = (.ok b', s') → Admitted (b.placements params)

variable {p : Pass} {rules : Rules} {go : (s : Site) → Build σ s.Result}
variable {s s' : Session σ} {params : List Var}

private theorem visitExprs_admitted (hgo : Admitting p rules go) (hs : s.Inside rules params)
    {es es' : List Expr} (h : (visitExprs go es).exec s = (.ok es', s')) :
    Admitted (Expr.placementsAll params es) := by
  induction es generalizing es' s s' with
  | nil => exact admitted_nil
  | cons e es ih =>
    simp only [visitExprs, Act.exec_bind_ok] at h
    obtain ⟨_, _, he, _, _, hes, -⟩ := h
    have ke := (hgo.expr hs.rules he).1
    exact admitted_append.mpr ⟨hgo.admitsExpr hs he, ih (hs.keeps ke) hes⟩

private theorem visitBlocks_admitted (hgo : Admitting p rules go) (hs : s.Inside rules params)
    {bs bs' : List Block} (h : (visitBlocks go bs).exec s = (.ok bs', s')) :
    Admitted (Block.placementsAll params bs) := by
  induction bs generalizing bs' s s' with
  | nil => exact admitted_nil
  | cons b bs ih =>
    simp only [visitBlocks, Act.exec_bind_ok] at h
    obtain ⟨_, _, hb, _, _, hbs, -⟩ := h
    have kb := (hgo.block hs.rules hb).1
    exact admitted_append.mpr ⟨hgo.admitsBlock hs hb, ih (hs.keeps kb) hbs⟩

private theorem visitBindings_admitted (hgo : Admitting p rules go) (hs : s.Inside rules params)
    {frame : Frame} {rest : List Frame} (hf : s.builder.frames = frame :: rest)
    {bs : List Binding} (h : (visitBindings go bs).exec s = (.ok (), s')) :
    Admitted (Binding.placementsAll frame.kind params bs) := by
  induction bs generalizing s frame with
  | nil => exact admitted_nil
  | cons b bs ih =>
    simp only [visitBindings, Act.exec_bind_ok] at h
    obtain ⟨_, _, hb, hbs⟩ := h
    obtain ⟨out, kb, -⟩ := hgo.binding hs.rules hf (if_neg hgo.ne) hb
    have hrest := ih (hs.keeps kb) kb.frames hbs
    exact admitted_append.mpr ⟨hgo.admitsBinding hs hf hb, hrest⟩

/-- The scope's own parameters stand before those around it. -/
theorem inScope_admitted (hgo : Admitting p rules go) (hs : s.Inside rules params) {e e' : Expr}
    {own : List Var} (h : (inScope go e own).exec s = (.ok e', s')) :
    Admitted (e.placements (own ++ params)) := by
  simp only [inScope, Act.exec_bind_ok, Act.exec_attempt_ok, Act.exec_resume_ok] at h
  obtain ⟨_, s1, h1, _, s2, h2, _, s3, h3, visited, s4, h4, _, _, -, _, _, -, _, _, -, _, _,
    ⟨rfl, -⟩, -⟩ := h
  obtain rfl := openRemap_ok h1
  obtain rfl := beginScope_ok h2
  obtain ⟨-, k3⟩ := beginBlock_ok h3
  have hinner : s3.Inside rules (own ++ params) := by
    refine ⟨k3.rules.trans hs.rules, ?_⟩
    rw [k3.scopes, List.map_append, ← hs.scopes]
    rfl
  exact hgo.admitsExpr hinner h4

private theorem walkFunctionScope_admitted (hgo : Admitting p rules go) (hs : s.Inside rules params)
    {f : Function} {e' : Expr} (h : (walkFunctionScope go f).exec s = (.ok e', s')) :
    Admitted (f.toExpr.placements params) := by
  simp only [walkFunctionScope, Act.exec_bind_ok, Act.exec_attempt_ok, Act.exec_resume_ok] at h
  obtain ⟨_, s1, h1, _, s2, h2, _, _, -, _, _, ⟨rfl, -⟩, -⟩ := h
  obtain rfl := openRemap_ok h1
  simp only [walkFunction, Act.exec_bind_ok] at h2
  obtain ⟨own, sp, hp, _, _, ht, body, sb, hb, -⟩ := h2
  obtain ⟨kp, tp⟩ := visitVarDefs_ok hgo.toFaithful hp
  rw [Trail.defineAll_eq hgo.ne] at tp
  obtain ⟨rfl, -⟩ := Prod.mk.inj tp
  obtain ⟨-, rfl⟩ := hgo.type ht
  have hopen : Session.Inside { s with remap := s.remap.openScope } rules params :=
    ⟨hs.rules, hs.scopes⟩
  exact inScope_admitted hgo (hopen.keeps kp) hb

private theorem walkSeq_admitted (hgo : Admitting p rules go) (hs : s.Inside rules params)
    {node : Node} {blocks : List Block} {body e' : Expr}
    (h : (walkSeq go node blocks body).exec s = (.ok e', s')) :
    Admitted (Expr.placements params (.seq node blocks body)) := by
  simp only [walkSeq, Act.exec_bind_ok, Act.exec_attempt_ok, Act.exec_resume_ok] at h
  obtain ⟨_, _, h1, _, _, h2, _, _, h3, _, _, -, _, _, ⟨rfl, -⟩, -⟩ := h
  have k1 := (visitBlocks_ok hgo.toFaithful hs.rules h1).1
  have k2 := (beginBlock_ok h2).2
  exact admitted_append.mpr
    ⟨visitBlocks_admitted hgo hs h1, hgo.admitsExpr ((hs.keeps k1).keeps k2) h3⟩

private theorem walkIte_admitted (hgo : Admitting p rules go) (hs : s.Inside rules params)
    {node : Node} {cond onTrue onFalse e' : Expr}
    (h : (walkIte go node cond onTrue onFalse).exec s = (.ok e', s')) :
    Admitted (Expr.placements params (.ite node cond onTrue onFalse)) := by
  simp only [walkIte, Act.exec_bind_ok] at h
  obtain ⟨_, _, h1, _, _, h2, _, _, h3, -⟩ := h
  have s1 := hs.keeps (hgo.expr hs.rules h1).1
  have s2 := s1.keeps (inScope_ok hgo.toFaithful s1.rules h2).1
  have htrue := inScope_admitted hgo s1 h2
  have hfalse := inScope_admitted hgo s2 h3
  exact admitted_append.mpr
    ⟨admitted_append.mpr ⟨hgo.admitsExpr hs h1, htrue⟩, hfalse⟩

private theorem walkCall_admitted (hgo : Admitting p rules go) (hs : s.Inside rules params)
    {c : Call} {e' : Expr} (h : (walkCall go c).exec s = (.ok e', s')) :
    Admitted (c.toExpr.placements params) := by
  simp only [walkCall, Act.exec_bind_ok] at h
  obtain ⟨_, _, h1, _, _, h2, _, _, h3, -⟩ := h
  have k1 := (hgo.expr hs.rules h1).1
  obtain ⟨-, rfl⟩ := visitTypes_ok hgo.toFaithful h2
  exact admitted_append.mpr
    ⟨hgo.admitsExpr hs h1, visitExprs_admitted hgo (hs.keeps k1) h3⟩

private theorem walkExpr_admitted (hgo : Admitting p rules go) (hs : s.Inside rules params)
    {e e' : Expr} (h : (walkExpr go e).exec s = (.ok e', s')) : Admitted (e.placements params) := by
  simp only [walkExpr, Act.exec_bind_ok] at h
  obtain ⟨_, s1, h1, h⟩ := h
  obtain rfl := visitSpan_ok hgo.toFaithful h1
  cases e with
  | leaf | var | shape | prim => exact admitted_nil
  | tuple node fields =>
    obtain ⟨_, _, hf, -⟩ := Act.exec_bind_ok.mp h
    exact visitExprs_admitted hgo hs hf
  | item node whole index =>
    obtain ⟨_, _, hw, -⟩ := Act.exec_bind_ok.mp h
    exact hgo.admitsExpr (e := whole) hs hw
  | call => exact walkCall_admitted hgo hs h
  | ite => exact walkIte_admitted hgo hs h
  | seq => exact walkSeq_admitted hgo hs h
  | function => exact walkFunctionScope_admitted hgo hs h

/-- A variable that gets new struct info is bound in the place of the old one. -/
private theorem renewed_admitted (hs : s.Inside rules params) {frame : Frame} {rest : List Frame}
    (hf : s.builder.frames = frame :: rest) {v : Var} {sinfo : Option StructInfo}
    {span : Option Span} (new : Mark → Var → Binding) (hnew : ∀ m w, (new m w).var = w)
    (h : (do
      let v' ← retype v sinfo
      remapIfChanged v v'
      emitBinding (new (← freshMark span) v') : Build σ Unit).exec s = (.ok (), s')) :
    Placement.rejection? ⟨v, frame.kind, params⟩ = none := by
  simp only [Act.exec_bind_ok] at h
  obtain ⟨v', _, h1, _, _, h2, _, _, h3, h4⟩ := h
  obtain ⟨t1, k1⟩ := retype_ok h1
  have k2 := (remapIfChanged_ok h2).2
  obtain ⟨-, -, k3⟩ := freshMark_ok h3
  have k := (k1.trans k2).trans k3
  rw [k2.frames, k1.frames, hf] at k
  have hnone := emitBinding_admitted (hs.keeps k) k.frames h4
  rw [hnew] at hnone
  obtain ⟨hid, hd, -⟩ := Trail.retype_eq t1
  exact (Placement.rejection?_eq_none_congr hid hd _ _).mp hnone

private theorem walkBind_admitted (hgo : Admitting p rules go) (hs : s.Inside rules params)
    {frame : Frame} {rest : List Frame} (hf : s.builder.frames = frame :: rest) {mark : Mark}
    {v : Var} {value : Expr} (h : (walkBind go mark v value).exec s = (.ok (), s')) :
    Admitted (Binding.placements frame.kind params (.bind mark v value)) := by
  simp only [walkBind, Act.exec_bind_ok] at h
  obtain ⟨value', _, h1, v1, _, h2, h⟩ := h
  have k1 := (hgo.expr hs.rules h1).1
  obtain ⟨k2, d2⟩ := hgo.varDef h2
  rw [Trail.define_eq hgo.ne] at d2
  obtain ⟨rfl, -⟩ := Prod.mk.inj d2
  have k := k1.trans k2
  rw [k1.frames, hf] at k
  refine admitted_append.mpr ⟨hgo.admitsExpr hs h1, admitted_singleton.mpr ?_⟩
  split at h
  · exact emitBinding_admitted (hs.keeps k) k.frames h
  · exact renewed_admitted (hs.keeps k) k.frames (fun m w => .bind m w value')
      (fun _ _ => rfl) h

private theorem walkCast_admitted (hgo : Admitting p rules go) (hs : s.Inside rules params)
    {frame : Frame} {rest : List Frame} (hf : s.builder.frames = frame :: rest) {mark : Mark}
    {v : Var} {value : Expr} {sinfo : StructInfo}
    (h : (walkCast go mark v value sinfo).exec s = (.ok (), s')) :
    Admitted (Binding.placements frame.kind params (.cast mark v value sinfo)) := by
  simp only [walkCast, Act.exec_bind_ok] at h
  obtain ⟨value', _, h1, _, _, ht, v1, _, h2, h⟩ := h
  have k1 := (hgo.expr hs.rules h1).1
  obtain ⟨rfl, rfl⟩ := hgo.type ht
  obtain ⟨k2, d2⟩ := hgo.varDef h2
  rw [Trail.define_eq hgo.ne] at d2
  obtain ⟨rfl, -⟩ := Prod.mk.inj d2
  have k := k1.trans k2
  rw [k1.frames, hf] at k
  refine admitted_append.mpr ⟨hgo.admitsExpr hs h1, admitted_singleton.mpr ?_⟩
  split at h
  · exact emitBinding_admitted (hs.keeps k) k.frames h
  · exact renewed_admitted (hs.keeps k) k.frames (fun m w => .cast m w value' sinfo)
      (fun _ _ => rfl) h

private theorem walkBlockAs_admitted (hgo : Admitting p rules go) (hs : s.Inside rules params)
    {b b' : Block} (h : (walkBlockAs go b.kind b).exec s = (.ok b', s')) :
    Admitted (b.placements params) := by
  simp only [walkBlockAs, Act.exec_bind_ok, Act.exec_attempt_ok, Act.exec_resume_ok] at h
  obtain ⟨_, _, h1, _, _, h2, _, _, -, _, _, ⟨rfl, -⟩, -⟩ := h
  have k1 := (beginBlock_ok h1).2
  cases b
  exact visitBindings_admitted hgo (hs.keeps k1) k1.frames h2

section Runs

variable {go : (s : Site) → Build Unit s.Result} {s s' : Session Unit}

/-- Whatever a pass does with a call, it first walks through it. -/
private theorem walkExpr_of_exprKind {e e' : Expr}
    (h : (p.transformer go (.exprKind e)).exec s = (.ok e', s')) :
    ∃ e1 s1, (walkExpr go e).exec s = (.ok e1, s1) := by
  cases p with
  | normalize => exact ⟨e', s', h⟩
  | explicitMemory => exact ⟨e', s', h⟩
  | fusedMultiplyAdd =>
    cases e with
    | call =>
      obtain ⟨e1, s1, h1, -⟩ := Act.exec_bind_ok.mp h
      exact ⟨e1, s1, h1⟩
    | _ => exact ⟨e', s', h⟩

theorem Admitting.step (hgo : Admitting p rules go) : Admitting p rules (p.transformer go) where
  toFaithful := hgo.toFaithful.step
  ne := hgo.ne
  admitsExpr {e e' s s' params} hs h := by
    have h : (go (.exprKind e) >>= normalize : Build Unit Expr).exec s = (.ok e', s') := by
      cases p <;> exact h
    obtain ⟨_, _, h1, -⟩ := Act.exec_bind_ok.mp h
    exact hgo.admitsExprKind hs h1
  admitsExprKind hs h := by
    obtain ⟨_, _, h1⟩ := walkExpr_of_exprKind h
    exact walkExpr_admitted hgo hs h1
  admitsBinding {b s s' params frame rest} hs hf h := by
    have h : (go (.bindingKind b)).exec s = (.ok (), s') := by
      cases p <;> exact h
    exact hgo.admitsBindingKind hs hf h
  admitsBindingKind {b s s' params frame rest} hs hf h := by
    have h : (walkBinding go b).exec s = (.ok (), s') := by
      cases p with
      | explicitMemory => exact absurd rfl hgo.ne
      | _ => exact h
    cases b with
    | bind => exact walkBind_admitted hgo hs hf h
    | cast => exact walkCast_admitted hgo hs hf h
  admitsBlock {b b' s s' params} hs h := by
    have h : (go (.blockKind b)).exec s = (.ok b', s') := by
      cases p <;> exact h
    exact hgo.admitsBlockKind hs h
  admitsBlockKind {b b' s s' params} hs h := by
    have h : (walkBlockAs go b.kind b).exec s = (.ok b', s') := by
      cases p with
      | explicitMemory => exact absurd rfl hgo.ne
      | _ => exact h
    exact walkBlockAs_admitted hgo hs h

/-- By induction on the fuel: a traversal without fuel never succeeds. -/
private theorem admitting_run (hp : p ≠ .explicitMemory) (rules : Rules) (fuel : Fuel) :
    Admitting p rules (run p.transformer fuel) := by
  induction fuel with
  | spent =>
    constructor
    case toFaithful => exact faithful_run p rules .spent
    case ne => exact hp
    all_goals intros; simp_all [Transformer.run]
  | step rest ih => exact (ih ()).step

end Runs

end Transformer

namespace Module

variable {p : Pass} {s s' : Session Unit}

private theorem transformFunction_admitted (hp : p ≠ .explicitMemory) {name : String} {f : Function}
    {r : Option Function}
    (h : (transformFunction p.transformer .standard Expr.fuel name f).exec s = (.ok r, s')) :
    Admitted (f.toExpr.placements []) := by
  simp only [transformFunction, Act.exec_bind_ok, Act.exec_attempt_ok] at h
  obtain ⟨_, s1, h1, r1, s2, h2, h⟩ := h
  cases h1
  cases r1 with
  | error fault =>
    obtain ⟨_, _, _, hf⟩ := Act.exec_bind_ok.mp h
    simp at hf
  | ok new => exact (Transformer.admitting_run hp .standard _).admitsExpr ⟨rfl, rfl⟩ h2

private theorem transformEach_admitted (hp : p ≠ .explicitMemory)
    {entries changed : List (GlobalVar × Function)}
    (h : (transformEach p.transformer .standard Expr.fuel entries).exec s =
      (.ok changed, s')) : ∀ e ∈ entries, Admitted (e.2.toExpr.placements []) := by
  induction entries generalizing changed s s' with
  | nil => exact nofun
  | cons e rest ih =>
    obtain ⟨g, f⟩ := e
    simp only [transformEach, Act.exec_bind_ok] at h
    obtain ⟨r, s1, h1, h⟩ := h
    refine List.forall_mem_cons.mpr ⟨transformFunction_admitted hp h1, ?_⟩
    cases r with
    | none => exact ih h
    | some f' =>
      obtain ⟨_, _, h2, -⟩ := Act.exec_bind_ok.mp h
      exact ih h2

theorem placements_admitted_iff {m : Module} :
    Admitted m.placements ↔ ∀ e ∈ m.toList, Admitted (e.2.toExpr.placements []) := by
  simp only [Admitted, placements, List.mem_flatMap]
  exact ⟨fun h e he p hp => h p ⟨e, he, hp⟩, fun h p ⟨e, he, hp⟩ => h e he p hp⟩

end Module

/-- Where a pass that keeps the kinds of the blocks succeeds, the builder rejects no binding of the
module. -/
theorem Pass.apply_admitted {p : Pass} (hp : p ≠ .explicitMemory) {m : Module} {w w' : World}
    {r : Option Module} (h : (p.apply m).exec w = (.ok r, w')) : Admitted m.placements := by
  let run := (m.transform p.transformer .standard Expr.fuel).exec (.new () .standard w)
  have ha : (p.apply m).exec w = (run.1, run.2.world) := rfl
  cases ht : run with
  | mk r' s =>
    rw [ha, ht] at h
    obtain ⟨rfl, -⟩ := Prod.mk.inj h
    obtain ⟨changed, s1, h1, -⟩ := Act.exec_bind_ok.mp ht
    exact Module.placements_admitted_iff.mpr (Module.transformEach_admitted hp h1)

end DataflowIR
