import DataflowIR.Proofs.Rewrite.Becomes
import DataflowIR.Proofs.Rewrite.Steps

namespace DataflowIR.Transformer

open Session

variable {σ : Type} {p : Pass} {rules : Rules} {go : (s : Site) → Build σ s.Result}
variable {s s' : Session σ}

/-- What a traversal of the pass `p` does wherever it succeeds. -/
structure Faithful (p : Pass) (rules : Rules) (go : (s : Site) → Build σ s.Result) : Prop where
  expr : ∀ {e e' s s'}, s.builder.rules = rules → (go (.expr e)).exec s = (.ok e', s') →
    s.Keeps s.builder.frames s' ∧ Expr.Becomes p rules s.trail e e' s'.trail
  exprKind : ∀ {e e' s s'}, s.builder.rules = rules → (go (.exprKind e)).exec s = (.ok e', s') →
    s.Keeps s.builder.frames s' ∧ Expr.Rebuilds p rules s.trail e e' s'.trail
  binding : ∀ {b s s' frame rest}, s.builder.rules = rules →
    s.builder.frames = frame :: rest → p.blockKind frame.kind = frame.kind →
    (go (.binding b)).exec s = (.ok (), s') → ∃ out,
      s.Keeps (⟨frame.kind, frame.bindings ++ out⟩ :: rest) s' ∧
      Binding.Becomes p rules frame.kind s.trail b out s'.trail
  bindingKind : ∀ {b s s' frame rest}, s.builder.rules = rules →
    s.builder.frames = frame :: rest → p.blockKind frame.kind = frame.kind →
    (go (.bindingKind b)).exec s = (.ok (), s') → ∃ out,
      s.Keeps (⟨frame.kind, frame.bindings ++ out⟩ :: rest) s' ∧
      Binding.Becomes p rules frame.kind s.trail b out s'.trail
  block : ∀ {b b' s s'}, s.builder.rules = rules → (go (.block b)).exec s = (.ok b', s') →
    s.Keeps s.builder.frames s' ∧ Block.Becomes p rules s.trail b b' s'.trail
  blockKind : ∀ {b b' s s'}, s.builder.rules = rules →
    (go (.blockKind b)).exec s = (.ok b', s') →
    s.Keeps s.builder.frames s' ∧ Block.Becomes p rules s.trail b b' s'.trail
  varDef : ∀ {v v' s s'}, (go (.varDef v)).exec s = (.ok v', s') →
    s.Keeps s.builder.frames s' ∧ s.trail.define p v = (v', s'.trail)
  varDefKind : ∀ {v v' s s'}, (go (.varDefKind v)).exec s = (.ok v', s') →
    s.Keeps s.builder.frames s' ∧ s.trail.define p v = (v', s'.trail)
  type : ∀ {i i' : StructInfo} {s s'}, (go (.type i)).exec s = (.ok i', s') → i = i' ∧ s' = s
  span : ∀ {i s s'}, (go (.span i)).exec s = (.ok (), s') → s' = s
  dim : ∀ {d d' : Dim} {s s'}, (go (.dim d)).exec s = (.ok d', s') → d = d' ∧ s' = s

theorem visitSpan_ok (hgo : Faithful p rules go) {span : Option Span}
    (h : (visitSpan go span).exec s = (.ok (), s')) : s' = s := by
  cases span with
  | none => exact (Act.exec_pure_ok.mp h).2.symm
  | some i => exact hgo.span h

private theorem visitDims_ok (hgo : Faithful p rules go) {ds ds' : List Dim}
    (h : (visitDims go ds).exec s = (.ok ds', s')) : ds' = ds ∧ s' = s := by
  induction ds generalizing ds' s s' with
  | nil =>
    obtain ⟨rfl, rfl⟩ := Act.exec_pure_ok.mp h
    exact ⟨rfl, rfl⟩
  | cons d ds ih =>
    simp only [visitDims, Act.exec_bind_ok] at h
    obtain ⟨_, _, hd, _, _, hds, hp⟩ := h
    obtain ⟨hd', rfl⟩ := hgo.dim hd
    obtain ⟨hds', rfl⟩ := ih hds
    obtain ⟨rfl, rfl⟩ := Act.exec_pure_ok.mp hp
    exact ⟨by rw [hd', hds'], rfl⟩

theorem visitTypes_ok (hgo : Faithful p rules go) {is is' : List StructInfo}
    (h : (visitTypes go is).exec s = (.ok is', s')) : is' = is ∧ s' = s := by
  induction is generalizing is' s s' with
  | nil =>
    obtain ⟨rfl, rfl⟩ := Act.exec_pure_ok.mp h
    exact ⟨rfl, rfl⟩
  | cons i is ih =>
    simp only [visitTypes, Act.exec_bind_ok] at h
    obtain ⟨_, _, hi, _, _, his, hp⟩ := h
    obtain ⟨hi', rfl⟩ := hgo.type hi
    obtain ⟨his', rfl⟩ := ih his
    obtain ⟨rfl, rfl⟩ := Act.exec_pure_ok.mp hp
    exact ⟨by rw [hi', his'], rfl⟩

theorem visitVarDefs_ok (hgo : Faithful p rules go) {vs vs' : List Var}
    (h : (visitVarDefs go vs).exec s = (.ok vs', s')) :
    s.Keeps s.builder.frames s' ∧ s.trail.defineAll p vs = (vs', s'.trail) := by
  induction vs generalizing vs' s s' with
  | nil =>
    obtain ⟨rfl, rfl⟩ := Act.exec_pure_ok.mp h
    exact ⟨.refl _, rfl⟩
  | cons v vs ih =>
    simp only [visitVarDefs, Act.exec_bind_ok] at h
    obtain ⟨_, _, hv, _, _, hvs, hp⟩ := h
    obtain ⟨kv, tv⟩ := hgo.varDef hv
    obtain ⟨kvs, tvs⟩ := ih hvs
    obtain ⟨rfl, rfl⟩ := Act.exec_pure_ok.mp hp
    rw [kv.frames] at kvs
    exact ⟨kv.trans kvs, by simp only [Trail.defineAll, tv, tvs]⟩

private theorem visitExprs_ok (hgo : Faithful p rules go) (hr : s.builder.rules = rules)
    {es es' : List Expr} (h : (visitExprs go es).exec s = (.ok es', s')) :
    s.Keeps s.builder.frames s' ∧ Expr.BecomeAll p rules s.trail es es' s'.trail := by
  induction es generalizing es' s s' with
  | nil =>
    obtain ⟨rfl, rfl⟩ := Act.exec_pure_ok.mp h
    exact ⟨.refl _, .nil⟩
  | cons e es ih =>
    simp only [visitExprs, Act.exec_bind_ok] at h
    obtain ⟨_, _, he, _, _, hes, hp⟩ := h
    obtain ⟨ke, be⟩ := hgo.expr hr he
    obtain ⟨kes, bes⟩ := ih (ke.rules.trans hr) hes
    obtain ⟨rfl, rfl⟩ := Act.exec_pure_ok.mp hp
    rw [ke.frames] at kes
    exact ⟨ke.trans kes, .cons be bes⟩

theorem visitBlocks_ok (hgo : Faithful p rules go) (hr : s.builder.rules = rules)
    {bs bs' : List Block} (h : (visitBlocks go bs).exec s = (.ok bs', s')) :
    s.Keeps s.builder.frames s' ∧ Block.BecomeAll p rules s.trail bs bs' s'.trail := by
  induction bs generalizing bs' s s' with
  | nil =>
    obtain ⟨rfl, rfl⟩ := Act.exec_pure_ok.mp h
    exact ⟨.refl _, .nil⟩
  | cons b bs ih =>
    simp only [visitBlocks, Act.exec_bind_ok] at h
    obtain ⟨_, _, hb, _, _, hbs, hp⟩ := h
    obtain ⟨kb, bb⟩ := hgo.block hr hb
    obtain ⟨kbs, bbs⟩ := ih (kb.rules.trans hr) hbs
    obtain ⟨rfl, rfl⟩ := Act.exec_pure_ok.mp hp
    rw [kb.frames] at kbs
    exact ⟨kb.trans kbs, .cons bb bbs⟩

private theorem visitBindings_ok (hgo : Faithful p rules go) (hr : s.builder.rules = rules)
    {frame : Frame} {rest : List Frame} (hf : s.builder.frames = frame :: rest)
    (hk : p.blockKind frame.kind = frame.kind) {bs : List Binding}
    (h : (visitBindings go bs).exec s = (.ok (), s')) : ∃ out,
      s.Keeps (⟨frame.kind, frame.bindings ++ out⟩ :: rest) s' ∧
      Binding.BecomeAll p rules frame.kind s.trail bs out s'.trail := by
  induction bs generalizing s frame with
  | nil =>
    obtain ⟨-, rfl⟩ := Act.exec_pure_ok.mp h
    have hkeep := Keeps.refl s
    rw [hf] at hkeep
    exact ⟨[], by simpa using hkeep, .nil⟩
  | cons b bs ih =>
    simp only [visitBindings, Act.exec_bind_ok] at h
    obtain ⟨_, _, hb, hbs⟩ := h
    obtain ⟨out, kb, bb⟩ := hgo.binding hr hf hk hb
    obtain ⟨outs, kbs, bbs⟩ := ih (kb.rules.trans hr) kb.frames hk hbs
    exact ⟨out ++ outs, by simpa using kb.trans kbs, .cons bb bbs⟩

/-- A new node takes the next tag; the same node takes none. -/
theorem settle_ok {α : Type} {same : Bool} {old e' : α} {new : Mark → α} {span : Option Span}
    (h : (if same = true then pure old
      else do return new (← freshMark span) : Build σ α).exec s = (.ok e', s')) :
    s.Keeps s.builder.frames s' ∧ Settles s.trail same old new span e' s'.trail := by
  cases same with
  | true =>
    obtain ⟨rfl, rfl⟩ := Act.exec_pure_ok.mp h
    exact ⟨.refl _, .same rfl⟩
  | false =>
    obtain ⟨_, _, hm, hp⟩ := Act.exec_bind_ok.mp h
    obtain ⟨rfl, ht, hk⟩ := freshMark_ok hm
    obtain ⟨rfl, rfl⟩ := Act.exec_pure_ok.mp hp
    exact ⟨hk, ht ▸ .changed rfl⟩

/-- Nothing is emitted into the block of the scope, so the result stands alone. -/
theorem inScope_ok (hgo : Faithful p rules go) (hr : s.builder.rules = rules) {e e' : Expr}
    {params : List Var} (h : (inScope go e params).exec s = (.ok e', s')) :
    s.Keeps s.builder.frames s' ∧
      ∃ t, Expr.Becomes p rules s.trail e e' t ∧ s'.trail = t.tick.leave s.trail := by
  simp only [inScope, Act.exec_bind_ok, Act.exec_attempt_ok, Act.exec_resume_ok] at h
  obtain ⟨_, s1, h1, _, s2, h2, _, s3, h3, visited, s4, h4, block, s5, h5, scope, s6, h6, remap, s7,
    h7, _, _, ⟨rfl, rfl⟩, _, _, ⟨rfl, rfl⟩, _, _, ⟨rfl, rfl⟩, _, _, ⟨rfl, rfl⟩, h⟩ := h
  obtain rfl := openRemap_ok h1
  obtain rfl := beginScope_ok h2
  obtain ⟨t3, k3⟩ := beginBlock_ok h3
  obtain ⟨k4, b4⟩ := hgo.expr (k3.rules.trans hr) h4
  obtain ⟨rfl, t5, k5⟩ := endBlock_ok (k4.frames.trans k3.frames) h5
  have k := (k3.trans k4).trans k5
  obtain rfl := endScope_ok k.scopes h6
  obtain ⟨u, hu, xu, gu⟩ := Remap.closeScope?_of_extends k.remap
  obtain rfl := closeRemap_ok (r := u) (by exact hu) h7
  obtain ⟨rfl, rfl⟩ := Act.exec_pure_ok.mp h
  refine ⟨⟨k.rules, k.frames, rfl, xu⟩, s4.trail, t3 ▸ b4, ?_⟩
  rw [trail, Trail.mk.injEq]
  exact ⟨gu, congrArg Trail.bound t5, congrArg Trail.next t5⟩

private theorem walkFunctionScope_ok (hgo : Faithful p rules go) (hr : s.builder.rules = rules)
    {f : Function} {e' : Expr} (h : (walkFunctionScope go f).exec s = (.ok e', s')) :
    s.Keeps s.builder.frames s' ∧ Expr.Rebuilds p rules s.trail f.toExpr e' s'.trail := by
  simp only [walkFunctionScope, Act.exec_bind_ok, Act.exec_attempt_ok, Act.exec_resume_ok] at h
  obtain ⟨_, s1, h1, result, s2, h2, remap, s3, h3, _, _, ⟨rfl, rfl⟩, _, _, ⟨rfl, rfl⟩, h⟩ := h
  obtain ⟨rfl, rfl⟩ := Act.exec_pure_ok.mp h
  obtain rfl := openRemap_ok h1
  simp only [walkFunction, Act.exec_bind_ok] at h2
  obtain ⟨params, sp, hp, ret, _, ht, body, sb, hb, h2⟩ := h2
  obtain ⟨kp, tp⟩ := visitVarDefs_ok hgo hp
  obtain ⟨rfl, rfl⟩ := hgo.type ht
  obtain ⟨kb, t, bb, tb⟩ := inScope_ok hgo (kp.rules.trans hr) hb
  rw [decide_eq_true rfl, Bool.and_true] at h2
  obtain ⟨ks, bs⟩ := settle_ok h2
  rw [kp.frames] at kb
  rw [kb.frames] at ks
  have k := (kp.trans kb).trans ks
  obtain ⟨u, hu, xu, gu⟩ := Remap.closeScope?_of_extends k.remap
  obtain rfl := closeRemap_ok hu h3
  rw [tb] at bs
  have ht : trail { s2 with remap := u } = s2.trail.leave s.trail := by
    simp only [trail, Trail.leave, gu]
  exact ⟨⟨k.rules, k.frames, k.scopes, xu⟩, ht ▸ .function tp bb bs⟩

private theorem walkSeq_ok (hgo : Faithful p rules go) (hr : s.builder.rules = rules) {node : Node}
    {blocks : List Block} {body e' : Expr}
    (h : (walkSeq go node blocks body).exec s = (.ok e', s')) :
    s.Keeps s.builder.frames s' ∧
      Expr.Rebuilds p rules s.trail (.seq node blocks body) e' s'.trail := by
  simp only [walkSeq, Act.exec_bind_ok, Act.exec_attempt_ok, Act.exec_resume_ok] at h
  obtain ⟨blocks', s1, h1, _, s2, h2, visited, s3, h3, block, s4, h4, _, _, ⟨rfl, rfl⟩, _, _,
    ⟨rfl, rfl⟩, h⟩ := h
  obtain ⟨k1, b1⟩ := visitBlocks_ok hgo hr h1
  obtain ⟨t2, k2⟩ := beginBlock_ok h2
  obtain ⟨k3, b3⟩ := hgo.expr ((k1.trans k2).rules.trans hr) h3
  obtain ⟨rfl, t4, k4⟩ := endBlock_ok (k3.frames.trans k2.frames) h4
  simp only [Block.bindings, List.isEmpty_nil, Bool.and_true, List.filter_append, List.filter_cons,
    Bool.not_true, Bool.false_eq_true, if_false, List.filter_nil, List.append_nil] at h
  obtain ⟨ks, bs⟩ := settle_ok h
  have k := ((k1.trans k2).trans k3).trans k4
  rw [k1.frames] at k
  rw [k.frames] at ks
  rw [t2] at b3
  rw [t4] at bs
  exact ⟨k.trans ks, .seq b1 b3 bs⟩

private theorem walkIte_ok (hgo : Faithful p rules go) (hr : s.builder.rules = rules) {node : Node}
    {cond onTrue onFalse e' : Expr}
    (h : (walkIte go node cond onTrue onFalse).exec s = (.ok e', s')) :
    s.Keeps s.builder.frames s' ∧
      Expr.Rebuilds p rules s.trail (.ite node cond onTrue onFalse) e' s'.trail := by
  simp only [walkIte, Act.exec_bind_ok] at h
  obtain ⟨cond', s1, h1, onTrue', s2, h2, onFalse', s3, h3, h⟩ := h
  obtain ⟨k1, b1⟩ := hgo.expr hr h1
  obtain ⟨k2, t2, b2, e2⟩ := inScope_ok hgo (k1.rules.trans hr) h2
  obtain ⟨k3, t3, b3, e3⟩ := inScope_ok hgo ((k1.trans k2).rules.trans hr) h3
  obtain ⟨ks, bs⟩ := settle_ok h
  have k := (k1.trans k2).trans k3
  rw [k2.frames, k1.frames] at k
  rw [k.frames] at ks
  rw [e2] at b3
  rw [e3, e2] at bs
  exact ⟨k.trans ks, .ite b1 b2 b3 bs⟩

/-- The parts of a call and the call made of them, before a pass replaces it. -/
theorem walkCall_ok (hgo : Faithful p rules go) (hr : s.builder.rules = rules) {c : Call}
    {e' : Expr} (h : (walkCall go c).exec s = (.ok e', s')) :
    s.Keeps s.builder.frames s' ∧ ∃ callee args t1 t2,
      Expr.Becomes p rules s.trail c.callee callee t1 ∧
      Expr.BecomeAll p rules t1 c.args args t2 ∧
      Settles t2 (allSame Expr.sameAs args c.args && callee.sameAs c.callee) c.toExpr
        (.mkCall · callee args c.attrs c.sinfoArgs) c.node.span e' s'.trail := by
  simp only [walkCall, Act.exec_bind_ok] at h
  obtain ⟨callee, s1, h1, _, s2, h2, args, s3, h3, h⟩ := h
  obtain ⟨k1, b1⟩ := hgo.expr hr h1
  obtain ⟨rfl, rfl⟩ := visitTypes_ok hgo h2
  obtain ⟨k3, b3⟩ := visitExprs_ok hgo (k1.rules.trans hr) h3
  rw [decide_eq_true rfl, Bool.and_true] at h
  obtain ⟨ks, bs⟩ := settle_ok h
  have k := k1.trans k3
  rw [k1.frames] at k
  rw [k.frames] at ks
  exact ⟨k.trans ks, callee, args, _, _, b1, b3, bs⟩

/-- Every walk but that of a call, which a pass may replace. -/
theorem walkExpr_ok (hgo : Faithful p rules go) (hr : s.builder.rules = rules) {e e' : Expr}
    (hc : e.asCall? = none) (h : (walkExpr go e).exec s = (.ok e', s')) :
    s.Keeps s.builder.frames s' ∧ Expr.Rebuilds p rules s.trail e e' s'.trail := by
  simp only [walkExpr, Act.exec_bind_ok] at h
  obtain ⟨_, s1, h1, h⟩ := h
  obtain rfl := visitSpan_ok hgo h1
  cases e with
  | leaf node content =>
    obtain ⟨rfl, rfl⟩ := Act.exec_pure_ok.mp h
    exact ⟨.refl _, .leaf⟩
  | var v =>
    obtain ⟨_, _, hg, hp⟩ := Act.exec_bind_ok.mp h
    cases hg
    obtain ⟨rfl, rfl⟩ := Act.exec_pure_ok.mp hp
    exact ⟨.refl _, .var⟩
  | shape node values =>
    obtain ⟨_, _, hv, hp⟩ := Act.exec_bind_ok.mp h
    obtain ⟨rfl, rfl⟩ := visitDims_ok hgo hv
    rw [if_pos rfl] at hp
    obtain ⟨rfl, rfl⟩ := Act.exec_pure_ok.mp hp
    exact ⟨.refl _, .shape⟩
  | prim node value dtype =>
    obtain ⟨_, _, hv, hp⟩ := Act.exec_bind_ok.mp h
    obtain ⟨rfl, rfl⟩ := hgo.dim hv
    rw [if_pos rfl] at hp
    obtain ⟨rfl, rfl⟩ := Act.exec_pure_ok.mp hp
    exact ⟨.refl _, .prim⟩
  | tuple node fields =>
    obtain ⟨fields', _, hf, hp⟩ := Act.exec_bind_ok.mp h
    obtain ⟨kf, bf⟩ := visitExprs_ok hgo hr hf
    obtain ⟨ks, bs⟩ := settle_ok hp
    rw [kf.frames] at ks
    exact ⟨kf.trans ks, .tuple bf bs⟩
  | item node whole index =>
    obtain ⟨whole', _, hw, hp⟩ := Act.exec_bind_ok.mp h
    obtain ⟨kw, bw⟩ := hgo.expr hr hw
    obtain ⟨ks, bs⟩ := settle_ok hp
    rw [kw.frames] at ks
    exact ⟨kw.trans ks, .item bw bs⟩
  | call => simp [Expr.asCall?] at hc
  | ite node cond onTrue onFalse => exact walkIte_ok hgo hr h
  | seq node blocks body => exact walkSeq_ok hgo hr h
  | function node params body ret attrs => exact walkFunctionScope_ok hgo hr h

theorem remapIfChanged_ok {v v' : Var} (h : (remapIfChanged v v').exec s = (.ok (), s')) :
    s'.trail = s.trail.replaceIfChanged v v' ∧ s.Keeps s.builder.frames s' := by
  unfold remapIfChanged at h
  unfold Trail.replaceIfChanged
  split at h
  · next hs =>
    obtain ⟨-, rfl⟩ := Act.exec_pure_ok.mp h
    exact ⟨by rw [if_pos hs], .refl _⟩
  · next hs =>
    obtain ⟨ht, hk⟩ := setRemap_ok h
    exact ⟨by rw [if_neg hs, ht], hk⟩

theorem walkBind_ok (hgo : Faithful p rules go) (hr : s.builder.rules = rules) {frame : Frame}
    {rest : List Frame} (hf : s.builder.frames = frame :: rest) {mark : Mark} {v : Var}
    {value : Expr} (hl : p.lowered? v value = none)
    (h : (walkBind go mark v value).exec s = (.ok (), s')) : ∃ out,
      s.Keeps (⟨frame.kind, frame.bindings ++ out⟩ :: rest) s' ∧
      Binding.Becomes p rules frame.kind s.trail (.bind mark v value) out s'.trail := by
  simp only [walkBind, Act.exec_bind_ok] at h
  obtain ⟨value', s1, h1, v1, s2, h2, h⟩ := h
  obtain ⟨k1, b1⟩ := hgo.expr hr h1
  obtain ⟨k2, d2⟩ := hgo.varDef h2
  have k := k1.trans k2
  rw [k1.frames, hf] at k
  split at h
  · next hs =>
    obtain ⟨hk, te, ke⟩ := emitBinding_ok k.frames h
    exact ⟨_, k.trans ke, te ▸ .kept hl b1 d2 hs hk⟩
  · next hs =>
    simp only [Act.exec_bind_ok] at h
    obtain ⟨v', s3, h3, _, s4, h4, _, s5, h5, h⟩ := h
    obtain ⟨t3, k3⟩ := retype_ok h3
    obtain ⟨t4, k4⟩ := remapIfChanged_ok h4
    obtain ⟨rfl, t5, k5⟩ := freshMark_ok h5
    have k' := ((k.trans k3).trans k4).trans k5
    rw [k4.frames, k3.frames, k.frames] at k'
    obtain ⟨hk, te, ke⟩ := emitBinding_ok k'.frames h
    have ht : s4.trail.next = s3.trail.next := by rw [t4, Trail.replaceIfChanged_next]
    rw [t5, ht, t4] at te
    rw [ht] at ke hk
    exact ⟨_, k'.trans ke, te ▸ .changed hl b1 d2 (Bool.eq_false_iff.mpr hs) t3 hk⟩

theorem walkCast_ok (hgo : Faithful p rules go) (hr : s.builder.rules = rules) {frame : Frame}
    {rest : List Frame} (hf : s.builder.frames = frame :: rest) {mark : Mark} {v : Var}
    {value : Expr} {sinfo : StructInfo}
    (h : (walkCast go mark v value sinfo).exec s = (.ok (), s')) : ∃ out,
      s.Keeps (⟨frame.kind, frame.bindings ++ out⟩ :: rest) s' ∧
      Binding.Becomes p rules frame.kind s.trail (.cast mark v value sinfo) out s'.trail := by
  simp only [walkCast, Act.exec_bind_ok] at h
  obtain ⟨value', s1, h1, sinfo', s2, h2, v1, s3, h3, h⟩ := h
  obtain ⟨k1, b1⟩ := hgo.expr hr h1
  obtain ⟨rfl, rfl⟩ := hgo.type h2
  obtain ⟨k2, d2⟩ := hgo.varDef h3
  have k := k1.trans k2
  rw [k1.frames, hf] at k
  rw [decide_eq_true rfl, Bool.and_true] at h
  split at h
  · next hs =>
    obtain ⟨hk, te, ke⟩ := emitBinding_ok k.frames h
    exact ⟨_, k.trans ke, te ▸ .keptCast b1 d2 hs hk⟩
  · next hs =>
    simp only [Act.exec_bind_ok] at h
    obtain ⟨v', s4, h4, _, s5, h5, _, s6, h6, h⟩ := h
    obtain ⟨t4, k4⟩ := retype_ok h4
    obtain ⟨t5, k5⟩ := remapIfChanged_ok h5
    obtain ⟨rfl, t6, k6⟩ := freshMark_ok h6
    have k' := ((k.trans k4).trans k5).trans k6
    rw [k5.frames, k4.frames, k.frames] at k'
    obtain ⟨hk, te, ke⟩ := emitBinding_ok k'.frames h
    have ht : s5.trail.next = s4.trail.next := by rw [t5, Trail.replaceIfChanged_next]
    rw [t6, ht, t5] at te
    rw [ht] at ke hk
    exact ⟨_, k'.trans ke, te ▸ .changedCast b1 d2 (Bool.eq_false_iff.mpr hs) t4 hk⟩

theorem walkBlockAs_ok (hgo : Faithful p rules go) (hr : s.builder.rules = rules) {b b' : Block}
    (h : (walkBlockAs go (p.blockKind b.kind) b).exec s = (.ok b', s')) :
    s.Keeps s.builder.frames s' ∧ Block.Becomes p rules s.trail b b' s'.trail := by
  simp only [walkBlockAs, Act.exec_bind_ok, Act.exec_attempt_ok, Act.exec_resume_ok] at h
  obtain ⟨_, s1, h1, visited, s2, h2, block, s3, h3, _, _, ⟨rfl, rfl⟩, _, _, ⟨rfl, rfl⟩, h⟩ := h
  obtain ⟨t1, k1⟩ := beginBlock_ok h1
  obtain ⟨out, k2, b2⟩ := visitBindings_ok hgo (k1.rules.trans hr) k1.frames
    (p.blockKind_blockKind b.kind) h2
  obtain ⟨rfl, t3, k3⟩ := endBlock_ok k2.frames h3
  have k := (k1.trans k2).trans k3
  rw [t1] at b2
  split at h
  · next hs =>
    obtain ⟨rfl, rfl⟩ := Act.exec_pure_ok.mp h
    exact ⟨k, t3 ▸ .kept b2 hs⟩
  · next hs =>
    obtain ⟨rfl, rfl⟩ := Act.exec_pure_ok.mp h
    exact ⟨k, t3 ▸ .changed b2 (Bool.eq_false_iff.mpr hs)⟩

end DataflowIR.Transformer
