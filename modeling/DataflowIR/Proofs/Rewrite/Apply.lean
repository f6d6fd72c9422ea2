import DataflowIR.Proofs.Rewrite.Runs
import Mathlib.Data.List.Forall2

namespace DataflowIR

namespace Transformer

open Session

variable {p : Pass} {rules : Rules} {go : (s : Site) → Build Unit s.Result}
variable {s s' : Session Unit}

theorem fills_ok {σ : Type} {s s' : Session σ} (hr : s.builder.rules = rules) {e e' : Expr}
    (h : (normalize e).exec s = (.ok e', s')) :
    s.Keeps s.builder.frames s' ∧ Fills rules s.trail e e' s'.trail := by
  have hm : (Builder.new rules).missingSinfo e = s.builder.missingSinfo e := by
    rw [Builder.missingSinfo, Builder.missingSinfo, hr]
    rfl
  obtain ⟨⟨hn, rfl, ht⟩ | ⟨i, hi, rfl, ht⟩, hk⟩ := normalize_ok h
  · exact ⟨hk, ht ▸ .kept (hm.trans hn)⟩
  · exact ⟨hk, ht ▸ .filled i (hm.trans hi)⟩

private theorem requestName_ok {hint name : String}
    (h : (requestName hint).exec s = (.ok name, s')) :
    s'.trail = s.trail ∧ s.Keeps s.builder.frames s' := by
  cases h
  exact ⟨rfl, rfl, rfl, rfl, .refl _⟩

private theorem freshVar_ok {hint : String} {sinfo : Option StructInfo} {dataflow : Bool} {v : Var}
    (h : (freshVar hint sinfo dataflow).exec s = (.ok v, s')) :
    ∃ name, v = .make ⟨s.trail.next, none⟩ ⟨s.trail.next + 1, name⟩ sinfo dataflow ∧
      s'.trail = s.trail.tick.tick ∧ s.Keeps s.builder.frames s' := by
  simp only [freshVar, freshId, Act.exec_bind_ok] at h
  obtain ⟨name, s1, h1, mark, s2, h2, id, s3, ⟨n, s4, h3, h4⟩, h⟩ := h
  obtain ⟨t1, k1⟩ := requestName_ok h1
  obtain ⟨rfl, t2, k2⟩ := freshMark_ok h2
  obtain ⟨rfl, t3, k3⟩ := fresh_ok h3
  obtain ⟨rfl, rfl⟩ := Act.exec_pure_ok.mp h4
  obtain ⟨rfl, rfl⟩ := Act.exec_pure_ok.mp h
  have k := (k1.trans k2).trans k3
  rw [k2.frames, k1.frames] at k
  exact ⟨name, by rw [t2, t1, Trail.tick_next], by rw [t3, t2, t1], k⟩

/-- Into a plain block a value is emitted as a regular variable. -/
private theorem emit_ok (hr : s.builder.rules = rules) {frame : Frame} {rest : List Frame}
    (hf : s.builder.frames = frame :: rest) (hp : frame.kind = .plain) {value : Expr}
    {hint : String} {v : Var} (h : (emit value hint).exec s = (.ok v, s')) : ∃ b,
      s.Keeps (⟨frame.kind, frame.bindings ++ [b]⟩ :: rest) s' ∧
      Emits rules s.trail value v b s'.trail := by
  have hd : s.builder.inDataflow = false := by simp [Builder.inDataflow, hf, hp]
  simp only [emit, Act.exec_bind_ok] at h
  obtain ⟨_, _, hb, h⟩ := h
  obtain ⟨rfl, rfl⟩ := getBuilder_ok hb
  simp only [hf, hd, List.isEmpty_cons, Bool.false_eq_true, if_false, emitValue,
    Act.exec_bind_ok] at h
  obtain ⟨value', s1, h1, v1, s2, h2, mark, s3, h3, _, s4, h4, h⟩ := h
  obtain ⟨k1, f1⟩ := fills_ok hr h1
  obtain ⟨name, rfl, t2, k2⟩ := freshVar_ok h2
  obtain ⟨rfl, t3, k3⟩ := freshMark_ok h3
  obtain ⟨rfl, rfl⟩ := Act.exec_pure_ok.mp h
  have k := (k1.trans k2).trans k3
  rw [k2.frames, k1.frames, hf] at k
  obtain ⟨-, t4, k4⟩ := emitBinding_ok k.frames h4
  rw [t3, t2] at t4
  rw [t2] at k4
  exact ⟨_, k.trans k4, t4 ▸ .mk name f1 rfl⟩

/-- The operands are visited one after the other, and then three bindings are appended. -/
theorem lowerCall_emits (hgo : Faithful .explicitMemory rules go) (hr : s.builder.rules = rules)
    {frame : Frame} {rest : List Frame} (hf : s.builder.frames = frame :: rest)
    (hp : frame.kind = .plain) {mark : Mark} {v : Var} {shape f packed : Expr} {out : StructInfo}
    (h : (lowerCall go mark v out shape f packed).exec s = (.ok (), s')) :
    ∃ shape' s1 f' s2 packed' s3 alloc allocBinding t4 called callBinding t5 v1 t6 v' t7,
      (go (.expr shape)).exec s = (.ok shape', s1) ∧ (go (.expr f)).exec s1 = (.ok f', s2) ∧
      (go (.expr packed)).exec s2 = (.ok packed', s3) ∧
      Emits rules s3.trail.tick.tick (allocation s3.trail.next shape' out) alloc allocBinding t4 ∧
      Emits rules t4.tick
        (.mkCall ⟨t4.next, none⟩ f' (packed'.asTuple?.getD [packed'] ++ [.var alloc]) none [])
        called callBinding t5 ∧
      t5.define .explicitMemory v = (v1, t6) ∧ t6.retype v1 (some out) = (v', t7) ∧
      s'.trail = (t7.replaceIfChanged v v').tick.record
        (.bind ⟨t7.next, mark.span⟩ v' (.var alloc)) ∧
      s.Keeps (⟨frame.kind, frame.bindings ++
        [allocBinding, callBinding, .bind ⟨t7.next, mark.span⟩ v' (.var alloc)]⟩ :: rest) s' := by
  simp only [lowerCall, Act.exec_bind_ok] at h
  obtain ⟨shape', s1, h1, f', s2, h2, packed', s3, h3, n, s4, h4, mark1, s5, h5, alloc, s6, h6, _,
    s7, h7, mark2, s8, h8, called, s9, h9, v1, s10, h10, v', s11, h11, _, s12, h12, mark3, s13,
    h13, h⟩ := h
  obtain ⟨k1, -⟩ := hgo.expr hr h1
  obtain ⟨k2, -⟩ := hgo.expr (k1.rules.trans hr) h2
  have k := k1.trans k2
  obtain ⟨k3, -⟩ := hgo.expr (k.rules.trans hr) h3
  obtain ⟨rfl, t4, k4⟩ := fresh_ok h4
  obtain ⟨rfl, t5, k5⟩ := freshMark_ok h5
  have k := ((k.trans k3).trans k4).trans k5
  rw [k4.frames, k3.frames, k2.frames, k1.frames, hf] at k
  rw [t4] at h6
  obtain ⟨b6, k6, e6⟩ := emit_ok (k.rules.trans hr) k.frames hp h6
  rw [t5, t4] at e6
  have k := k.trans k6
  obtain ⟨t7, k7⟩ := report_ok h7
  obtain ⟨rfl, t8, k8⟩ := freshMark_ok h8
  have k := (k.trans k7).trans k8
  rw [k7.frames, k6.frames] at k
  rw [t7] at h9
  obtain ⟨b9, k9, e9⟩ := emit_ok (k.rules.trans hr) k.frames hp h9
  rw [t8, t7] at e9
  obtain ⟨k10, d10⟩ := hgo.varDef h10
  obtain ⟨t11, k11⟩ := retype_ok h11
  obtain ⟨t12, k12⟩ := remapIfChanged_ok h12
  obtain ⟨rfl, t13, k13⟩ := freshMark_ok h13
  have k := ((((k.trans k9).trans k10).trans k11).trans k12).trans k13
  rw [k12.frames, k11.frames, k10.frames, k9.frames] at k
  obtain ⟨-, te, ke⟩ := emitBinding_ok k.frames h
  have ht : s12.trail.next = s11.trail.next := by rw [t12, Trail.replaceIfChanged_next]
  rw [t13, ht, t12] at te
  rw [ht] at ke
  exact ⟨shape', s1, f', s2, packed', s3, alloc, b6, _, called, b9, _, v1, _, v', _, h1, h2, h3, e6,
    e9, d10, t11, te, by simpa using k.trans ke⟩

private theorem lowerCall_ok (hgo : Faithful .explicitMemory rules go)
    (hr : s.builder.rules = rules)
    {frame : Frame} {rest : List Frame} (hf : s.builder.frames = frame :: rest)
    (hp : frame.kind = .plain) {mark : Mark} {v : Var} {value shape f packed : Expr}
    {out : StructInfo}
    (hl : Pass.explicitMemory.lowered? v value = some (out, shape, f, packed))
    (h : (lowerCall go mark v out shape f packed).exec s = (.ok (), s')) : ∃ bs,
      s.Keeps (⟨frame.kind, frame.bindings ++ bs⟩ :: rest) s' ∧
      Binding.Becomes .explicitMemory rules frame.kind s.trail (.bind mark v value) bs
        s'.trail := by
  obtain ⟨shape', s1, f', s2, packed', s3, alloc, b4, t4, called, b5, t5, v1, t6, v', t7, h1, h2,
    h3, e4, e5, hd, ht, te, ke⟩ := lowerCall_emits hgo hr hf hp h
  obtain ⟨k1, b1⟩ := hgo.expr hr h1
  obtain ⟨k2, b2⟩ := hgo.expr (k1.rules.trans hr) h2
  obtain ⟨-, b3⟩ := hgo.expr (k2.rules.trans (k1.rules.trans hr)) h3
  exact ⟨_, ke, te ▸ .lowered hl hp b1 b2 b3 e4 e5 hd ht⟩

theorem lowerBinding_ok (hgo : Faithful .explicitMemory rules go) (hr : s.builder.rules = rules)
    {frame : Frame} {rest : List Frame} (hf : s.builder.frames = frame :: rest)
    (hp : frame.kind = .plain) {b : Binding}
    (h : (lowerBinding go b).exec s = (.ok (), s')) : ∃ bs,
      s.Keeps (⟨frame.kind, frame.bindings ++ bs⟩ :: rest) s' ∧
      Binding.Becomes .explicitMemory rules frame.kind s.trail b bs s'.trail := by
  cases b with
  | cast mark v value sinfo => exact walkCast_ok hgo hr hf h
  | bind mark v value =>
    unfold lowerBinding at h
    cases hc : value.asCall? with
    | none =>
      simp only [hc] at h
      exact walkBind_ok hgo hr hf (by simp [Pass.lowered?, hc]) h
    | some c =>
      simp only [hc] at h
      cases hd : destinationPassing? c with
      | none =>
        simp only [hd] at h
        exact walkBind_ok hgo hr hf (by simp [Pass.lowered?, hc, hd]) h
      | some parts =>
        obtain ⟨shape, f, packed⟩ := parts
        simp only [hd] at h
        exact lowerCall_ok hgo hr hf hp (by simp [Pass.lowered?, hc, hd]) h

private theorem fuseAddition_ok {e e' : Expr} (h : (fuseAddition e).exec s = (.ok e', s')) :
    s.Keeps s.builder.frames s' ∧ Finishes .fusedMultiplyAdd s.trail e e' s'.trail := by
  have hfactors : ∀ x, s.trail.factors? x = factors? s.builder x := fun _ => rfl
  unfold fuseAddition at h
  cases ha : e.asCall?.bind (·.binaryOperands? "relax.add") with
  | none =>
    simp only [ha] at h
    obtain ⟨rfl, rfl⟩ := Act.exec_pure_ok.mp h
    exact ⟨.refl _, .kept fun _ => by simp only [Trail.fusion?, ha]⟩
  | some operands =>
    obtain ⟨lhs, addend⟩ := operands
    simp only [ha, Act.exec_bind_ok] at h
    obtain ⟨_, _, hb, h⟩ := h
    obtain ⟨rfl, rfl⟩ := getBuilder_ok hb
    split at h
    · next hn =>
      obtain ⟨rfl, rfl⟩ := Act.exec_pure_ok.mp h
      refine ⟨.refl _, .kept ?_⟩
      intro _
      simp only [Trail.fusion?, ha, hfactors, hn, Option.map_none]
    · next a b hs =>
      simp only [Act.exec_bind_ok] at h
      obtain ⟨_, s1, h1, mark, s2, h2, n, s3, h3, h⟩ := h
      obtain ⟨t1, k1⟩ := report_ok h1
      obtain ⟨rfl, t2, k2⟩ := freshMark_ok h2
      obtain ⟨rfl, t3, k3⟩ := fresh_ok h3
      obtain ⟨rfl, rfl⟩ := Act.exec_pure_ok.mp h
      have k := (k1.trans k2).trans k3
      rw [k2.frames, k1.frames] at k
      rw [t2, t1] at t3 ⊢
      exact ⟨k, t3 ▸ .fused a b addend rfl
        (by simp only [Trail.fusion?, ha, hfactors, hs, Option.map_some])⟩

private theorem walkVarDef_ok {σ : Type} {go : (s : Site) → Build σ s.Result} {s s' : Session σ}
    (hgo : Faithful p rules go) {v v' : Var}
    (h : (walkVarDef go v).exec s = (.ok v', s')) : v = v' ∧ s' = s := by
  simp only [walkVarDef, Act.exec_bind_ok] at h
  obtain ⟨_, _, h1, h⟩ := h
  obtain rfl := visitSpan_ok hgo h1
  split at h
  · exact ⟨(Act.exec_pure_ok.mp h).1, (Act.exec_pure_ok.mp h).2.symm⟩
  · obtain ⟨i, _, hi, hp⟩ := Act.exec_bind_ok.mp h
    obtain ⟨rfl, rfl⟩ := hgo.type hi
    rw [if_pos rfl] at hp
    exact ⟨(Act.exec_pure_ok.mp hp).1, (Act.exec_pure_ok.mp hp).2.symm⟩

private theorem stepExpr_ok (hgo : Faithful p rules go) (hr : s.builder.rules = rules) {e e' : Expr}
    (h : (p.transformer go (.expr e)).exec s = (.ok e', s')) :
    s.Keeps s.builder.frames s' ∧ Expr.Becomes p rules s.trail e e' s'.trail := by
  have h : (go (.exprKind e) >>= normalize : Build Unit Expr).exec s = (.ok e', s') := by
    cases p <;> exact h
  obtain ⟨e1, s1, h1, h2⟩ := Act.exec_bind_ok.mp h
  obtain ⟨k1, b1⟩ := hgo.exprKind hr h1
  obtain ⟨k2, f2⟩ := fills_ok (k1.rules.trans hr) h2
  rw [k1.frames] at k2
  exact ⟨k1.trans k2, .mk b1 f2⟩

private theorem stepCall_ok (hgo : Faithful p rules go) (hr : s.builder.rules = rules) {node : Node}
    {callee e' : Expr} {args : List Expr} {attrs : Option Attrs} {sinfoArgs : List StructInfo}
    (h : (p.transformer go (.exprKind (.call node callee args attrs sinfoArgs))).exec s =
      (.ok e', s')) :
    s.Keeps s.builder.frames s' ∧
      Expr.Rebuilds p rules s.trail (.call node callee args attrs sinfoArgs) e' s'.trail := by
  have h : ∃ e1 s1, (walkExpr go (.call node callee args attrs sinfoArgs)).exec s = (.ok e1, s1) ∧
      s1.Keeps s1.builder.frames s' ∧ Finishes p s1.trail e1 e' s'.trail := by
    cases p with
    | normalize => exact ⟨e', s', h, .refl _, .kept nofun⟩
    | explicitMemory => exact ⟨e', s', h, .refl _, .kept nofun⟩
    | fusedMultiplyAdd =>
      obtain ⟨e1, s1, h1, h2⟩ := Act.exec_bind_ok.mp h
      exact ⟨e1, s1, h1, fuseAddition_ok h2⟩
  obtain ⟨e1, s1, h1, ks, fs⟩ := h
  simp only [walkExpr, Act.exec_bind_ok] at h1
  obtain ⟨_, _, hv, hc⟩ := h1
  obtain rfl := visitSpan_ok hgo hv
  obtain ⟨kc, callee', args', t1, t2, bc, ba, sc⟩ := walkCall_ok hgo hr hc
  rw [kc.frames] at ks
  exact ⟨kc.trans ks, .call bc ba sc fs⟩

private theorem stepExprKind_ok (hgo : Faithful p rules go) (hr : s.builder.rules = rules)
    {e e' : Expr} (h : (p.transformer go (.exprKind e)).exec s = (.ok e', s')) :
    s.Keeps s.builder.frames s' ∧ Expr.Rebuilds p rules s.trail e e' s'.trail := by
  cases hc : e.asCall? with
  | none =>
    have h : (walkExpr go e).exec s = (.ok e', s') := by
      cases p with
      | normalize => exact h
      | explicitMemory => exact h
      | fusedMultiplyAdd =>
        cases e with
        | call => simp [Expr.asCall?] at hc
        | _ => exact h
    exact walkExpr_ok hgo hr hc h
  | some c =>
    obtain rfl := Expr.eq_toExpr_of_asCall? hc
    exact stepCall_ok hgo hr h

private theorem stepBindingKind_ok (hgo : Faithful p rules go) (hr : s.builder.rules = rules)
    {frame : Frame} {rest : List Frame} (hf : s.builder.frames = frame :: rest)
    (hk : p.blockKind frame.kind = frame.kind) {b : Binding}
    (h : (p.transformer go (.bindingKind b)).exec s = (.ok (), s')) : ∃ out,
      s.Keeps (⟨frame.kind, frame.bindings ++ out⟩ :: rest) s' ∧
      Binding.Becomes p rules frame.kind s.trail b out s'.trail := by
  cases p with
  | explicitMemory => exact lowerBinding_ok hgo hr hf hk.symm h
  | normalize =>
    cases b with
    | cast mark v value sinfo => exact walkCast_ok hgo hr hf h
    | bind mark v value => exact walkBind_ok hgo hr hf rfl h
  | fusedMultiplyAdd =>
    cases b with
    | cast mark v value sinfo => exact walkCast_ok hgo hr hf h
    | bind mark v value => exact walkBind_ok hgo hr hf rfl h

private theorem stepBlockKind_ok (hgo : Faithful p rules go) (hr : s.builder.rules = rules)
    {b b' : Block} (h : (p.transformer go (.blockKind b)).exec s = (.ok b', s')) :
    s.Keeps s.builder.frames s' ∧ Block.Becomes p rules s.trail b b' s'.trail := by
  apply walkBlockAs_ok hgo hr
  cases p <;> exact h

private theorem stepVarDefKind_ok (hgo : Faithful p rules go) {v v' : Var}
    (h : (p.transformer go (.varDefKind v)).exec s = (.ok v', s')) :
    s.Keeps s.builder.frames s' ∧ s.trail.define p v = (v', s'.trail) := by
  by_cases hv : p = .explicitMemory ∧ v.dataflow
  · obtain ⟨rfl, hd⟩ := hv
    simp only [Pass.transformer, makeMemoryExplicit, hd, if_true, changeKind,
      Act.exec_bind_ok] at h
    obtain ⟨mark, s1, h1, _, s2, h2, h⟩ := h
    obtain ⟨rfl, t1, k1⟩ := freshMark_ok h1
    obtain ⟨t2, k2⟩ := setRemap_ok h2
    obtain ⟨rfl, rfl⟩ := Act.exec_pure_ok.mp h
    rw [k1.frames] at k2
    exact ⟨k1.trans k2, by rw [Trail.define, if_pos ⟨rfl, hd⟩, t2, t1]⟩
  · have h : (walkVarDef go v).exec s = (.ok v', s') := by
      cases p with
      | normalize => exact h
      | fusedMultiplyAdd => exact h
      | explicitMemory =>
        have hd : v.dataflow = false := by simpa using hv
        simpa only [Pass.transformer, makeMemoryExplicit, hd, Bool.false_eq_true, if_false] using h
    obtain ⟨rfl, rfl⟩ := walkVarDef_ok hgo h
    exact ⟨.refl _, by rw [Trail.define, if_neg hv]⟩

theorem Faithful.step (hgo : Faithful p rules go) : Faithful p rules (p.transformer go) where
  expr hr h := stepExpr_ok hgo hr h
  exprKind hr h := stepExprKind_ok hgo hr h
  binding hr hf hk h := hgo.bindingKind hr hf hk (by cases p <;> exact h)
  bindingKind hr hf hk h := stepBindingKind_ok hgo hr hf hk h
  block hr h := hgo.blockKind hr (by cases p <;> exact h)
  blockKind hr h := stepBlockKind_ok hgo hr h
  varDef h := hgo.varDefKind (by cases p <;> exact h)
  varDefKind h := stepVarDefKind_ok hgo h
  type h := by
    cases p <;> exact ⟨(Act.exec_pure_ok.mp h).1, (Act.exec_pure_ok.mp h).2.symm⟩
  span h := by
    cases p <;> exact (Act.exec_pure_ok.mp h).2.symm
  dim h := by
    cases p <;> exact ⟨(Act.exec_pure_ok.mp h).1, (Act.exec_pure_ok.mp h).2.symm⟩

/-- By induction on the fuel: a traversal without fuel never succeeds. -/
theorem Faithful.run {σ : Type} {transformer : Transformer σ}
    (hstep : ∀ {go}, Faithful p rules go → Faithful p rules (transformer go)) (fuel : Fuel) :
    Faithful p rules (transformer.run fuel) := by
  induction fuel with
  | spent => constructor <;> intros <;> simp_all [Transformer.run]
  | step rest ih => exact hstep (ih ())

theorem faithful_run (p : Pass) (rules : Rules) (fuel : Fuel) :
    Faithful p rules (run p.transformer fuel) :=
  .run Faithful.step fuel

/-- The default traversal does as normalization whatever the client's data are. -/
theorem Faithful.walk {σ : Type} {go : (s : Site) → Build σ s.Result}
    (hgo : Faithful .normalize rules go) : Faithful .normalize rules (Transformer.walk go) where
  expr hr h := by
    obtain ⟨e1, s1, h1, h2⟩ := Act.exec_bind_ok.mp h
    obtain ⟨k1, b1⟩ := hgo.exprKind hr h1
    obtain ⟨k2, f2⟩ := fills_ok (k1.rules.trans hr) h2
    rw [k1.frames] at k2
    exact ⟨k1.trans k2, .mk b1 f2⟩
  exprKind {e e' s s'} hr h := by
    cases hc : e.asCall? with
    | none => exact walkExpr_ok hgo hr hc h
    | some c =>
      obtain rfl := Expr.eq_toExpr_of_asCall? hc
      obtain ⟨_, _, hv, hcall⟩ := Act.exec_bind_ok.mp h
      obtain rfl := visitSpan_ok hgo hv
      obtain ⟨kc, _, _, _, _, bc, ba, sc⟩ := walkCall_ok hgo hr hcall
      exact ⟨kc, .call bc ba sc (.kept nofun)⟩
  binding hr hf hk h := hgo.bindingKind hr hf hk h
  bindingKind {b s s' frame rest} hr hf _ h := by
    cases b with
    | bind mark v value => exact walkBind_ok hgo hr hf rfl h
    | cast mark v value sinfo => exact walkCast_ok hgo hr hf h
  block hr h := hgo.blockKind hr h
  blockKind hr h := walkBlockAs_ok hgo hr h
  varDef h := hgo.varDefKind h
  varDefKind h := by
    obtain ⟨rfl, rfl⟩ := walkVarDef_ok hgo h
    exact ⟨.refl _, Trail.define_eq Pass.normalize_ne _ _⟩
  type h := ⟨(Act.exec_pure_ok.mp h).1, (Act.exec_pure_ok.mp h).2.symm⟩
  span h := (Act.exec_pure_ok.mp h).2.symm
  dim h := ⟨(Act.exec_pure_ok.mp h).1, (Act.exec_pure_ok.mp h).2.symm⟩

theorem faithful_walk {σ : Type} (rules : Rules) (fuel : Fuel) :
    Faithful .normalize rules ((Transformer.walk : Transformer σ).run fuel) :=
  .run Faithful.walk fuel

end Transformer

/-- What a pass makes of a function once tags below `next` are used up: the function itself where
it comes back as the same node. -/
inductive Function.Becomes (p : Pass) (next : Nat) (f : Function) : Function → Prop
  | same {n e' t'} (hn : next ≤ n) (hb : Expr.Becomes p .standard (.empty n) f.toExpr e' t')
      (hs : e'.sameAs f.toExpr = true) : Function.Becomes p next f f
  | changed {n f' t'} (hn : next ≤ n)
      (hb : Expr.Becomes p .standard (.empty n) f.toExpr f'.toExpr t')
      (hs : f'.toExpr.sameAs f.toExpr = false) : Function.Becomes p next f f'

theorem Function.Becomes.mono {p : Pass} {m n : Nat} (h : m ≤ n) {f f' : Function}
    (hf : Function.Becomes p n f f') : Function.Becomes p m f f' := by
  cases hf with
  | same hn hb hs => exact .same (h.trans hn) hb hs
  | changed hn hb hs => exact .changed (h.trans hn) hb hs

namespace Module

open Session

variable {p : Pass} {s s' : Session Unit}

private theorem transformFunction_ok {name : String} {f : Function} {r : Option Function}
    (h : (transformFunction p.transformer .standard Expr.fuel name f).exec s = (.ok r, s')) :
    s.world.next ≤ s'.world.next ∧ Function.Becomes p s.world.next f (r.getD f) := by
  simp only [transformFunction, Act.exec_bind_ok, Act.exec_attempt_ok] at h
  obtain ⟨_, s1, h1, r1, s2, h2, h⟩ := h
  cases h1
  cases r1 with
  | error fault =>
    obtain ⟨_, _, _, hf⟩ := Act.exec_bind_ok.mp h
    simp at hf
  | ok new =>
    obtain ⟨-, hb⟩ := (Transformer.faithful_run p .standard _).expr rfl h2
    have hn : s.world.next ≤ s2.world.next := hb.next_le
    dsimp only at h
    split at h
    · next hs =>
      simp only [Act.exec_bind_ok] at h
      obtain ⟨_, s3, h3, _, s4, h4, h⟩ := h
      cases h3
      have hw := dropBuilder_ok h4
      obtain ⟨rfl, rfl⟩ := Act.exec_pure_ok.mp h
      exact ⟨hw ▸ hn, .same le_rfl hb hs⟩
    · next hs =>
      split at h
      · next f' hf =>
        simp only [Act.exec_bind_ok] at h
        obtain ⟨_, s3, h3, _, s4, h4, h⟩ := h
        cases h3
        have hw := dropBuilder_ok h4
        obtain ⟨rfl, rfl⟩ := Act.exec_pure_ok.mp h
        obtain rfl := Expr.eq_toExpr_of_asFunction? hf
        exact ⟨hw ▸ hn, .changed le_rfl hb (Bool.eq_false_iff.mpr hs)⟩
      · obtain ⟨_, _, _, h⟩ := Act.exec_bind_ok.mp h
        simp at h

/-- A function put under a name that is there takes the place of the old one. -/
theorem insert_entries {m : Module} {before rest : List (String × GlobalVar × Function)}
    {g : GlobalVar} {f : Function} (f' : Function)
    (h : m.functions.entries = before ++ (g.name, g, f) :: rest) :
    (m.insert g f').functions.entries = before ++ (g.name, g, f') :: rest := by
  have hs := m.functions.sorted
  simp only [insert, Dictionary.insert, h] at hs ⊢
  exact Dictionary.insertEntry_append g.name (g, f) (g, f') hs

/-- By induction on the functions that are left; those before them are in place already. -/
private theorem transformEach_ok {entries : List (String × GlobalVar × Function)}
    {changed : List (GlobalVar × Function)} (hname : ∀ e ∈ entries, e.2.1.name = e.1)
    (h : (transformEach p.transformer .standard Expr.fuel (entries.map Prod.snd)).exec s =
      (.ok changed, s')) :
    ∃ entries', List.Forall₂ (fun e e' => e'.1 = e.1 ∧ e'.2.1 = e.2.1 ∧
        Function.Becomes p s.world.next e.2.2 e'.2.2) entries entries' ∧
      ∀ (m : Module) (before : List (String × GlobalVar × Function)),
        m.functions.entries = before ++ entries →
        (m.insertAll changed).functions.entries = before ++ entries' := by
  induction entries generalizing changed s with
  | nil =>
    obtain ⟨rfl, rfl⟩ := Act.exec_pure_ok.mp h
    exact ⟨[], .nil, fun _ _ hm => hm⟩
  | cons e rest ih =>
    obtain ⟨name, g, f⟩ := e
    obtain rfl : g.name = name := hname (name, g, f) List.mem_cons_self
    have hrest := fun e he => hname e (List.mem_cons_of_mem _ he)
    simp only [List.map_cons, transformEach, Act.exec_bind_ok] at h
    obtain ⟨r, s1, h1, h⟩ := h
    obtain ⟨hn, hf⟩ := transformFunction_ok h1
    cases r with
    | none =>
      obtain ⟨rest', hr, hm⟩ := ih hrest h
      refine ⟨(g.name, g, f) :: rest', .cons ⟨rfl, rfl, hf⟩
        (hr.imp fun _ _ k => ⟨k.1, k.2.1, k.2.2.mono hn⟩), ?_⟩
      intro m before he
      simpa using hm m (before ++ [(g.name, g, f)]) (by simpa using he)
    | some f' =>
      obtain ⟨changed', s2, h2, h⟩ := Act.exec_bind_ok.mp h
      obtain ⟨rfl, rfl⟩ := Act.exec_pure_ok.mp h
      obtain ⟨rest', hr, hm⟩ := ih hrest h2
      refine ⟨(g.name, g, f') :: rest', .cons ⟨rfl, rfl, hf⟩
        (hr.imp fun _ _ k => ⟨k.1, k.2.1, k.2.2.mono hn⟩), ?_⟩
      intro m before he
      have hi := insert_entries f' he
      simpa [insertAll] using
        hm (m.insert g f') (before ++ [(g.name, g, f')]) (by simpa using hi)

end Module

/-- Each function under the name it had. -/
def Module.Becomes (p : Pass) (next : Nat) (m m' : Module) : Prop :=
  List.Forall₂ (fun e e' => e'.1 = e.1 ∧ e'.2.1 = e.2.1 ∧ Function.Becomes p next e.2.2 e'.2.2)
    m.functions.entries m'.functions.entries

theorem Module.Becomes.get? {p : Pass} {next : Nat} {m m' : Module}
    (h : Module.Becomes p next m m') (name : String) :
    m.get? name = none ∧ m'.get? name = none ∨ ∃ g f f', (g, f) ∈ m.toList ∧
      m.get? name = some f ∧ m'.get? name = some f' ∧ Function.Becomes p next f f' := by
  unfold Becomes at h
  unfold Module.get? Dictionary.find? toList
  generalize m.functions.entries = entries at h ⊢
  generalize m'.functions.entries = entries' at h ⊢
  induction h with
  | nil => exact .inl ⟨rfl, rfl⟩
  | @cons e e' _ _ he _ ih =>
    obtain ⟨k, g, f⟩ := e
    obtain ⟨k', g', f'⟩ := e'
    obtain ⟨rfl, -, hb⟩ := he
    by_cases hk : name = k'
    · subst hk
      exact .inr ⟨g, f, f', by simp, by simp, by simp, hb⟩
    · simp only [List.lookup_cons, beq_false_of_ne hk]
      refine ih.imp_right fun ⟨g, f, f', hm, hf, hf', hb⟩ => ?_
      exact ⟨g, f, f', List.mem_cons_of_mem _ hm, hf, hf', hb⟩

theorem Module.Becomes.contains {p : Pass} {next : Nat} {m m' : Module}
    (h : Module.Becomes p next m m') : m'.contains = m.contains := by
  funext name
  unfold Becomes at h
  unfold Module.contains Dictionary.contains
  generalize m.functions.entries = entries at h ⊢
  generalize m'.functions.entries = entries' at h ⊢
  induction h with
  | nil => rfl
  | cons he _ ih => rw [List.any_cons, List.any_cons, he.1, ih]

/-- What holds of each function after the pass where a condition held before it holds of all of them
where the condition held of all. -/
theorem Module.Becomes.forall_iff {p : Pass} {next : Nat} {m m' : Module}
    (h : Module.Becomes p next m m') {P Q : Function → Prop}
    (hf : ∀ g f f', (g, f) ∈ m.toList → Function.Becomes p next f f' → (Q f' ↔ P f)) :
    (∀ e ∈ m'.toList, Q e.2) ↔ ∀ e ∈ m.toList, P e.2 := by
  unfold Becomes at h
  unfold toList at hf ⊢
  generalize m.functions.entries = entries at h hf ⊢
  generalize m'.functions.entries = entries' at h ⊢
  induction h with
  | nil => simp
  | @cons e e' _ _ he _ ih =>
    rw [List.map_cons, List.map_cons, List.forall_mem_cons, List.forall_mem_cons,
      ih fun g f f' hm => hf g f f' (List.mem_cons_of_mem _ hm)]
    exact and_congr_left' (hf e.2.1 e.2.2 e'.2.2 List.mem_cons_self he.2.2)

/-- A module that is not changed is its own result. -/
theorem Pass.apply_ok {p : Pass} {m : Module} {r : Option Module} {w w' : World}
    (h : (p.apply m).exec w = (.ok r, w')) : Module.Becomes p w.next m (r.getD m) := by
  let run := (m.transform p.transformer .standard Expr.fuel).exec (.new () .standard w)
  have ha : (p.apply m).exec w = (run.1, run.2.world) := rfl
  cases ht : run with
  | mk r' s =>
    rw [ha, ht] at h
    obtain ⟨rfl, rfl⟩ := Prod.mk.inj h
    obtain ⟨changed, s1, h1, h2⟩ := Act.exec_bind_ok.mp ht
    obtain ⟨entries', hf, hm⟩ := Module.transformEach_ok m.named h1
    have he := hm m [] rfl
    rw [Module.Becomes]
    split at h2
    · cases h2
      exact (show m.functions.entries = entries' from he) ▸ hf
    · cases h2
      exact he ▸ hf

theorem Pass.apply_becomes {p : Pass} {m m' : Module} {w w' : World}
    (h : (p.apply m).exec w = (.ok (some m'), w')) : Module.Becomes p w.next m m' :=
  Pass.apply_ok h

/-- The changed module of a run that succeeds and changes something. -/
def Pass.changedModule? (p : Pass) (m : Module) (w : World) : Option Module :=
  match ((p.apply m).exec w).1 with
  | .ok changed => changed
  | .error _ => none

theorem Pass.apply_of_changedModule? {p : Pass} {m m' : Module} {w : World}
    (h : p.changedModule? m w = some m') :
    (p.apply m).exec w = (.ok (some m'), ((p.apply m).exec w).2) := by
  unfold changedModule? at h
  split at h
  · next changed hc => exact Prod.ext (hc.trans (congrArg _ h)) rfl
  · cases h

end DataflowIR
