import DataflowIR.Proofs.Rewrite.Apply
import DataflowIR.Proofs.Scoping.Checks

namespace DataflowIR

theorem Settles.trail_eq {α : Type} {t t' : Trail} {same : Bool} {old e' : α} {new : Mark → α}
    {span : Option Span} (h : Settles t same old new span e' t') :
    t'.remap = t.remap ∧ t'.bound = t.bound := by
  cases h with
  | same => exact ⟨rfl, rfl⟩
  | changed => exact ⟨rfl, rfl⟩

theorem Fills.trail_eq {rules : Rules} {t t' : Trail} {e e' : Expr} (h : Fills rules t e e' t') :
    t'.remap = t.remap ∧ t'.bound = t.bound := by
  cases h with
  | kept => exact ⟨rfl, rfl⟩
  | filled => exact ⟨rfl, rfl⟩

theorem Finishes.trail_eq {p : Pass} {t t' : Trail} {e e' : Expr} (h : Finishes p t e e' t') :
    t'.remap = t.remap ∧ t'.bound = t.bound := by
  cases h with
  | kept => exact ⟨rfl, rfl⟩
  | fused => exact ⟨rfl, rfl⟩

@[simp] theorem Expr.isNormal_withNode (n : Node) (e : Expr) :
    (e.withNode n).isNormal = e.isNormal := by
  cases e <;> rfl

theorem Fills.isNormal {rules : Rules} {t t' : Trail} {e e' : Expr} (h : Fills rules t e e' t') :
    e'.isNormal = e.isNormal := by
  cases h with
  | kept => rfl
  | filled => simp [Expr.withSinfo]

mutual

theorem Expr.Rebuilds.isNormal {p : Pass} {rules : Rules} {t t' : Trail} {e e' : Expr}
    (hn : e.isNormal) (h : Expr.Rebuilds p rules t e e' t') : e'.isNormal := by
  cases h with
  | leaf | var | shape | prim => rfl
  | tuple hf hs =>
    cases hs with
    | same => exact hn
    | changed => exact Expr.BecomeAll.areNormal hn hf
  | item | call | ite | seq | function => cases hn

theorem Expr.Becomes.isNormal {p : Pass} {rules : Rules} {t t' : Trail} {e e' : Expr}
    (hn : e.isNormal) (h : Expr.Becomes p rules t e e' t') : e'.isNormal := by
  match h with
  | .mk hr hf =>
    rw [hf.isNormal]
    exact hr.isNormal hn

theorem Expr.BecomeAll.areNormal {p : Pass} {rules : Rules} {t t' : Trail} {es es' : List Expr}
    (hn : Expr.areNormal es) (h : Expr.BecomeAll p rules t es es' t') : Expr.areNormal es' := by
  match h with
  | .nil => rfl
  | .cons he hs =>
    rw [Expr.areNormal, Bool.and_eq_true] at hn ⊢
    exact ⟨he.isNormal hn.1, hs.areNormal hn.2⟩

end

private theorem Call.isOp_eq {c : Call} {name : String} (h : c.isOp name) :
    ∃ node, c.callee = .leaf node (.op name) := by
  cases hc : c.callee with
  | leaf node content =>
    cases content with
    | op n =>
      simp only [isOp, hc, Expr.asOp?, beq_iff_eq, Option.some.injEq] at h
      exact ⟨node, h ▸ rfl⟩
    | _ => simp [isOp, hc, Expr.asOp?] at h
  | _ => simp [isOp, hc, Expr.asOp?] at h

theorem Call.binaryOperands?_eq {c : Call} {name : String} {a b : Expr}
    (h : c.binaryOperands? name = some (a, b)) :
    c.args = [a, b] ∧ ∃ node, c.callee = .leaf node (.op name) := by
  unfold binaryOperands? at h
  split at h
  · next a' b' ha =>
    split at h
    · next hop =>
      cases h
      exact ⟨ha, isOp_eq hop⟩
    · cases h
  · cases h

theorem Trail.fusion?_eq {t : Trail} {e a b addend : Expr}
    (h : t.fusion? e = some (a, b, addend)) : ∃ c v value c',
      e.asCall? = some c ∧ c.binaryOperands? "relax.add" = some (.var v, addend) ∧
      t.bound v.id = some value ∧ value.asCall? = some c' ∧
      c'.binaryOperands? "relax.multiply" = some (a, b) := by
  unfold fusion? at h
  split at h
  · cases h
  · next lhs x hs =>
    obtain ⟨c, hc, hop⟩ := Option.bind_eq_some_iff.mp hs
    obtain ⟨⟨a', b'⟩, hf, heq⟩ := Option.map_eq_some_iff.mp h
    cases heq
    simp only [factors?, Option.bind_eq_some_iff] at hf
    obtain ⟨c', ⟨value, ⟨v, hv, hb⟩, hc'⟩, hm⟩ := hf
    cases lhs with
    | var w =>
      cases hv
      exact ⟨c, v, value, c', hc, hop, hb, hc', hm⟩
    | _ => cases hv

theorem Transformer.destinationPassing?_eq {c : Call} {shape f packed : Expr}
    (h : destinationPassing? c = some (shape, f, packed)) :
    c.args = [shape, f, packed] ∧ ∃ node, c.callee = .leaf node (.op "relax.call_dps") := by
  unfold destinationPassing? at h
  split at h
  · next a b d ha =>
    split at h
    · next hop =>
      cases h
      exact ⟨ha, Call.isOp_eq hop⟩
    · cases h
  · cases h

theorem Pass.lowered?_eq {p : Pass} {v : Var} {value shape f packed : Expr} {out : StructInfo}
    (h : p.lowered? v value = some (out, shape, f, packed)) :
    p = .explicitMemory ∧ ∃ c, value.asCall? = some c ∧
      Transformer.destinationPassing? c = some (shape, f, packed) ∧
      out = Transformer.destinationSinfo c v := by
  unfold lowered? at h
  split at h
  · next hp =>
    obtain ⟨c, hc, h⟩ := Option.bind_eq_some_iff.mp h
    obtain ⟨parts, hd, heq⟩ := Option.map_eq_some_iff.mp h
    cases heq
    exact ⟨hp, c, hc, hd, rfl⟩
  · cases h

/-- What is lowered is a call of the operator on three arguments. -/
theorem Pass.lowered?_eq_call {p : Pass} {v : Var} {value shape f packed : Expr} {out : StructInfo}
    (h : p.lowered? v value = some (out, shape, f, packed)) : ∃ node opNode attrs sinfoArgs,
      value = .call node (.leaf opNode (.op "relax.call_dps")) [shape, f, packed] attrs
        sinfoArgs := by
  obtain ⟨-, ⟨node, callee, args, attrs, sinfoArgs⟩, hc, hd, -⟩ := Pass.lowered?_eq h
  obtain ⟨rfl, opNode, rfl⟩ := Transformer.destinationPassing?_eq hd
  exact ⟨node, opNode, attrs, sinfoArgs, Expr.eq_toExpr_of_asCall? hc⟩

/-- A variable is replaced by one of its own identity. -/
def Trail.KeepsIds (t : Trail) : Prop :=
  ∀ id v, t.remap id = some v → v.id = id

section Parts

variable {p : Pass} {rules : Rules} {t t' : Trail}

/-- Only a variable becomes a variable, one of the same identity. -/
theorem becomes_var (hk : t.KeepsIds) {e : Expr} {v : Var}
    (h : Expr.Becomes p rules t e (.var v) t') : ∃ w, e = .var w ∧ v.id = w.id := by
  obtain ⟨e1, t1, w, hr, he, hid⟩ : ∃ e1 t1 w, Expr.Rebuilds p rules t e e1 t1 ∧
      e1 = .var w ∧ v.id = w.id := by
    generalize hv : Expr.var v = e' at h
    cases h with
    | @mk _ t1 _ _ e1 _ hr hf =>
      cases hf with
      | kept => exact ⟨_, _, v, hr, hv.symm, rfl⟩
      | filled =>
        cases e1 with
        | var w =>
          cases hv
          exact ⟨_, _, w, hr, rfl, rfl⟩
        | _ => cases hv
  cases hr with
  | @var _ w' =>
    refine ⟨w', rfl, ?_⟩
    cases he
    rw [hid]
    cases hw : t.remap w'.id with
    | none => rfl
    | some u => exact hk _ _ hw
  | leaf | shape | prim => cases he
  | tuple _ hs | item _ hs | ite _ _ _ hs | seq _ _ hs | function _ _ hs =>
    cases hs with
    | same => cases he
    | changed => cases he
  | call _ _ hs hf =>
    cases hf with
    | fused => cases he
    | kept =>
      cases hs with
      | same => cases he
      | changed => cases he

theorem check_operands_normal {known : String → Bool} {asBody : Bool} {sc sc' : Scope} {e : Expr}
    (hsc : e.check known asBody sc = .ok sc') {c : Call} {a b : Expr} {name : String}
    (hc : e.asCall? = some c) (hm : c.binaryOperands? name = some (a, b)) :
    a.isNormal ∧ b.isNormal := by
  obtain ⟨hargs, -⟩ := Call.binaryOperands?_eq hm
  obtain rfl := Expr.eq_toExpr_of_asCall? hc
  have hn := (check_call.mp hsc).1
  rw [hargs] at hn
  exact ⟨hn a (by simp), hn b (by simp)⟩

/-- The factors of a product are normal after the rewrite, too. -/
theorem becomes_factors_normal {e e' : Expr} (h : Expr.Becomes p rules t e e' t')
    (hn : ∀ c, e.asCall? = some c → Expr.areNormal c.args) {c : Call} {a b : Expr}
    (hc : e'.asCall? = some c) (hm : c.binaryOperands? "relax.multiply" = some (a, b)) :
    a.isNormal ∧ b.isNormal := by
  obtain ⟨hargs, node, hcallee⟩ := Call.binaryOperands?_eq hm
  suffices hn : Expr.areNormal c.args by simpa [hargs, Expr.areNormal] using hn
  obtain ⟨e1, t1, c1, hr, he, hca, hcc⟩ : ∃ e1 t1 c1, Expr.Rebuilds p rules t e e1 t1 ∧
      e1.asCall? = some c1 ∧ c1.args = c.args ∧ c1.callee = c.callee := by
    cases h with
    | @mk _ t1 _ _ e1 _ hr hf =>
      cases hf with
      | kept => exact ⟨_, _, c, hr, hc, rfl, rfl⟩
      | filled =>
        cases e1 with
        | call =>
          cases hc
          exact ⟨_, _, _, hr, rfl, rfl, rfl⟩
        | _ => cases hc
  rw [← hca]
  rw [← hcc] at hcallee
  cases hr with
  | leaf | shape | prim | var => cases he
  | tuple _ hs | item _ hs | ite _ _ _ hs | seq _ _ hs | function _ _ hs =>
    cases hs with
    | same => cases he
    | changed => cases he
  | call _ ha hs hf =>
    have hn := hn _ rfl
    cases hf with
    | fused =>
      cases he
      simp [Expr.mkOp, Expr.mkLeaf] at hcallee
    | kept =>
      cases hs with
      | same =>
        cases he
        exact hn
      | changed =>
        cases he
        exact ha.areNormal hn

theorem becomes_args_normal {known : String → Bool} {asBody : Bool} {sc sc' : Scope} {e e' : Expr}
    (h : Expr.Becomes p rules t e e' t') (hsc : e.check known asBody sc = .ok sc') {c : Call}
    {a b : Expr} (hc : e'.asCall? = some c)
    (hm : c.binaryOperands? "relax.multiply" = some (a, b)) : a.isNormal ∧ b.isNormal := by
  refine becomes_factors_normal h ?_ hc hm
  intro c1 hc1
  obtain rfl := Expr.eq_toExpr_of_asCall? hc1
  exact Expr.areNormal_iff.mpr (check_call.mp hsc).1

end Parts

/-- A function keeps its parameters. -/
theorem function_becomes {p : Pass} (hp : p ≠ .explicitMemory) {rules : Rules} {t t' : Trail}
    {f f' : Function} (h : Expr.Becomes p rules t f.toExpr f'.toExpr t') :
    f'.params = f.params ∧ (f'.body = f.body ∨ ∃ t1, Expr.Becomes p rules t f.body f'.body t1) := by
  obtain ⟨node, params, body, ret, attrs⟩ := f
  obtain ⟨node', params', body', ret', attrs'⟩ := f'
  cases h with
  | mk hr hf =>
    cases hr with
    | function hdef hb hs =>
      rw [Trail.defineAll_eq hp] at hdef
      cases hdef
      generalize he : Function.toExpr ⟨node', params', body', ret', attrs'⟩ = e' at hf
      cases hs with
      | same =>
        cases hf with
        | kept =>
          injection he with _ hparams hbody
          exact ⟨hparams, .inl hbody⟩
        | filled =>
          injection he with _ hparams hbody
          exact ⟨hparams, .inl hbody⟩
      | changed =>
        cases hf with
        | kept =>
          injection he with _ hparams hbody
          exact ⟨hparams, .inr ⟨_, hbody ▸ hb⟩⟩
        | filled =>
          injection he with _ hparams hbody
          exact ⟨hparams, .inr ⟨_, hbody ▸ hb⟩⟩

end DataflowIR
