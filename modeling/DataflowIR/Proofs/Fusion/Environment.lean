import DataflowIR.Proofs.Fusion.Records

namespace DataflowIR

universe u

variable {V : Type u} {S : Semantics V}

mutual

/-- Normal expressions keep their value when more variables get one. -/
theorem Expr.eval_mono {env env' : Env V} (h : ∀ id x, env id = some x → env' id = some x) :
    ∀ {e : Expr} {x : V}, e.isNormal → e.eval S env = some x → e.eval S env' = some x
  | .leaf .., _, _, he | .shape .., _, _, he | .prim .., _, _, he => he
  | .var v, x, _, he => h v.id x he
  | .tuple _ fields, x, hn, he => by
    obtain ⟨xs, hxs, rfl⟩ := Option.map_eq_some_iff.mp he
    exact Option.map_eq_some_iff.mpr ⟨xs, Expr.evalAll_mono h hn hxs, rfl⟩
  | .item .., _, hn, _ | .call .., _, hn, _ | .ite .., _, hn, _ | .seq .., _, hn, _
  | .function .., _, hn, _ => by cases hn

private theorem Expr.evalAll_mono {env env' : Env V}
    (h : ∀ id x, env id = some x → env' id = some x)
    {es : List Expr} {xs : List V} (hn : Expr.areNormal es) (he : Expr.evalAll S es env = some xs) :
    Expr.evalAll S es env' = some xs := by
  cases es with
  | nil => exact he
  | cons e es =>
    rw [Expr.areNormal, Bool.and_eq_true] at hn
    obtain ⟨x, hx, hrest⟩ := Option.bind_eq_some_iff.mp he
    obtain ⟨ys, hys, rfl⟩ := Option.map_eq_some_iff.mp hrest
    rw [Expr.evalAll, Expr.eval_mono h hn.1 hx, Option.bind_some, Expr.evalAll_mono h hn.2 hys]
    rfl

end

@[simp] theorem Expr.eval_withNode (n : Node) (e : Expr) :
    (e.withNode n).eval S = e.eval S := by
  cases e <;> rfl

theorem Fills.eval {rules : Rules} {t t' : Trail} {e e' : Expr} (h : Fills rules t e e' t') :
    e'.eval S = e.eval S := by
  cases h with
  | kept => rfl
  | filled => simp [Expr.withSinfo]

/-- A call of an operator on two operands. -/
private theorem eval_binary {e a b : Expr} {c : Call} {name : String} (hc : e.asCall? = some c)
    (ho : c.binaryOperands? name = some (a, b)) (env : Env V) :
    e.eval S env = (a.eval S env).bind fun x =>
      (b.eval S env).bind fun y => S.applyOp name [x, y] := by
  obtain ⟨hargs, node, hcallee⟩ := Call.binaryOperands?_eq ho
  obtain rfl := Expr.eq_toExpr_of_asCall? hc
  simp only [Call.toExpr, Expr.eval, hargs, hcallee, Expr.evalAll, Option.bind_some]
  cases a.eval S env with
  | none => rfl
  | some x =>
    cases b.eval S env with
    | none => rfl
    | some y => rfl

/-- What the trail and the scope say of the environment: a variable that stands for a product on
record has the value of the product. -/
structure Trail.Describes (S : Semantics V) (B : Id → Prop) (t : Trail) (sc : Scope) (env : Env V) :
    Prop where
  remap : t.KeepsIds
  recorded : ∀ id, t.bound id ≠ none → B id
  visible : ∀ id, B id → id ∈ sc.vars ∨ id ∈ sc.dataflowVars → env id ≠ none
  products : ∀ id value c a b x, t.bound id = some value → value.asCall? = some c →
    c.binaryOperands? "relax.multiply" = some (a, b) → env id = some x →
    a.isNormal ∧ b.isNormal ∧ ∃ y z, a.eval S env = some y ∧ b.eval S env = some z ∧
      S.applyOp "relax.multiply" [y, z] = some x

/-- The definitions are of different variables, which have no value yet. -/
structure Fresh (B : Id → Prop) (ds : List (Role × Id)) (env : Env V) : Prop where
  labels : Labels B ds
  nodup : (ds.map Prod.snd).Nodup
  unset : ∀ d ∈ ds, env d.2 = none

theorem Fresh.append {B : Id → Prop} {ds ds' : List (Role × Id)} {env : Env V}
    (h : Fresh B (ds ++ ds') env) : Fresh B ds env ∧ Fresh B ds' env ∧
      ∀ d ∈ ds, ∀ d' ∈ ds', d'.2 ≠ d.2 := by
  have hn := h.nodup
  rw [List.map_append, List.nodup_append] at hn
  refine ⟨⟨h.labels.append.1, hn.1, fun d hd => h.unset d (List.mem_append_left _ hd)⟩,
    ⟨h.labels.append.2, hn.2.1, fun d hd => h.unset d (List.mem_append_right _ hd)⟩, ?_⟩
  intro d hd d' hd' he
  exact hn.2.2 _ (List.mem_map_of_mem hd) _ (List.mem_map_of_mem hd') he.symm

theorem Fresh.bound {B : Id → Prop} {id : Id} {env : Env V} (h : Fresh B [(.bound, id)] env) :
    env id = none ∧ B id := by
  have hm : (Role.bound, id) ∈ [(Role.bound, id)] := List.mem_singleton_self _
  exact ⟨h.unset _ hm, (h.labels _ hm).mp rfl⟩

theorem Fresh.cast {B : Id → Prop} {id : Id} {env : Env V} (h : Fresh B [(.cast, id)] env) :
    env id = none ∧ ¬B id := by
  have hm : (Role.cast, id) ∈ [(Role.cast, id)] := List.mem_singleton_self _
  refine ⟨h.unset _ hm, ?_⟩
  intro hb
  cases (h.labels _ hm).mpr hb

/-- Variables that were defined meanwhile are still without a value. -/
theorem Fresh.of_frame {B : Id → Prop} {ds ds' : List (Role × Id)} {env env' : Env V}
    (h : Fresh B (ds ++ ds') env) (he : ∀ id, id ∉ ds.map Prod.snd → env' id = env id) :
    Fresh B ds' env' := by
  obtain ⟨-, h2, hne⟩ := h.append
  refine ⟨h2.labels, h2.nodup, ?_⟩
  intro d' hd'
  rw [he d'.2 fun hm => ?_, h2.unset d' hd']
  obtain ⟨d, hd, heq⟩ := List.mem_map.mp hm
  exact hne d hd d' hd' heq.symm

namespace Trail.Describes

variable {B : Id → Prop} {t t' : Trail} {sc sc' : Scope} {env env' : Env V}

/-- An expression changes the trail only at variables without a value. -/
theorem after (h : t.Describes S B sc env) {ds : List (Role × Id)} (hg : t.Grows ds t')
    (hf : Fresh B ds env)
    (hs : ∀ id, B id → id ∈ sc'.vars ∨ id ∈ sc'.dataflowVars →
      id ∈ sc.vars ∨ id ∈ sc.dataflowVars) :
    t'.Describes S B sc' env := by
  refine ⟨hg.remap h.remap, ?_, fun id hb hid => h.visible id hb (hs id hb hid), ?_⟩
  · intro id hb
    by_cases hd : (Role.bound, id) ∈ ds
    · exact (hf.labels _ hd).mp rfl
    · rw [hg.bound id hd] at hb
      exact h.recorded id hb
  · intro id value c a b x hv hc ho hx
    have hd : (Role.bound, id) ∉ ds := fun hd => by
      rw [hf.unset _ hd] at hx
      cases hx
    rw [hg.bound id hd] at hv
    exact h.products id value c a b x hv hc ho hx

theorem of_eq (h : t.Describes S B sc env) (hr : t'.remap = t.remap) (hb : t'.bound = t.bound) :
    t'.Describes S B sc env := by
  refine ⟨?_, ?_, h.visible, ?_⟩
  · intro id v hv
    exact h.remap id v (hr ▸ hv)
  · intro id hid
    exact h.recorded id (hb ▸ hid)
  · intro id value c a b x hval
    exact h.products id value c a b x (hb ▸ hval)

theorem beginDataflow (h : t.Describes S B sc env) :
    t.Describes S B { sc with inDataflow := true } env := by
  exact ⟨h.remap, h.recorded, h.visible, h.products⟩

theorem endDataflow (h : t.Describes S B sc env) :
    t.tick.Describes S B { sc with inDataflow := false, dataflowVars := [] } env := by
  refine ⟨h.remap, h.recorded, ?_, h.products⟩
  intro id hb hid
  exact h.visible id hb (.inl (hid.resolve_right (by simp)))

/-- Giving values to variables that are not bound to any. -/
private theorem extend (h : t.Describes S B sc env)
    (hle : ∀ id x, env id = some x → env' id = some x) (heq : ∀ id, B id → env' id = env id)
    (hs : ∀ id, B id → id ∈ sc'.vars ∨ id ∈ sc'.dataflowVars →
      id ∈ sc.vars ∨ id ∈ sc.dataflowVars) :
    t.Describes S B sc' env' := by
  refine ⟨h.remap, h.recorded, ?_, ?_⟩
  · intro id hb hid
    rw [heq id hb]
    exact h.visible id hb (hs id hb hid)
  · intro id value c a b x hv hc ho hx
    rw [heq id (h.recorded id (by simp [hv]))] at hx
    obtain ⟨hna, hnb, y, z, hy, hz, hm⟩ := h.products id value c a b x hv hc ho hx
    exact ⟨hna, hnb, y, z, Expr.eval_mono hle hna hy, Expr.eval_mono hle hnb hz, hm⟩

end Trail.Describes

theorem Env.bind_congr (env : Env V) {v w : Var} (h : w.id = v.id) : env.bind w = env.bind v := by
  funext x
  rw [Env.bind, Env.bind, h]

private theorem Env.le_bind {env : Env V} {v : Var} (hv : env v.id = none) (x : V) (id : Id) (y : V)
    (h : env id = some y) : env.bind v x id = some y := by
  have hne : id ≠ v.id := fun he => by rw [he, hv] at h; cases h
  rw [Env.bind, Function.update_of_ne hne, h]

theorem Env.bindAll_eq {env env' : Env V} {vs : List Var} {xs : List V}
    (h : env.bindAll vs xs = some env') :
    ∀ id, id ∉ vs.map Var.id → env' id = env id := by
  induction vs generalizing env xs with
  | nil =>
    cases xs with
    | nil =>
      cases h
      exact fun _ _ => rfl
    | cons => cases h
  | cons v vs ih =>
    cases xs with
    | nil => cases h
    | cons x xs =>
      intro id hid
      rw [List.map_cons, List.mem_cons, not_or] at hid
      rw [ih h id hid.2, Env.bind, Function.update_of_ne hid.1]

namespace Trail.Describes

variable {B : Id → Prop} {t t' : Trail} {sc sc' : Scope} {env env' : Env V}

theorem bindAll (h : t.Describes S B sc env) {vs : List Var} {xs : List V}
    (hf : Fresh B (vs.map fun v => (.parameter, v.id)) env) (hsc : sc.defineParams vs = .ok sc')
    (he : env.bindAll vs xs = some env') : t.Describes S B sc' env' := by
  have hframe := Env.bindAll_eq he
  have hparam : ∀ id, B id → id ∉ vs.map Var.id := fun id hb => hf.labels.params hb
  refine h.extend ?_ (fun id hb => hframe id (hparam id hb)) ?_
  · intro id x hx
    rw [hframe id fun hm => ?_, hx]
    obtain ⟨v, hv, rfl⟩ := List.mem_map.mp hm
    rw [hf.unset (.parameter, v.id) (List.mem_map.mpr ⟨v, hv, rfl⟩)] at hx
    cases hx
  · intro id hb hid
    have hadds := Scope.defineParams_adds hsc
    obtain hid | hid := hid
    · exact .inl ((hadds.vars id hid).resolve_left (hparam id hb))
    · exact .inr ((hadds.dataflowVars id hid).resolve_left (hparam id hb))

/-- The variable of a cast is on no record. -/
theorem cast (h : t.Describes S B sc env) {v w : Var} {x : V} (hv : env v.id = none)
    (hb : ¬B v.id) (hsc : sc.Adds [v.id] sc') (hw : w.id = v.id) (hr : t'.KeepsIds)
    (hbd : t'.bound = t.bound) : t'.Describes S B sc' (env.bind w x) := by
  have hne : ∀ id, B id → id ≠ v.id := fun id hid he => hb (he ▸ hid)
  have h : t.Describes S B sc' (env.bind v x) := by
    refine h.extend (Env.le_bind hv x) (fun id hid => Function.update_of_ne (hne id hid) _ _) ?_
    intro id hid hm
    obtain hm | hm := hm
    · exact .inl ((hsc.vars id hm).resolve_left (by simpa using hne id hid))
    · exact .inr ((hsc.dataflowVars id hm).resolve_left (by simpa using hne id hid))
  rw [env.bind_congr hw]
  exact ⟨hr, fun id hid => h.recorded id (hbd ▸ hid), h.visible,
    fun id value c a b y hval => h.products id value c a b y (hbd ▸ hval)⟩

/-- A bound variable has the value that is put on record for it. -/
theorem record (h : t.Describes S B sc env) {v w : Var} {mark : Mark} {value : Expr} {x : V}
    (hv : env v.id = none) (hb : B v.id) (hsc : sc.Adds [v.id] sc') (hw : w.id = v.id)
    (hr : t'.KeepsIds) (hbd : t'.bound = t.bound) (hx : value.eval S env = some x)
    (hn : ∀ c a b, value.asCall? = some c → c.binaryOperands? "relax.multiply" = some (a, b) →
      a.isNormal ∧ b.isNormal) :
    (t'.record (.bind mark w value)).Describes S B sc' (env.bind w x) := by
  have hle : ∀ id y, env id = some y → env.bind w x id = some y :=
    Env.le_bind (by rw [hw, hv]) x
  refine ⟨hr, ?_, ?_, ?_⟩
  · intro id hid
    by_cases hi : id = w.id
    · rw [hi, hw]
      exact hb
    · rw [Trail.record] at hid
      simp only [Function.update_of_ne hi, hbd] at hid
      exact h.recorded id hid
  · intro id hid hm
    by_cases hi : id = w.id
    · simp [Env.bind, hi]
    · rw [Env.bind, Function.update_of_ne hi]
      rw [hw] at hi
      obtain hm | hm := hm
      · exact h.visible id hid (.inl ((hsc.vars id hm).resolve_left (by simpa using hi)))
      · exact h.visible id hid (.inr ((hsc.dataflowVars id hm).resolve_left (by simpa using hi)))
  · intro id value' c a b y hval hc ho hy
    by_cases hi : id = w.id
    · subst hi
      simp only [Trail.record, Function.update_self, Option.some.injEq] at hval
      subst hval
      simp only [Env.bind, Function.update_self, Option.some.injEq] at hy
      subst hy
      obtain ⟨hna, hnb⟩ := hn c a b hc ho
      rw [eval_binary hc ho] at hx
      obtain ⟨y, hya, hx⟩ := Option.bind_eq_some_iff.mp hx
      obtain ⟨z, hzb, hx⟩ := Option.bind_eq_some_iff.mp hx
      exact ⟨hna, hnb, y, z, Expr.eval_mono hle hna hya, Expr.eval_mono hle hnb hzb, hx⟩
    · simp only [Trail.record, Function.update_of_ne hi, hbd] at hval
      rw [Env.bind, Function.update_of_ne hi] at hy
      obtain ⟨hna, hnb, y, z, hya, hzb, hm⟩ := h.products id value' c a b _ hval hc ho hy
      exact ⟨hna, hnb, y, z, Expr.eval_mono hle hna hya, Expr.eval_mono hle hnb hzb, hm⟩

/-- Where the fused call stands, it has the value of the sum. -/
theorem fused (hS : S.Fuses) (h : t.Describes S B sc env) {e a b addend : Expr} {node op : Node}
    (hf : t.fusion? e = some (a, b, addend))
    (hvis : ∀ c v, e.asCall? = some c → c.binaryOperands? "relax.add" = some (.var v, addend) →
      t.bound v.id ≠ none → env v.id ≠ none) :
    (Expr.call node (.leaf op (.op "relax.ewise_fma")) [a, b, addend] none []).eval S env =
      e.eval S env := by
  obtain ⟨c, v, value, c', hc, hadd, hval, hc', hmul⟩ := Trail.fusion?_eq hf
  obtain ⟨x, hx⟩ := Option.ne_none_iff_exists'.mp (hvis c v hc hadd (by simp [hval]))
  obtain ⟨-, -, y, z, hy, hz, hm⟩ := h.products v.id value c' a b x hval hc' hmul hx
  rw [eval_binary hc hadd]
  simp only [Expr.eval, Expr.evalAll, hx, hy, hz, Option.bind_some]
  cases addend.eval S env with
  | none => rfl
  | some w =>
    have hlaw := hS y z w
    rw [hm, Option.bind_some] at hlaw
    exact hlaw

end Trail.Describes

end DataflowIR
