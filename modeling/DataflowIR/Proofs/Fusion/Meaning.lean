import DataflowIR.Proofs.Fusion.Environment
import Mathlib.Data.List.Nodup

namespace DataflowIR

universe u

variable {V : Type u} {S : Semantics V}

section Simulation

variable {B : Id → Prop} {known : String → Bool}

theorem Expr.Becomes.describes {t t' : Trail} {e e' : Expr} {sc sc' : Scope} {env : Env V}
    (h : Expr.Becomes .fusedMultiplyAdd .standard t e e' t')
    (hsc : e.check known false sc = .ok sc') (hf : Fresh B e.definitions env)
    (hd : t.Describes S B sc env) : t'.Describes S B sc' env := by
  apply hd.after h.grows hf
  intro id hb hm
  obtain hm | hm := hm
  · exact .inl (Expr.check_vars hsc ▸ hm)
  · exact .inr (h.leaks hb hsc hf.labels hm)

theorem Expr.BecomeAll.describes {t t' : Trail} {es es' : List Expr} {sc sc' : Scope}
    {env : Env V} (h : Expr.BecomeAll .fusedMultiplyAdd .standard t es es' t')
    (hsc : Expr.checkAll known sc es = .ok sc') (hf : Fresh B (Expr.definitionsAll es) env)
    (hd : t.Describes S B sc env) : t'.Describes S B sc' env := by
  apply hd.after h.grows hf
  intro id hb hm
  obtain hm | hm := hm
  · exact .inl (Expr.checkAll_vars hsc ▸ hm)
  · exact .inr (h.leaks hb hsc hf.labels hm)

theorem Binding.evalAll_singleton (b : Binding) (env : Env V) :
    Binding.evalAll S [b] env = b.eval S env := by
  cases h : b.eval S env <;> simp [Binding.evalAll, h]

private theorem Binding.evalAll_append (bs bs' : List Binding) (env : Env V) :
    Binding.evalAll S (bs ++ bs') env =
      (Binding.evalAll S bs env).bind fun env => Binding.evalAll S bs' env := by
  induction bs generalizing env with
  | nil => rfl
  | cons b bs ih =>
    simp only [List.cons_append, Binding.evalAll, ih, Option.bind_assoc]

theorem Binding.eval_frame {b : Binding} {env env' : Env V} (h : b.eval S env = some env') (id : Id)
    (hid : id ∉ b.definitions.map Prod.snd) : env' id = env id := by
  cases b with
  | bind _ v value =>
    obtain ⟨x, -, rfl⟩ := Option.map_eq_some_iff.mp h
    simp only [Binding.definitions, List.map_append, List.map_cons, List.map_nil, List.mem_append,
      List.mem_singleton, not_or] at hid
    exact Function.update_of_ne hid.2 _ _
  | cast _ v value _ =>
    obtain ⟨x, -, rfl⟩ := Option.map_eq_some_iff.mp h
    simp only [Binding.definitions, List.map_append, List.map_cons, List.map_nil, List.mem_append,
      List.mem_singleton, not_or] at hid
    exact Function.update_of_ne hid.2 _ _

theorem Binding.evalAll_frame {bs : List Binding} {env env' : Env V}
    (h : Binding.evalAll S bs env = some env') (id : Id)
    (hid : id ∉ (Binding.definitionsAll bs).map Prod.snd) : env' id = env id := by
  induction bs generalizing env with
  | nil =>
    cases h
    rfl
  | cons b bs ih =>
    obtain ⟨env1, h1, h2⟩ := Option.bind_eq_some_iff.mp h
    rw [Binding.definitionsAll, List.map_append, List.mem_append, not_or] at hid
    rw [ih h2 hid.2, Binding.eval_frame h1 id hid.1]

theorem Block.eval_frame {b : Block} {env env' : Env V} (h : b.eval S env = some env') (id : Id)
    (hid : id ∉ b.definitions.map Prod.snd) : env' id = env id := by
  cases b with
  | mk mark kind bindings => exact Binding.evalAll_frame h id hid

theorem Block.evalAll_frame {bs : List Block} {env env' : Env V}
    (h : Block.evalAll S bs env = some env') (id : Id)
    (hid : id ∉ (Block.definitionsAll bs).map Prod.snd) : env' id = env id := by
  induction bs generalizing env with
  | nil =>
    cases h
    rfl
  | cons b bs ih =>
    obtain ⟨env1, h1, h2⟩ := Option.bind_eq_some_iff.mp h
    rw [Block.definitionsAll, List.map_append, List.mem_append, not_or] at hid
    rw [ih h2 hid.2, Block.eval_frame h1 id hid.1]

/-- Blocks without bindings do nothing. -/
private theorem Block.evalAll_filter (bs : List Block) (env : Env V) :
    Block.evalAll S (bs.filter fun b => !b.bindings.isEmpty) env = Block.evalAll S bs env := by
  induction bs generalizing env with
  | nil => rfl
  | cons b bs ih =>
    obtain ⟨mark, kind, bindings⟩ := b
    cases bindings with
    | nil =>
      rw [List.filter_cons_of_neg (by simp [Block.bindings]), ih]
      rfl
    | cons x xs =>
      rw [List.filter_cons_of_pos (by simp [Block.bindings])]
      simp only [Block.evalAll, ih]

/-- Where a sum was fused, its left operand is a variable that has a value. -/
private theorem summand_has_value {t t1 t2 : Trail} {args args' : List Expr} {sc sc' : Scope}
    {env : Env V}
    {v : Var} {addend : Expr} (ha : Expr.BecomeAll .fusedMultiplyAdd .standard t args args' t1)
    (hsc : Expr.checkAll known sc args = .ok sc') (hd : t.Describes S B sc env)
    (hd1 : t1.Describes S B sc' env) (hbd : t2.bound = t1.bound)
    (hv : args = [.var v, addend] ∨ args' = [.var v, addend]) (hb : t2.bound v.id ≠ none) :
    env v.id ≠ none := by
  obtain ⟨w, rest, rfl, hw⟩ : ∃ w rest, args = .var w :: rest ∧ v.id = w.id := by
    obtain rfl | rfl := hv
    · exact ⟨v, _, rfl, rfl⟩
    · cases ha with
      | cons he hs =>
        obtain ⟨w, rfl, hw⟩ := becomes_var hd.remap he
        exact ⟨w, _, rfl, hw⟩
  obtain ⟨sc1, h1, -⟩ := checkAll_cons.mp hsc
  obtain ⟨rfl, hsees⟩ := Scope.useVar_ok.mp h1
  rw [hw]
  refine hd.visible w.id (hw ▸ hd1.recorded v.id ?_) hsees.mem
  rwa [hbd] at hb

private theorem Settles.eval_call {t t' : Trail} {same : Bool} {node : Node} {span : Option Span}
    {callee callee' e' : Expr} {args args' : List Expr} {attrs : Option Attrs}
    {sinfoArgs : List StructInfo} {env : Env V}
    (hs : Settles t same (.call node callee args attrs sinfoArgs)
      (.mkCall · callee' args' attrs sinfoArgs) span e' t')
    (hc : callee'.eval S env = callee.eval S env)
    (ha : Expr.evalAll S args' env = Expr.evalAll S args env) :
    e'.eval S env = (Expr.call node callee args attrs sinfoArgs).eval S env := by
  cases hs with
  | same => rfl
  | changed => simp only [Expr.mkCall, Expr.eval, hc, ha]

/-- The operands of the sum are the arguments as they were or as they became. -/
private theorem Settles.args_eq {t t' : Trail} {same : Bool} {node : Node} {span : Option Span}
    {callee callee' e' : Expr} {args args' : List Expr} {attrs : Option Attrs}
    {sinfoArgs : List StructInfo} {c : Call}
    (hs : Settles t same (.call node callee args attrs sinfoArgs)
      (.mkCall · callee' args' attrs sinfoArgs) span e' t') (hc : e'.asCall? = some c) :
    args = c.args ∨ args' = c.args := by
  cases hs with
  | same =>
    cases hc
    exact .inl rfl
  | changed =>
    cases hc
    exact .inr rfl

mutual

theorem Expr.Rebuilds.eval_eq (hS : S.Fuses) {t t' : Trail} {e e' : Expr} {asBody : Bool}
    {sc sc' : Scope} {env : Env V} (h : Expr.Rebuilds .fusedMultiplyAdd .standard t e e' t') :
    e.check known asBody sc = .ok sc' → Fresh B e.definitions env → t.Describes S B sc env →
      e'.eval S env = e.eval S env := by
  match h with
  | .leaf =>
    intro _ _ _
    rfl
  | @Expr.Rebuilds.var _ _ _ v =>
    intro _ _ hd
    cases hv : t.remap v.id with
    | none => rfl
    | some w => exact congrArg env (hd.remap _ _ hv)
  | .shape =>
    intro _ _ _
    rfl
  | .prim =>
    intro _ _ _
    rfl
  | .tuple hf hs =>
    intro hsc hfr hd
    have ih := hf.eval_eq hS (check_tuple.mp hsc).2 hfr hd
    cases hs with
    | same => rfl
    | changed => simp only [Expr.mkTuple, Expr.eval, ih]
  | .item hw hs =>
    intro hsc hfr hd
    have ih := hw.eval_eq hS (check_item.mp hsc) hfr hd
    cases hs with
    | same => rfl
    | changed => simp only [Expr.mkItem, Expr.eval, ih]
  | @Expr.Rebuilds.call _ _ _ _ _ _ _ _ _ _ args args' _ _ _ _ hc ha hs hf =>
    intro hsc hfr hd
    obtain ⟨-, sc1, h1, -, h2⟩ := check_call.mp hsc
    obtain ⟨hf1, hf2, -⟩ := hfr.append
    have ihc := hc.eval_eq hS h1 hf1 hd
    have hd1 := hc.describes h1 hf1 hd
    have iha := ha.eval_eq hS h2 hf2 hd1
    have hd2 := ha.describes h2 hf2 hd1
    have hcall := hs.eval_call ihc iha
    obtain ⟨hrm, hbd⟩ := hs.trail_eq
    cases hf with
    | kept => exact hcall
    | fused a b addend _ hfus =>
      refine Eq.trans ?_ hcall
      apply (hd2.of_eq hrm hbd).fused hS hfus
      intro c v hc hadd hb
      have hv : args = [.var v, addend] ∨ args' = [.var v, addend] := by
        rw [← (Call.binaryOperands?_eq hadd).1]
        exact hs.args_eq hc
      exact summand_has_value ha h2 hd1 hd2 hbd hv hb
  | .ite hc ht hf hs =>
    intro hsc hfr hd
    obtain ⟨-, sc1, after, sc2, h1, h2, h3, -⟩ := check_ite.mp hsc
    obtain ⟨hf1, hf2, -⟩ := hfr.append
    obtain ⟨hft, hff, -⟩ := hf2.append
    have ihc := hc.eval_eq hS h1 hf1 hd
    have hd1 := hc.describes h1 hf1 hd
    have iht := ht.eval_eq hS h2 hft hd1
    have hvars : ∀ id, B id → id ∈ sc1.vars ∨ id ∈ after.dataflowVars →
        id ∈ sc1.vars ∨ id ∈ sc1.dataflowVars := by
      intro id hb hm
      exact hm.imp_right (ht.leaks hb h2 hft.labels)
    have ihf := hf.eval_eq hS h3 hff (hd1.after ht.grows.leave hft hvars)
    cases hs with
    | same => rfl
    | changed => simp only [Expr.mkIte, Expr.eval, ihc, iht, ihf]
  | @Expr.Rebuilds.seq _ _ _ _ _ _ _ blocks _ body body' _ hb hy hs =>
    intro hsc hfr hd
    obtain ⟨-, sc1, h1, h2⟩ := check_seq.mp hsc
    obtain ⟨hf1, -, -⟩ := hfr.append
    obtain ⟨ihb, hpost⟩ := hb.eval_eq hS h1 hf1 hd
    have ihy : ∀ env1, Block.evalAll S blocks env = some env1 →
        body'.eval S env1 = body.eval S env1 := by
      intro env1 he
      exact hy.eval_eq hS h2 (hfr.of_frame (Block.evalAll_frame he)) (hpost env1 he)
    cases hs with
    | same => rfl
    | changed =>
      simp only [Expr.mkSeq, Expr.eval, Block.evalAll_filter, ihb]
      cases he : Block.evalAll S blocks env with
      | none => rfl
      | some env1 => exact ihy env1 he
  | @Expr.Rebuilds.function _ _ _ _ _ _ _ params _ body body' _ _ _ hp hb hs =>
    intro hsc hfr hd
    obtain ⟨sc1, sc2, h1, h2, -, -⟩ := check_function.mp hsc
    obtain ⟨hf1, -, -⟩ := hfr.append
    have ihb : ∀ args env1, env.bindAll params args = some env1 →
        body'.eval S env1 = body.eval S env1 := by
      intro args env1 he
      refine hb.eval_eq hS h2 (hfr.of_frame ?_) ?_
      · intro id hid
        exact Env.bindAll_eq he id (by simpa using hid)
      · rw [Trail.defineAll_eq Pass.fusedMultiplyAdd_ne] at hp
        cases hp
        exact hd.bindAll hf1 h1 he
    rw [Trail.defineAll_eq Pass.fusedMultiplyAdd_ne] at hp
    cases hp
    cases hs with
    | same => rfl
    | changed =>
      refine congrArg some (congrArg S.closure (funext ?_))
      intro args
      cases he : env.bindAll params args with
      | none => rfl
      | some env1 => exact ihb args env1 he

theorem Expr.Becomes.eval_eq (hS : S.Fuses) {t t' : Trail} {e e' : Expr} {asBody : Bool}
    {sc sc' : Scope} {env : Env V} (h : Expr.Becomes .fusedMultiplyAdd .standard t e e' t') :
    e.check known asBody sc = .ok sc' → Fresh B e.definitions env → t.Describes S B sc env →
      e'.eval S env = e.eval S env := by
  match h with
  | .mk hr hf =>
    intro hsc hfr hd
    rw [hf.eval]
    exact hr.eval_eq hS hsc hfr hd

theorem Expr.BecomeAll.eval_eq (hS : S.Fuses) {t t' : Trail} {es es' : List Expr}
    {sc sc' : Scope} {env : Env V} (h : Expr.BecomeAll .fusedMultiplyAdd .standard t es es' t') :
    Expr.checkAll known sc es = .ok sc' → Fresh B (Expr.definitionsAll es) env →
      t.Describes S B sc env → Expr.evalAll S es' env = Expr.evalAll S es env := by
  match h with
  | .nil =>
    intro _ _ _
    rfl
  | .cons he hs =>
    intro hsc hfr hd
    obtain ⟨sc1, h1, h2⟩ := checkAll_cons.mp hsc
    obtain ⟨hf1, hf2, -⟩ := hfr.append
    rw [Expr.evalAll, Expr.evalAll, he.eval_eq hS h1 hf1 hd,
      hs.eval_eq hS h2 hf2 (he.describes h1 hf1 hd)]

theorem Binding.Becomes.eval_eq (hS : S.Fuses) {kind : BlockKind} {t t' : Trail} {b : Binding}
    {out : List Binding} {sc sc' : Scope} {env : Env V}
    (h : Binding.Becomes .fusedMultiplyAdd .standard kind t b out t') :
    b.check known sc = .ok sc' → Fresh B b.definitions env → t.Describes S B sc env →
      Binding.evalAll S out env = b.eval S env ∧ ∀ env', b.eval S env = some env' →
      t'.Describes S B sc' env' := by
  match h with
  | @Binding.Becomes.kept _ _ _ _ _ _ _ v _ value _ _ hy hd _ _ =>
    intro hsc hfr hdesc
    obtain ⟨sc1, h1, h2⟩ := check_bind.mp hsc
    obtain ⟨hf1, hf2, -⟩ := hfr.append
    have hd1 := hy.describes h1 hf1 hdesc
    rw [Trail.define_eq Pass.fusedMultiplyAdd_ne] at hd
    cases hd
    refine ⟨Binding.evalAll_singleton _ _, ?_⟩
    intro env' he
    obtain ⟨x, hx, rfl⟩ := Option.map_eq_some_iff.mp he
    obtain ⟨hunset, hbound⟩ := hf2.bound
    have hn : ∀ c a b, value.asCall? = some c →
        c.binaryOperands? "relax.multiply" = some (a, b) → a.isNormal ∧ b.isNormal := by
      intro c a b hc hm
      exact check_operands_normal h1 hc hm
    exact hd1.record hunset hbound (Scope.defineVar_adds h2) rfl hd1.remap rfl hx hn
  | @Binding.Becomes.changed _ _ _ _ _ _ _ _ v _ v' value value' _ hy hd _ hr _ =>
    intro hsc hfr hdesc
    obtain ⟨sc1, h1, h2⟩ := check_bind.mp hsc
    obtain ⟨hf1, hf2, -⟩ := hfr.append
    have ih := hy.eval_eq hS h1 hf1 hdesc
    have hd1 := hy.describes h1 hf1 hdesc
    rw [Trail.define_eq Pass.fusedMultiplyAdd_ne] at hd
    cases hd
    obtain ⟨hid, -, -, hrm, hbd⟩ := Trail.retype_eq hr
    have hbind := env.bind_congr hid
    constructor
    · rw [Binding.evalAll_singleton, Binding.eval, Binding.eval, ih, hbind]
    · intro env' he
      obtain ⟨x, hx, rfl⟩ := Option.map_eq_some_iff.mp he
      obtain ⟨hunset, hbound⟩ := hf2.bound
      have hg := ((Trail.Grows.refl [] _).of_eq hrm hbd).replaceIfChanged hid
      have hb := (Trail.replaceIfChanged_bound _ v v').trans hbd
      rw [← hbind]
      exact hd1.record hunset hbound (Scope.defineVar_adds h2) hid (hg.tick.remap hd1.remap) hb
        (ih.trans hx) fun c a b => becomes_args_normal hy h1
  | .lowered hl .. =>
    intro _ _ _
    simp [Pass.lowered?] at hl
  | @Binding.Becomes.keptCast _ _ _ _ _ _ _ v _ _ _ _ hy hd _ _ =>
    intro hsc hfr hdesc
    obtain ⟨sc1, h1, h2⟩ := check_cast.mp hsc
    obtain ⟨hf1, hf2, -⟩ := hfr.append
    have hd1 := hy.describes h1 hf1 hdesc
    rw [Trail.define_eq Pass.fusedMultiplyAdd_ne] at hd
    cases hd
    refine ⟨Binding.evalAll_singleton _ _, ?_⟩
    intro env' he
    obtain ⟨x, -, rfl⟩ := Option.map_eq_some_iff.mp he
    obtain ⟨hunset, hbound⟩ := hf2.cast
    exact hd1.cast hunset hbound (Scope.defineVar_adds h2).of_defineSyms rfl hd1.remap rfl
  | @Binding.Becomes.changedCast _ _ _ _ _ _ _ _ v _ v' _ _ _ hy hd _ hr _ =>
    intro hsc hfr hdesc
    obtain ⟨sc1, h1, h2⟩ := check_cast.mp hsc
    obtain ⟨hf1, hf2, -⟩ := hfr.append
    have ih := hy.eval_eq hS h1 hf1 hdesc
    have hd1 := hy.describes h1 hf1 hdesc
    rw [Trail.define_eq Pass.fusedMultiplyAdd_ne] at hd
    cases hd
    obtain ⟨hid, -, -, hrm, hbd⟩ := Trail.retype_eq hr
    have hbind := env.bind_congr hid
    constructor
    · rw [Binding.evalAll_singleton, Binding.eval, Binding.eval, ih, hbind]
    · intro env' he
      obtain ⟨x, -, rfl⟩ := Option.map_eq_some_iff.mp he
      obtain ⟨hunset, hbound⟩ := hf2.cast
      have hg := ((Trail.Grows.refl [] _).of_eq hrm hbd).replaceIfChanged hid
      have hb := (Trail.replaceIfChanged_bound _ v v').trans hbd
      rw [← hbind]
      exact hd1.cast hunset hbound (Scope.defineVar_adds h2).of_defineSyms hid
        (hg.tick.remap hd1.remap) hb

theorem Binding.BecomeAll.eval_eq (hS : S.Fuses) {kind : BlockKind} {t t' : Trail}
    {bs out : List Binding} {sc sc' : Scope} {env : Env V}
    (h : Binding.BecomeAll .fusedMultiplyAdd .standard kind t bs out t') :
    Binding.checkAll known sc bs = .ok sc' → Fresh B (Binding.definitionsAll bs) env →
      t.Describes S B sc env → Binding.evalAll S out env = Binding.evalAll S bs env ∧ ∀ env',
      Binding.evalAll S bs env = some env' → t'.Describes S B sc' env' := by
  match h with
  | .nil =>
    intro hsc _ hd
    cases hsc
    exact ⟨rfl, fun env' he => by cases he; exact hd⟩
  | .cons hb hs =>
    intro hsc hfr hd
    obtain ⟨sc1, h1, h2⟩ := binding_checkAll_cons.mp hsc
    obtain ⟨ihb, hpost⟩ := hb.eval_eq hS h1 hfr.append.1 hd
    have ihs := fun env1 he =>
      hs.eval_eq hS h2 (hfr.of_frame (Binding.eval_frame he)) (hpost env1 he)
    constructor
    · rw [Binding.evalAll_append, ihb, Binding.evalAll]
      exact Option.bind_congr fun env1 he => (ihs env1 he).1
    · intro env' he
      obtain ⟨env1, h1, h2⟩ := Option.bind_eq_some_iff.mp he
      exact (ihs env1 h1).2 env' h2

theorem Block.Becomes.eval_eq (hS : S.Fuses) {t t' : Trail} {b b' : Block} {sc sc' : Scope}
    {env : Env V} (h : Block.Becomes .fusedMultiplyAdd .standard t b b' t') :
    b.check known sc = .ok sc' → Fresh B b.definitions env → t.Describes S B sc env →
      b'.eval S env = b.eval S env ∧ ∀ env', b.eval S env = some env' →
      t'.Describes S B sc' env' := by
  match h with
  | @Block.Becomes.kept _ _ _ _ (.mk _ .plain _) _ hb _ =>
    intro hsc hfr hd
    obtain ⟨-, hpost⟩ := hb.eval_eq hS hsc hfr hd
    exact ⟨rfl, fun env' he => (hpost env' he).of_eq rfl rfl⟩
  | @Block.Becomes.changed _ _ _ _ (.mk _ .plain _) _ hb _ =>
    intro hsc hfr hd
    obtain ⟨ih, hpost⟩ := hb.eval_eq hS hsc hfr hd
    exact ⟨ih, fun env' he => (hpost env' he).of_eq rfl rfl⟩
  | @Block.Becomes.kept _ _ _ _ (.mk _ .dataflow _) _ hb _ =>
    intro hsc hfr hd
    obtain ⟨sc1, h1, rfl⟩ := check_dataflow.mp hsc
    obtain ⟨-, hpost⟩ := hb.eval_eq hS h1 hfr hd.beginDataflow
    exact ⟨rfl, fun env' he => (hpost env' he).endDataflow⟩
  | @Block.Becomes.changed _ _ _ _ (.mk _ .dataflow _) _ hb _ =>
    intro hsc hfr hd
    obtain ⟨sc1, h1, rfl⟩ := check_dataflow.mp hsc
    obtain ⟨ih, hpost⟩ := hb.eval_eq hS h1 hfr hd.beginDataflow
    exact ⟨ih, fun env' he => (hpost env' he).endDataflow⟩

theorem Block.BecomeAll.eval_eq (hS : S.Fuses) {t t' : Trail} {bs bs' : List Block}
    {sc sc' : Scope} {env : Env V} (h : Block.BecomeAll .fusedMultiplyAdd .standard t bs bs' t') :
    Block.checkAll known sc bs = .ok sc' → Fresh B (Block.definitionsAll bs) env →
      t.Describes S B sc env → Block.evalAll S bs' env = Block.evalAll S bs env ∧ ∀ env',
      Block.evalAll S bs env = some env' → t'.Describes S B sc' env' := by
  match h with
  | .nil =>
    intro hsc _ hd
    cases hsc
    exact ⟨rfl, fun env' he => by cases he; exact hd⟩
  | .cons hb hs =>
    intro hsc hfr hd
    obtain ⟨sc1, h1, h2⟩ := block_checkAll_cons.mp hsc
    obtain ⟨ihb, hpost⟩ := hb.eval_eq hS h1 hfr.append.1 hd
    have ihs := fun env1 he =>
      hs.eval_eq hS h2 (hfr.of_frame (Block.eval_frame he)) (hpost env1 he)
    constructor
    · rw [Block.evalAll, Block.evalAll, ihb]
      exact Option.bind_congr fun env1 he => (ihs env1 he).1
    · intro env' he
      obtain ⟨env1, h1, h2⟩ := Option.bind_eq_some_iff.mp he
      exact (ihs env1 h1).2 env' h2

end

end Simulation

private theorem labels_of_nodup {ds : List (Role × Id)} (h : (ds.map Prod.snd).Nodup) :
    Labels (fun id => (Role.bound, id) ∈ ds) ds := by
  intro d hd
  obtain ⟨role, id⟩ := d
  refine ⟨fun hr => hr ▸ hd, ?_⟩
  intro hb
  exact congrArg Prod.fst (List.inj_on_of_nodup_map h hd hb rfl)

private theorem Function.Becomes.call_eq (hS : S.Fuses) {next : Nat} {f f' : Function}
    {known : String → Bool} {sc : Scope} (h : Function.Becomes .fusedMultiplyAdd next f f')
    (hsc : f.toExpr.check known false .empty = .ok sc)
    (hu : (f.toExpr.definitions.map Prod.snd).Nodup) (args : List V) :
    f'.call S args = f.call S args := by
  cases h with
  | same => rfl
  | changed _ hb _ =>
    obtain ⟨hparams, hbody⟩ := function_becomes Pass.fusedMultiplyAdd_ne hb
    obtain hbody | ⟨t1, hbody⟩ := hbody
    · rw [Function.call, Function.call, hparams, hbody]
    obtain ⟨sc1, sc2, h1, h2, -, -⟩ := check_function.mp hsc
    have hfr : Fresh (fun id => (Role.bound, id) ∈ f.toExpr.definitions) f.toExpr.definitions
        (Env.empty : Env V) := ⟨labels_of_nodup hu, hu, fun _ _ => rfl⟩
    have hd : ∀ n, Trail.Describes S (fun id => (Role.bound, id) ∈ f.toExpr.definitions) (.empty n)
        .empty Env.empty := fun n =>
      ⟨nofun, fun id hid => absurd rfl hid, fun id _ hid => by simp [Scope.empty] at hid, nofun⟩
    rw [Function.call, Function.call, hparams]
    apply Option.bind_congr
    intro env he
    refine hbody.eval_eq hS h2 (hfr.of_frame ?_) ((hd _).bindAll hfr.append.1 h1 he)
    intro id hid
    exact Env.bindAll_eq he id (by simpa using hid)

/-- Every function of a well-formed module, in which nothing is bound twice, has at all arguments
the value it had. -/
theorem fusion_preserves_meaning (hS : S.Fuses) {m m' : Module} {w w' : World}
    (hwf : m.wellFormed = .ok ()) (hu : m.binders.Nodup)
    (h : (Pass.fusedMultiplyAdd.apply m).exec w = (.ok (some m'), w')) (name : String)
    (args : List V) : m'.call S name args = m.call S name args := by
  obtain ⟨hn, hn'⟩ | ⟨g, f, f', hm, hf, hf', hb⟩ := (Pass.apply_becomes h).get? name
  · rw [Module.call, Module.call, hn, hn']
  obtain ⟨sc, hsc⟩ := Module.wellFormed_ok.mp hwf _ hm
  have hfu : (f.toExpr.definitions.map Prod.snd).Nodup := by
    rw [Module.binders, List.map_flatMap] at hu
    exact (List.nodup_flatMap.mp hu).1 _ hm
  rw [Module.call, Module.call, hf, hf', Option.bind_some, Option.bind_some]
  exact hb.call_eq hS hsc hfu args

namespace Fused

/-- Integers with their sums and products, and names for what is called. -/
inductive Value where
  | int (n : Int)
  | leaf (content : Leaf)
  | other

def apply : Value → List Value → Option Value
  | .leaf (.op "relax.add"), [.int a, .int b] => some (.int (a + b))
  | .leaf (.op "relax.multiply"), [.int a, .int b] => some (.int (a * b))
  | .leaf (.op "relax.ewise_fma"), [.int a, .int b, .int c] => some (.int (a * b + c))
  | _, _ => none

def integers : Semantics Value where
  leaf := .leaf
  shape _ := .other
  prim _ _ := .other
  tuple _ := .other
  item _ _ := none
  branch _ := none
  apply := apply
  closure _ := .other

private theorem integers_fuses : integers.Fuses := by
  intro a b c
  cases a <;> cases b <;> cases c <;> rfl

def named (index : Nat) (name : String) : Var :=
  ⟨⟨⟨index, none⟩, none⟩, ⟨index, name⟩, false⟩

def x : Var := named 0 "x"

def product : Var := named 1 "product"

def total : Var := named 2 "total"

def bindings : List Binding :=
  [.bind ⟨5, none⟩ product (.mkCall ⟨4, none⟩ (.mkOp 3 "relax.multiply") [.var x, .var x] none []),
    .bind ⟨8, none⟩ total (.mkCall ⟨7, none⟩ (.mkOp 6 "relax.add") [.var product, .var x] none [])]

def main : Function :=
  ⟨⟨⟨11, none⟩, none⟩, [x], .mkSeq ⟨10, none⟩ [.mk ⟨9, none⟩ .plain bindings] (.var total), .object,
    .empty⟩

def module : Module :=
  (Module.empty.add 12 "main" main).2

def world : World := ⟨13, []⟩

end Fused

open Fused in
theorem fusion_preserves_meaning_square : ∃ m' w', module.wellFormed = .ok () ∧
    module.binders.Nodup ∧ (Pass.fusedMultiplyAdd.apply module).exec world = (.ok (some m'), w') ∧
    m'.call integers "main" [.int 3] = some (.int 12) := by
  have hs : (Pass.fusedMultiplyAdd.changedModule? module world).isSome := by decide +kernel
  obtain ⟨m', hm⟩ := Option.isSome_iff_exists.mp hs
  have h := Pass.apply_of_changedModule? hm
  have hwf : module.wellFormed = .ok () := by rfl
  have hu : module.binders.Nodup := by decide
  exact ⟨m', _, hwf, hu, h,
    (fusion_preserves_meaning integers_fuses hwf hu h "main" [.int 3]).trans (by rfl)⟩

end DataflowIR
