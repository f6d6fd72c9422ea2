import DataflowIR.Proofs.Lowering.Calls
import DataflowIR.Proofs.Normalize.Acceptance
import DataflowIR.Proofs.Normalize.Admission
import DataflowIR.Proofs.Normalize.Retention

namespace DataflowIR

/-- Where the pass fuses, the arguments of these calls are normal. -/
def Pass.Suits (p : Pass) (cs : List Call) : Prop :=
  p = .fusedMultiplyAdd → ∀ c ∈ cs, Expr.areNormal c.args

namespace Pass.Suits

variable {p : Pass} {c : Call} {cs cs' : List Call}

theorem append (h : p.Suits (cs ++ cs')) : p.Suits cs ∧ p.Suits cs' := by
  constructor
  · intro hp
    exact (List.forall_mem_append.mp (h hp)).1
  · intro hp
    exact (List.forall_mem_append.mp (h hp)).2

theorem cons (h : p.Suits (c :: cs)) :
    (p = .fusedMultiplyAdd → Expr.areNormal c.args) ∧ p.Suits cs := by
  constructor
  · intro hp
    exact (List.forall_mem_cons.mp (h hp)).1
  · intro hp
    exact (List.forall_mem_cons.mp (h hp)).2

end Pass.Suits

/-- A product has normal factors. -/
def Expr.NormalFactors (e : Expr) : Prop :=
  ∀ c a b, e.asCall? = some c → c.binaryOperands? "relax.multiply" = some (a, b) →
    a.isNormal ∧ b.isNormal

/-- What is made from here on has tags from `base` on, and the factors that the pass may take from
the values bound need no more work. -/
structure Trail.Ready (p : Pass) (base : Nat) (t : Trail) : Prop where
  after : t.After base
  held : p = .fusedMultiplyAdd → ∀ id e, t.bound id = some e → e.isAnnotated ∧ e.NormalFactors

namespace Trail.Ready

variable {p : Pass} {base : Nat} {t t' : Trail}

theorem empty (p : Pass) {next : Nat} (h : base ≤ next) : (Trail.empty next).Ready p base := by
  exact ⟨.empty h, fun _ => nofun⟩

theorem of_trail (h : t.Ready p base) (ht : t'.remap = t.remap ∧ t'.bound = t.bound)
    (hn : t.next ≤ t'.next) : t'.Ready p base := by
  exact ⟨h.after.of_remap ht.1 hn, ht.2 ▸ h.held⟩

theorem tick (h : t.Ready p base) : t.tick.Ready p base := by
  exact h.of_trail ⟨rfl, rfl⟩ (Nat.le_succ _)

theorem leave (h : t.Ready p base) (h' : t'.Ready p base) : (t'.leave t).Ready p base := by
  exact ⟨h.after.leave h'.after, h'.held⟩

theorem defineAll (h : t.Ready p base) (hp : p ≠ .explicitMemory) {vs vs' : List Var}
    (hd : t.defineAll p vs = (vs', t')) : t'.Ready p base := by
  rw [Trail.defineAll_eq hp] at hd
  cases hd
  exact h

theorem retype (h : t.Ready p base) {v v' : Var} {sinfo : Option StructInfo}
    (hr : t.retype v sinfo = (v', t')) : (t'.replaceIfChanged v v').Ready p base := by
  refine ⟨h.after.retype hr, ?_⟩
  rw [Trail.replaceIfChanged_bound, (Trail.retype_eq hr).2.2.2.2]
  exact h.held

theorem record (h : t.Ready p base) (mark : Mark) (v : Var) {value : Expr}
    (ha : value.isAnnotated) (hv : p = .fusedMultiplyAdd → value.NormalFactors) :
    (t.record (.bind mark v value)).Ready p base := by
  refine ⟨h.after.record _, ?_⟩
  intro hp id e he
  simp only [Trail.record, Function.update_apply] at he
  split at he
  · cases he
    exact ⟨ha, hv hp⟩
  · exact h.held hp id e he

/-- The factors of the product that an addition uses. -/
theorem factors (h : t.Ready .fusedMultiplyAdd base) {e a b addend : Expr}
    (hf : t.fusion? e = some (a, b, addend)) :
    (a.isNormal ∧ b.isNormal) ∧ a.isAnnotated ∧ b.isAnnotated := by
  obtain ⟨-, v, value, c, -, -, hb, hc, hm⟩ := Trail.fusion?_eq hf
  obtain ⟨ha, hn⟩ := h.held rfl _ _ hb
  refine ⟨hn c a b hc hm, ?_⟩
  obtain ⟨node, callee, args, attrs, sinfoArgs⟩ := c
  obtain rfl := Expr.eq_toExpr_of_asCall? hc
  obtain ⟨hargs, -⟩ := Call.binaryOperands?_eq hm
  obtain rfl : args = [a, b] := hargs
  simpa [Call.toExpr, Expr.isAnnotated, Expr.areAnnotated] using (Bool.and_eq_true_iff.mp ha).2

end Trail.Ready

private theorem Expr.Becomes.normalFactors {p : Pass} {rules : Rules} {t t' : Trail} {e e' : Expr}
    (h : Expr.Becomes p rules t e e' t') (hc : p.Suits e.calls) :
    p = .fusedMultiplyAdd → e'.NormalFactors := by
  intro hp c' a b hc' hm
  refine becomes_factors_normal h ?_ hc' hm
  intro c he
  obtain rfl := Expr.eq_toExpr_of_asCall? he
  exact hc.cons.1 hp

/-- The node is made of the new parts, be it the old one or not. -/
theorem Settles.made {t t' : Trail} {same : Bool} {old e' : Expr} {new : Mark → Expr}
    {span : Option Span} {make : Node → Expr} (h : Settles t same old new span e' t')
    (hold : same = true → ∃ n, old = make n) (hnew : ∀ mark, ∃ n, new mark = make n) :
    ∃ n, e' = make n := by
  cases h with
  | same hs => exact hold hs
  | changed => exact hnew _

section Parts

variable {p : Pass} {t t' : Values}

/-- With struct info of its own, the expression is at rest. -/
def Expr.PartsRest (p : Pass) (t : Values) (e : Expr) (t' : Values) : Prop :=
  ∀ n : Node, n.sinfo.isSome → (e.withNode n).Rests p t t'

theorem Expr.PartsRest.rests {e : Expr} (h : e.PartsRest p t t')
    (hs : Builder.isComposite e → e.sinfo.isSome) : e.Rests p t t' := by
  cases e with
  | leaf | var | shape | prim =>
    cases h ⟨⟨0, none⟩, some .object⟩ rfl
    constructor
  | tuple n | item n | call n | ite n | seq n | function n => exact h n (hs rfl)

/-- What is missing is filled in. -/
theorem Fills.rests {u u' : Trail} {e e' : Expr} (hf : Fills .standard u e e' u')
    (h : e.PartsRest p t u.bound) : e'.Rests p t u'.bound := by
  rw [hf.trail_eq.2]
  obtain ⟨rfl, hs⟩ | ⟨s, rfl, -⟩ := fills_cases hf
  · exact h.rests hs
  · exact h _ rfl

theorem Fills.placements {rules : Rules} {t t' : Trail} {e e' : Expr} (h : Fills rules t e e' t')
    (params : List Var) : e'.placements params = e.placements params := by
  cases h with
  | kept => rfl
  | filled => simp [Expr.withSinfo]

theorem Block.RestAll.filter {bs : List Block} (h : Block.RestAll p t bs t') :
    Block.RestAll p t (bs.filter fun b => !b.bindings.isEmpty) t' := by
  induction bs generalizing t with
  | nil => exact h
  | cons b bs ih =>
    obtain ⟨mark, kind, bindings⟩ := b
    cases h with
    | cons hb hbs =>
      cases bindings with
      | nil =>
        cases hb with
        | mk hb =>
          cases hb
          exact ih hbs
      | cons => exact .cons hb (ih hbs)

private theorem Pass.leavesCall_withNode {bound : Values} {e : Expr} (h : p.LeavesCall bound e)
    (n : Node) : p.LeavesCall bound (e.withNode n) := by
  intro hp u hu
  have hfusion := h hp u hu
  cases e <;> exact hfusion

private theorem Finishes.leavesCall {u : Trail} {e : Expr}
    (h : p = .fusedMultiplyAdd → u.fusion? e = none) : p.LeavesCall u.bound e := by
  intro hp u' hu
  have hfusion := h hp
  simp only [Trail.fusion?, Trail.factors?] at hfusion ⊢
  rw [hu]
  exact hfusion

end Parts

section Settling

variable {p : Pass} {base : Nat}

/-- A fused call is no addition. -/
private theorem Expr.rests_fused {t : Values} {n : Node} (hn : n.sinfo.isSome) (tag : Nat)
    {a b addend : Expr} (hnormal : Expr.areNormal [a, b, addend])
    (hannotated : Expr.areAnnotated [a, b, addend]) :
    Expr.Rests p t (.call n (.mkOp tag "relax.ewise_fma") [a, b, addend] none []) t := by
  exact .call hn .leaf (Expr.restAll_of_areNormal hnormal hannotated) fun _ _ _ => rfl

/-- A call that is left alone is left alone again, and a fused one is at rest: its factors come from
a binding further up, its addend from the call. -/
theorem Finishes.settle {t t1 t2 t' : Trail} {n : Node} {callee e' : Expr} {args : List Expr}
    {attrs : Option Attrs} {sinfoArgs : List StructInfo}
    (hf : Finishes p t2 (.call n callee args attrs sinfoArgs) e' t')
    (hcallee : callee.Rests p t.bound t1.bound) (hargs : Expr.RestAll p t1.bound args t2.bound)
    (hnormal : p = .fusedMultiplyAdd → Expr.areNormal args) (ht : t2.Ready p base) :
    e'.PartsRest p t.bound t'.bound ∧
      (∀ params, Admitted (e'.placements params) ↔
        Admitted (Expr.placements params (.call n callee args attrs sinfoArgs))) ∧
      t'.Ready p base := by
  cases hf with
  | kept hk =>
    refine ⟨?_, fun _ => Iff.rfl, ht⟩
    intro n' hn
    exact .call hn hcallee hargs (Pass.leavesCall_withNode (Finishes.leavesCall hk) n')
  | fused a b addend hp hfusion =>
    subst hp
    obtain ⟨⟨hna, hnb⟩, haa, hab⟩ := ht.factors hfusion
    obtain ⟨c, v, -, -, hcall, hadd, -⟩ := Trail.fusion?_eq hfusion
    cases hcall
    obtain ⟨rfl, opNode, rfl⟩ := Call.binaryOperands?_eq hadd
    have hnargs := hnormal rfl
    have hnadd : addend.isNormal := by simpa [Expr.areNormal, Expr.isNormal] using hnargs
    have haadd : addend.isAnnotated := by
      simpa [Expr.areAnnotated, Expr.isAnnotated] using hargs.areAnnotated
    have hn : Expr.areNormal [a, b, addend] := by
      simp only [Expr.areNormal, hna, hnb, hnadd, Bool.and_self]
    -- The operands of an addition are normal, so nothing is bound between its parts.
    have hbound : t2.bound = t.bound :=
      (hargs.eq_of_areNormal hnargs).trans (hcallee.eq_of_isNormal rfl)
    refine ⟨?_, ?_, ht.tick.tick⟩
    · intro n' hn'
      rw [Trail.tick_bound, Trail.tick_bound, hbound]
      refine Expr.rests_fused hn' _ hn ?_
      simp only [Expr.areAnnotated, haa, hab, haadd, Bool.and_self]
    · intro params
      rw [Expr.placements, Expr.placements, Expr.placementsAll_of_areNormal params hn,
        Expr.placementsAll_of_areNormal params hnargs]
      rfl

mutual

theorem Expr.Rebuilds.settle (hp : p ≠ .explicitMemory) {t t' : Trail} {e e' : Expr} :
    Expr.Rebuilds p .standard t e e' t' → Below base e.tags → p.Suits e.calls →
      t.Ready p base → e'.PartsRest p t.bound t'.bound ∧
        (∀ params, Admitted (e'.placements params) ↔ Admitted (e.placements params)) ∧
        t'.Ready p base
  | .leaf, _, _, ht => ⟨fun _ _ => .leaf, fun _ => Iff.rfl, ht⟩
  | .var, _, _, ht => ⟨fun _ _ => .var, fun _ => Iff.rfl, ht⟩
  | .shape, _, _, ht => ⟨fun _ _ => .shape, fun _ => Iff.rfl, ht⟩
  | .prim, _, _, ht => ⟨fun _ _ => .prim, fun _ => Iff.rfl, ht⟩
  | @Expr.Rebuilds.tuple _ _ _ t1 _ node fields fields' _ hf hs, he, hc, ht => by
    obtain ⟨hsame, hfields, hplaces, ht1⟩ := hf.settle hp he.cons.2 hc ht
    obtain ⟨n1, rfl⟩ : ∃ n, e' = .tuple n fields' :=
      hs.made (fun h => ⟨node, by rw [hsame h]⟩) fun _ => ⟨_, rfl⟩
    refine ⟨?_, hplaces, ht1.of_trail hs.trail_eq hs.next_le⟩
    intro n hn
    rw [hs.trail_eq.2]
    exact .tuple hn hfields
  | @Expr.Rebuilds.item _ _ _ t1 _ node whole whole' index _ hw hs, he, hc, ht => by
    obtain ⟨hsame, hwhole, hplaces, ht1⟩ := hw.settle hp he.cons.2 hc ht
    obtain ⟨n1, rfl⟩ : ∃ n, e' = .item n whole' index :=
      hs.made (fun h => ⟨node, by rw [hsame h]⟩) fun _ => ⟨_, rfl⟩
    refine ⟨?_, hplaces, ht1.of_trail hs.trail_eq hs.next_le⟩
    intro n hn
    rw [hs.trail_eq.2]
    exact .item hn hwhole
  | @Expr.Rebuilds.call _ _ _ t1 t2 t3 _ node callee callee' args args' attrs sinfoArgs e1 _ hc ha
      hs hf, he, hcs, ht => by
    obtain ⟨hec, hea⟩ := he.cons.2.append
    obtain ⟨hnormal, hcs⟩ := hcs.cons
    obtain ⟨hsc, hcallee, hplacesc, ht1⟩ := hc.settle hp hec hcs.append.1 ht
    obtain ⟨hsa, hargs, hplacesa, ht2⟩ := ha.settle hp hea hcs.append.2 ht1
    obtain ⟨n1, rfl⟩ : ∃ n, e1 = .call n callee' args' attrs sinfoArgs := by
      refine hs.made ?_ fun _ => ⟨_, rfl⟩
      intro h
      obtain ⟨ha, hc⟩ := Bool.and_eq_true_iff.mp h
      exact ⟨node, by rw [hsa ha, hsc hc]⟩
    rw [← hs.trail_eq.2] at hargs
    obtain ⟨hparts, hplaces, ht'⟩ := hf.settle hcallee hargs
      (fun hfma => ha.areNormal (hnormal hfma)) (ht2.of_trail hs.trail_eq hs.next_le)
    refine ⟨hparts, ?_, ht'⟩
    intro params
    rw [hplaces, Expr.placements, Expr.placements, admitted_append, admitted_append, hplacesc,
      hplacesa]
  | @Expr.Rebuilds.ite _ _ _ t1 t2 t3 _ node cond cond' onTrue onTrue' onFalse onFalse' _ hc ht hf
      hs, he, hcs, h => by
    obtain ⟨hec, het, hef⟩ := he.cons.2.append.imp_right Below.append
    obtain ⟨hcc, hct, hcf⟩ := hcs.append.imp_right Pass.Suits.append
    obtain ⟨hsc, hcond, hplacesc, h1⟩ := hc.settle hp hec hcc h
    obtain ⟨hst, htrue, hplacest, h2⟩ := ht.settle hp het hct h1
    obtain ⟨hsf, hfalse, hplacesf, h3⟩ := hf.settle hp hef hcf (h1.leave h2.tick)
    obtain ⟨n1, rfl⟩ : ∃ n, e' = .ite n cond' onTrue' onFalse' := by
      refine hs.made ?_ fun _ => ⟨_, rfl⟩
      intro h
      simp only [Bool.and_eq_true] at h
      exact ⟨node, by rw [hsc h.1.1, hst h.1.2, hsf h.2]⟩
    refine ⟨?_, ?_, (h1.leave h3.tick).of_trail hs.trail_eq hs.next_le⟩
    · intro n hn
      rw [hs.trail_eq.2]
      exact .ite hn hcond htrue hfalse
    · intro params
      simp only [Expr.placements, admitted_append, hplacesc, hplacest, hplacesf]
  | @Expr.Rebuilds.seq _ _ _ t1 t2 _ node blocks blocks' body body' _ hb hy hs, he, hcs, ht => by
    obtain ⟨heb, hey⟩ := he.cons.2.append
    obtain ⟨hsb, hblocks, hplacesb, ht1⟩ := hb.settle hp heb hcs.append.1 ht
    obtain ⟨hsy, hbody, hplacesy, ht2⟩ := hy.settle hp hey hcs.append.2 ht1
    refine ⟨?_, ?_, ht2.tick.of_trail hs.trail_eq hs.next_le⟩
    -- A new sequence is made without the empty blocks, so the two cases differ in their parts.
    · intro n hn
      rw [hs.trail_eq.2]
      cases hs with
      | same h =>
        obtain ⟨hb, hy⟩ := Bool.and_eq_true_iff.mp h
        rw [hsb hb] at hblocks
        rw [hsy hy] at hbody
        exact .seq hn hblocks hbody
      | changed => exact .seq hn hblocks.filter hbody
    · intro params
      cases hs with
      | same => rfl
      | changed =>
        rw [Expr.mkSeq, Expr.placements, Expr.placements, Block.placementsAll_filter,
          admitted_append, admitted_append, hplacesb, hplacesy]
  | @Expr.Rebuilds.function _ _ _ t1 t2 t3 node own own' body body' ret attrs _ hd hb hs, he, hcs,
      ht => by
    obtain ⟨hsame, hbody, hplaces, ht2⟩ :=
      hb.settle hp he.cons.2.append.2 hcs (ht.defineAll hp hd)
    rw [Trail.defineAll_eq hp] at hd
    cases hd
    obtain ⟨n1, rfl⟩ : ∃ n, e' = .function n own body' ret attrs := by
      refine hs.made ?_ fun _ => ⟨_, rfl⟩
      intro h
      exact ⟨node, by rw [hsame (Bool.and_eq_true_iff.mp h).2]⟩
    have ht3 := (ht.leave ht2.tick).of_trail hs.trail_eq hs.next_le
    refine ⟨?_, fun params => hplaces (own ++ params), ht.leave ht3⟩
    intro n hn
    rw [Trail.leave_bound, hs.trail_eq.2]
    exact .function hn hbody

theorem Expr.Becomes.settle (hp : p ≠ .explicitMemory) {t t' : Trail} {e e' : Expr}
    (h : Expr.Becomes p .standard t e e' t') :
    Below base e.tags → p.Suits e.calls → t.Ready p base → (e'.sameAs e → e' = e) ∧
      e'.Rests p t.bound t'.bound ∧
      (∀ params, Admitted (e'.placements params) ↔ Admitted (e.placements params)) ∧
      t'.Ready p base := by
  match h with
  | .mk hr hf =>
    intro he hc ht
    obtain ⟨hparts, hplaces, ht1⟩ := hr.settle hp he hc ht
    have hfresh := (Expr.Becomes.mk hr hf).eq_or_fresh ht.after
    refine ⟨Expr.eq_of_sameAs hfresh he, hf.rests hparts, ?_,
      ht1.of_trail hf.trail_eq hf.next_le⟩
    intro params
    rw [hf.placements]
    exact hplaces params

theorem Expr.BecomeAll.settle (hp : p ≠ .explicitMemory) {t t' : Trail} {es es' : List Expr}
    (hbecomes : Expr.BecomeAll p .standard t es es' t') :
    Below base (Expr.tagsAll es) → p.Suits (Expr.callsAll es) → t.Ready p base →
      (Transformer.allSame Expr.sameAs es' es → es' = es) ∧ Expr.RestAll p t.bound es' t'.bound ∧
      (∀ params, Admitted (Expr.placementsAll params es') ↔ Admitted (Expr.placementsAll params
      es)) ∧ t'.Ready p base := by
  match hbecomes with
  | .nil =>
    intro _ _ ht
    exact ⟨fun _ => rfl, .nil, fun _ => Iff.rfl, ht⟩
  | .cons he hs =>
    intro h hc ht
    obtain ⟨hse, hhead, hplaces, ht1⟩ := he.settle hp h.append.1 hc.append.1 ht
    obtain ⟨hss, htail, hrest, ht2⟩ := hs.settle hp h.append.2 hc.append.2 ht1
    refine ⟨?_, .cons hhead htail, ?_, ht2⟩
    · intro hsame
      obtain ⟨h1, h2⟩ := Bool.and_eq_true_iff.mp hsame
      rw [hse h1, hss h2]
    · intro params
      rw [Expr.placementsAll, Expr.placementsAll, admitted_append, admitted_append, hplaces, hrest]

theorem Binding.Becomes.settle (hp : p ≠ .explicitMemory) {bk : BlockKind} {t t' : Trail}
    {b : Binding} {out : List Binding} (h : Binding.Becomes p .standard bk t b out t') :
    Below base b.tags → p.Suits b.calls → t.Ready p base → ∃ b', out = [b'] ∧
      (b'.sameAs b → b' = b) ∧ b'.Rests p t.bound t'.bound ∧
      (∀ params, Admitted (b'.placements bk params) ↔ Admitted (b.placements bk params)) ∧
      t'.Ready p base := by
  match h with
  | .kept _ hy hd hs _ =>
    intro hb hc ht
    obtain ⟨hsame, hvalue, -, ht1⟩ := hy.settle hp hb.cons.2.cons.2 hc ht
    have hfactors := hy.normalFactors hc
    rw [Trail.define_eq hp] at hd
    cases hd
    rw [hsame (Bool.and_eq_true_iff.mp hs).2] at hvalue hfactors
    exact ⟨_, rfl, fun _ => rfl, .bind hvalue, fun _ => Iff.rfl,
      ht1.record _ _ hvalue.isAnnotated hfactors⟩
  | .changed _ hy hd _ hr _ =>
    intro hb hc ht
    obtain ⟨-, hvalue, hplaces, ht1⟩ := hy.settle hp hb.cons.2.cons.2 hc ht
    have hfactors := hy.normalFactors hc
    rw [Trail.define_eq hp] at hd
    cases hd
    have hfresh := ht1.after.next.trans (Trail.retype_next_le hr)
    obtain ⟨hid, hk, -, -, hbound⟩ := Trail.retype_eq hr
    refine ⟨_, rfl, Binding.eq_of_sameAs (.inr hfresh) hb.cons.1, ?_,
      fun params => admitted_binding hid hk (hplaces params),
      (ht1.retype hr).tick.record _ _ hvalue.isAnnotated hfactors⟩
    simp only [Trail.record, Trail.tick_bound, Trail.replaceIfChanged_bound, hbound]
    exact .bind hvalue
  | .lowered hl .. =>
    intro _ _ _
    exact absurd (Pass.lowered?_eq hl).1 hp
  | .keptCast hy hd hs _ =>
    intro hb hc ht
    obtain ⟨hsame, hvalue, -, ht1⟩ := hy.settle hp hb.cons.2.cons.2 hc ht
    rw [Trail.define_eq hp] at hd
    cases hd
    rw [hsame (Bool.and_eq_true_iff.mp hs).2] at hvalue
    exact ⟨_, rfl, fun _ => rfl, .cast hvalue, fun _ => Iff.rfl, ht1⟩
  | .changedCast hy hd _ hr _ =>
    intro hb hc ht
    obtain ⟨-, hvalue, hplaces, ht1⟩ := hy.settle hp hb.cons.2.cons.2 hc ht
    rw [Trail.define_eq hp] at hd
    cases hd
    have hfresh := ht1.after.next.trans (Trail.retype_next_le hr)
    obtain ⟨hid, hk, -, -, hbound⟩ := Trail.retype_eq hr
    refine ⟨_, rfl, Binding.eq_of_sameAs (.inr hfresh) hb.cons.1, ?_,
      fun params => admitted_binding hid hk (hplaces params), (ht1.retype hr).tick⟩
    rw [Trail.tick_bound, Trail.replaceIfChanged_bound, hbound]
    exact .cast hvalue

theorem Binding.BecomeAll.settle (hp : p ≠ .explicitMemory) {bk : BlockKind} {t t' : Trail}
    {bs out : List Binding} (hbecomes : Binding.BecomeAll p .standard bk t bs out t') :
    Below base (Binding.tagsAll bs) → p.Suits (Binding.callsAll bs) → t.Ready p base →
      (Transformer.allSame Binding.sameAs out bs → out = bs) ∧
      Binding.RestAll p t.bound out t'.bound ∧
      (∀ params, Admitted (Binding.placementsAll bk params out) ↔ Admitted (Binding.placementsAll
      bk params bs)) ∧ t'.Ready p base := by
  match hbecomes with
  | .nil =>
    intro _ _ ht
    exact ⟨fun _ => rfl, .nil, fun _ => Iff.rfl, ht⟩
  | .cons hb hs =>
    intro h hc ht
    obtain ⟨b', rfl, hsb, hhead, hplaces, ht1⟩ := hb.settle hp h.append.1 hc.append.1 ht
    obtain ⟨hss, htail, hrest, ht2⟩ := hs.settle hp h.append.2 hc.append.2 ht1
    refine ⟨?_, .cons hhead htail, ?_, ht2⟩
    · intro hsame
      obtain ⟨h1, h2⟩ := Bool.and_eq_true_iff.mp hsame
      rw [hsb h1, List.singleton_append, hss h2]
    · intro params
      rw [List.singleton_append, Binding.placementsAll, Binding.placementsAll, admitted_append,
        admitted_append, hplaces, hrest]

theorem Block.Becomes.settle (hp : p ≠ .explicitMemory) {t t' : Trail} {b b' : Block}
    (hbecomes : Block.Becomes p .standard t b b' t') :
    Below base b.tags → p.Suits b.calls → t.Ready p base → (b'.sameAs b → b' = b) ∧
      b'.Rests p t.bound t'.bound ∧
      (∀ params, Admitted (b'.placements params) ↔ Admitted (b.placements params)) ∧
      t'.Ready p base := by
  match hbecomes with
  | @Block.Becomes.kept _ _ _ _ (.mk ..) _ hb hs =>
    intro h hc ht
    obtain ⟨hsame, hbindings, -, ht1⟩ := hb.settle hp h.cons.2 hc ht
    rw [hsame (Bool.and_eq_true_iff.mp hs).2] at hbindings
    exact ⟨fun _ => rfl, .mk hbindings, fun _ => Iff.rfl, ht1.tick⟩
  | @Block.Becomes.changed _ _ _ _ (.mk _ kind _) _ hb _ =>
    intro h hc ht
    have hk : p.blockKind kind = kind := if_neg hp
    obtain ⟨-, hbindings, hplaces, ht1⟩ := hb.settle hp h.cons.2 hc ht
    refine ⟨Block.eq_of_sameAs (.inr ht1.after.next) h.cons.1, .mk hbindings, ?_, ht1.tick⟩
    intro params
    simp only [Block.kind, hk] at hplaces ⊢
    exact hplaces params

theorem Block.BecomeAll.settle (hp : p ≠ .explicitMemory) {t t' : Trail} {bs bs' : List Block}
    (hbecomes : Block.BecomeAll p .standard t bs bs' t') :
    Below base (Block.tagsAll bs) → p.Suits (Block.callsAll bs) → t.Ready p base →
      (Transformer.allSame Block.sameAs bs' bs → bs' = bs) ∧ Block.RestAll p t.bound bs' t'.bound ∧
      (∀ params, Admitted (Block.placementsAll params bs') ↔ Admitted (Block.placementsAll params
      bs)) ∧ t'.Ready p base := by
  match hbecomes with
  | .nil =>
    intro _ _ ht
    exact ⟨fun _ => rfl, .nil, fun _ => Iff.rfl, ht⟩
  | .cons hb hs =>
    intro h hc ht
    obtain ⟨hsb, hhead, hplaces, ht1⟩ := hb.settle hp h.append.1 hc.append.1 ht
    obtain ⟨hss, htail, hrest, ht2⟩ := hs.settle hp h.append.2 hc.append.2 ht1
    refine ⟨?_, .cons hhead htail, ?_, ht2⟩
    · intro hsame
      obtain ⟨h1, h2⟩ := Bool.and_eq_true_iff.mp hsame
      rw [hsb h1, hss h2]
    · intro params
      rw [Block.placementsAll, Block.placementsAll, admitted_append, admitted_append, hplaces,
        hrest]

end

end Settling

theorem Function.Becomes.settle {p : Pass} (hp : p ≠ .explicitMemory) {next : Nat}
    {f f' : Function} (h : Function.Becomes p next f f') (hb : Below next f.toExpr.tags)
    (hc : p.Suits f.toExpr.calls) : (∃ t', f'.toExpr.Rests p (fun _ => none) t') ∧
      (Admitted (f'.toExpr.placements []) ↔ Admitted (f.toExpr.placements [])) := by
  cases h with
  | same hn hy hs =>
    obtain ⟨hsame, hrest, -, -⟩ := hy.settle hp hb hc (.empty p hn)
    rw [hsame hs] at hrest
    exact ⟨⟨_, hrest⟩, Iff.rfl⟩
  | changed hn hy _ =>
    obtain ⟨-, hrest, hplaces, -⟩ := hy.settle hp hb hc (.empty p hn)
    exact ⟨⟨_, hrest⟩, hplaces []⟩

/-- After a run that changed something, another finds nothing to do, whenever that is. The tags of
the module were used up before the first run, so that no new node passes for an old one. -/
theorem Pass.settles {p : Pass} (hp : p ≠ .explicitMemory) {m m' : Module} {w w' : World}
    (hb : Below w.next m.tags) (hc : ∀ e ∈ m.toList, p.Suits e.2.toExpr.calls)
    (h : (p.apply m).exec w = (.ok (some m'), w')) :
    Module.Rest p m'.toList ∧ ∀ again : World, ((p.apply m').exec again).1 = .ok none := by
  have hall : ∀ e ∈ m'.toList, (∃ t', e.2.toExpr.Rests p (fun _ => none) t') ∧
      Admitted (e.2.toExpr.placements []) := by
    refine ((Pass.apply_becomes h).forall_iff (P := fun f => Admitted (f.toExpr.placements []))
      (Q := fun f => (∃ t', f.toExpr.Rests p (fun _ => none) t') ∧
        Admitted (f.toExpr.placements [])) ?_).mpr ?_
    · intro g f f' hm hf
      have hbelow : Below w.next f.toExpr.tags := by
        intro tag htag
        exact hb tag (List.mem_flatMap.mpr ⟨(g, f), hm, htag⟩)
      obtain ⟨hrest, hplaces⟩ := hf.settle hp hbelow (hc (g, f) hm)
      exact (and_iff_right hrest).trans hplaces
    · exact Module.placements_admitted_iff.mp (Pass.apply_admitted hp h)
  have hrest : Module.Rest p m'.toList := fun e he => (hall e he).1
  have hadmitted : Admitted m'.placements :=
    Module.placements_admitted_iff.mpr fun e he => (hall e he).2
  refine ⟨hrest, ?_⟩
  intro again
  rw [Pass.apply_of_rest hp hrest, List.findSome?_eq_none_iff.mpr hadmitted]
  rfl

/-- After a run that changed something, every composite node has struct info, and another run leaves
the module as it is, whenever that is. The tags of the module were used up before the first run, so
that no new node passes for an old one. -/
theorem normalize_completes {m m' : Module} {w w' : World} (hb : Below w.next m.tags)
    (h : (Pass.normalize.apply m).exec w = (.ok (some m'), w')) :
    m'.isAnnotated ∧ ∀ again : World, ((Pass.normalize.apply m').exec again).1 = .ok none := by
  obtain ⟨hrest, hagain⟩ := Pass.settles Pass.normalize_ne hb (fun _ _ => nofun) h
  refine ⟨List.all_eq_true.mpr ?_, hagain⟩
  intro e he
  obtain ⟨_, hr⟩ := hrest e he
  exact hr.isAnnotated

open Annotated in
theorem normalize_completes_annotated : Below world.next module.tags ∧ ∃ m' w',
    (Pass.normalize.apply module).exec world = (.ok (some m'), w') ∧
    m'.isAnnotated ∧ ∀ again : World, ((Pass.normalize.apply m').exec again).1 = .ok none := by
  have hs : (Pass.normalize.changedModule? module world).isSome := by decide +kernel
  have hb : Below world.next module.tags := by decide +kernel
  obtain ⟨m', hm⟩ := Option.isSome_iff_exists.mp hs
  have h := Pass.apply_of_changedModule? hm
  exact ⟨hb, m', _, h, normalize_completes hb h⟩

end DataflowIR
