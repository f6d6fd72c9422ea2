import DataflowIR.Proofs.Fusion.Operations
import DataflowIR.Proofs.Scoping.Operands

namespace DataflowIR

open Scope (Mention Op Fuses Records Fit)

/-- What the factors of the products on the trail mention. -/
def Trail.records (t : Trail) : Records :=
  fun id => (t.bound id).bind Expr.factorMentions?

theorem Trail.records_congr {t t' : Trail} (h : t'.bound = t.bound) : t'.records = t.records := by
  funext id
  rw [records, records, h]

private theorem Trail.records_record (t : Trail) (mark : Mark) (v : Var) (value : Expr) :
    (t.record (.bind mark v value)).records =
      Function.update t.records v.id value.factorMentions? := by
  funext id
  by_cases h : id = v.id
  · subst h
    simp [records, record]
  · simp [records, record, h]

@[simp] theorem Expr.factorMentions?_withNode (n : Node) (e : Expr) :
    (e.withNode n).factorMentions? = e.factorMentions? := by
  cases e <;> rfl

section Calls

variable {c : Call}

theorem Call.factorMentions?_toExpr : c.toExpr.factorMentions? =
    if c.args.length = 2 ∧ c.isOp "relax.multiply" then some (Expr.mentionsAll c.args)
    else none :=
  Call.binaryOperands?_map Expr.mentionsAll "relax.multiply"

private theorem Call.sinfoOp_after (r : Records) : c.sinfoOp.after r = r := by
  unfold sinfoOp
  split <;> rfl

private theorem Trail.factors?_mentions (t : Trail) (e : Expr) :
    ((t.factors? e).map fun (a, b) => Expr.mentionsAll [a, b]) =
      e.asVar?.bind fun v => t.records v.id := by
  unfold factors? records Expr.factorMentions?
  cases e.asVar? with
  | none => rfl
  | some v => cases h : t.bound v.id <;> simp [h]

private theorem Trail.fused?_of_fusion?_eq_none {t : Trail} (h : t.fusion? c.toExpr = none) :
    c.sinfoOp.fused? t.records = none := by
  unfold Call.sinfoOp
  split
  · next v hv =>
    obtain ⟨⟨lhs, addend⟩, hadd, hlhs⟩ := Option.bind_eq_some_iff.mp hv
    have hf := t.factors?_mentions lhs
    simp only [fusion?, Call.asCall?_toExpr, Option.bind_some, hadd, Option.map_eq_none_iff] at h
    rw [h, hlhs] at hf
    exact hf.symm
  · rfl

private theorem Trail.sinfoOp_of_fusion?_eq_some {t : Trail} {a b addend : Expr}
    (h : t.fusion? c.toExpr = some (a, b, addend)) :
    ∃ v, c.args = [.var v, addend] ∧ c.callee.asOp? = some "relax.add" ∧
      c.sinfoOp = .sum (c.sinfoArgs.flatMap StructInfo.syms) v.id ∧
      t.records v.id = some (Expr.mentionsAll [a, b]) := by
  obtain ⟨c1, v, value, c2, hc, hadd, hval, hc2, hmul⟩ := Trail.fusion?_eq h
  cases hc
  obtain ⟨hargs, node, hcallee⟩ := Call.binaryOperands?_eq hadd
  refine ⟨v, hargs, by rw [hcallee]; rfl, ?_, ?_⟩
  · have hs : c.summand? = some v := by rw [Call.summand?, hadd]; rfl
    rw [Call.sinfoOp, hs]
  · rw [records, hval, Option.bind_some, Expr.factorMentions?, hc2, Option.bind_some, hmul]
    rfl

private theorem fused_ops (node : Node) (tag : Nat) (a b addend : Expr) (asBody : Bool) :
    Expr.ops asBody (.call node (.mkOp tag "relax.ewise_fma") [a, b, addend] none []) =
      .mention (.syms []) :: ((Expr.mentionsAll [a, b]).map .mention ++
        (Expr.mentionsAll [addend]).map .mention) := by
  simp [Expr.ops, Expr.mkOp, Expr.mkLeaf, Leaf.mentions, Call.sinfoOp, Call.summand?,
    Call.binaryOperands?, Expr.mentionsAll]

end Calls

section Rewrite

variable {base : Nat} {kind : Id → Bool}

private theorem Expr.Rebuilds.fuses_call {t t1 t2 t3 t' : Trail} {node : Node}
    {callee callee' e1 e' : Expr}
    {args args' : List Expr} {attrs : Option Attrs} {sinfoArgs : List StructInfo} {asBody : Bool}
    (hc : Expr.Becomes .fusedMultiplyAdd .standard t callee callee' t1)
    (ha : Expr.BecomeAll .fusedMultiplyAdd .standard t1 args args' t2)
    (hs : Settles t2 (Transformer.allSame Expr.sameAs args' args && callee'.sameAs callee)
      (.call node callee args attrs sinfoArgs) (.mkCall · callee' args' attrs sinfoArgs)
      node.span e1 t3)
    (hf : Finishes .fusedMultiplyAdd t3 e1 e' t')
    (ih : Fuses t.records (callee.ops false) (callee'.ops false) t1.records)
    (he : Fit kind (Expr.ops asBody (.call node callee args attrs sinfoArgs)))
    (hb : Below base (Expr.call node callee args attrs sinfoArgs).tags)
    (ht : t.Sound .fusedMultiplyAdd base kind) :
    Fuses t.records (Expr.ops asBody (.call node callee args attrs sinfoArgs)) (e'.ops asBody)
        t'.records ∧
      e'.factorMentions? = (Expr.call node callee args attrs sinfoArgs).factorMentions? := by
  have hn := Expr.areNormal_of_fits he.call.2
  have ht1 := hc.sound he.call.1 ht
  obtain ⟨node1, rfl⟩ := hs.eq_call hc ha hn hb ht ht1
  have hmen := ha.mentions_eq Pass.fusedMultiplyAdd_ne he.call.2 hb.cons.2.append.2 ht1
  have hop := hc.asOp?
  have hsum : (Call.mk node1 callee' args' attrs sinfoArgs).sinfoOp =
      (Call.mk node callee args attrs sinfoArgs).sinfoOp :=
    Call.sinfoOp_congr (Call.summand?_becomes hop ha fun _ _ => ht1.id) rfl
  have hrec : t3.records = t1.records :=
    Trail.records_congr (hs.trail_eq.2.trans (ha.trail_eq hn).2)
  have hfac : (Call.mk node1 callee' args' attrs sinfoArgs).toExpr.factorMentions? =
      (Call.mk node callee args attrs sinfoArgs).toExpr.factorMentions? := by
    rw [Call.factorMentions?_toExpr, Call.factorMentions?_toExpr, hmen, ha.length_eq, Call.isOp,
      Call.isOp, hop]
  cases hf with
  | kept h =>
    have hnone := Trail.fused?_of_fusion?_eq_none (h rfl)
    refine ⟨?_, hfac⟩
    rw [Call.toExpr, Expr.ops, Expr.ops, hsum, hmen, hrec]
    rw [hsum, hrec] at hnone
    refine ih.append (.keep hnone ?_)
    rw [Call.sinfoOp_after]
    exact Fuses.mentions _
  | fused a b addend _ h =>
    obtain ⟨v, hargs, hadd, hsumOp, hfactors⟩ := Trail.sinfoOp_of_fusion?_eq_some h
    obtain ⟨opNode, rfl⟩ := Expr.eq_leaf_of_asOp? (show callee.asOp? = _ from hop ▸ hadd)
    have hr : t3.records = t.records := hrec.trans (Trail.records_congr (hc.trail_eq rfl).2)
    rw [hr] at hfactors
    constructor
    · rw [fused_ops, Expr.ops, ← hsum, hsumOp, ← hmen, show args' = _ from hargs,
        show t3.tick.tick.records = _ from hr]
      exact .fuse hfactors (Fuses.mentions (Expr.mentionsAll [addend]))
    · refine Eq.trans ?_ hfac
      rw [Call.factorMentions?_toExpr, Call.isOp, hadd]
      simp [Expr.factorMentions?, Call.binaryOperands?, Expr.asCall?]

private theorem Block.fuses_ops {r r' : Records} {mark mark' : Mark} {bk : BlockKind}
    {bs out : List Binding} (hlen : out.length = bs.length)
    (h : Fuses r (Binding.opsAll bs) (Binding.opsAll out) r') :
    Fuses r (Block.mk mark bk bs).ops (Block.mk mark' bk out).ops r' := by
  cases bk with
  | plain => exact h
  | dataflow =>
    cases bs with
    | nil =>
      rw [List.length_nil, List.length_eq_zero_iff] at hlen
      subst hlen
      cases h
      exact .single rfl
    | cons b bs =>
      cases out with
      | nil => cases hlen
      | cons b' out =>
        rw [Block.ops, Block.ops, ← List.append_assoc, ← List.append_assoc]
        exact .keep rfl (h.append (.single rfl))

private theorem Scope.Fuses.of_isEmpty {r r' : Records} {ops : List Op} {b : Block}
    (h : Fuses r ops b.ops r') (hb : b.bindings.isEmpty) : Fuses r ops [] r' := by
  obtain ⟨mark, kind, bindings⟩ := b
  obtain rfl := List.isEmpty_iff.mp hb
  cases kind with
  | plain => exact h
  | dataflow => exact h.of_hollow

mutual

theorem Expr.Rebuilds.fuses {t t' : Trail} {e e' : Expr} {asBody : Bool}
    (hrebuilds : Expr.Rebuilds .fusedMultiplyAdd .standard t e e' t') :
    Fit kind (e.ops asBody) → Below base e.tags → t.Sound .fusedMultiplyAdd base kind →
      Fuses t.records (e.ops asBody) (e'.ops asBody) t'.records ∧ e'.factorMentions? =
      e.factorMentions? := by
  match hrebuilds with
  | @Expr.Rebuilds.leaf _ _ _ _ content =>
    intro _ _ _
    exact ⟨Fuses.mentions content.mentions, rfl⟩
  | @Expr.Rebuilds.var _ _ _ v =>
    intro he _ ht
    cases hv : t.remap v.id with
    | none => exact ⟨Fuses.mentions [_], rfl⟩
    | some w =>
      have hk : w.dataflow = v.dataflow := (ht.kind hv).trans (he.cons.1).symm
      rw [Option.getD_some, Expr.ops, Expr.ops, ht.id hv, hk]
      exact ⟨Fuses.mentions [_], rfl⟩
  | .shape =>
    intro _ _ _
    exact ⟨Fuses.mentions [_], rfl⟩
  | .prim =>
    intro _ _ _
    exact ⟨Fuses.mentions [_], rfl⟩
  | .tuple hf hs =>
    intro he hb ht
    have hn := Expr.areNormal_of_fits he.mentions
    have hmen := hf.mentions_eq Pass.fusedMultiplyAdd_ne he.mentions hb.cons.2 ht
    rw [Trail.records_congr (hs.trail_eq.2.trans (hf.trail_eq hn).2)]
    cases hs with
    | same => exact ⟨Fuses.mentions _, rfl⟩
    | changed =>
      rw [Expr.mkTuple, Expr.ops, Expr.ops, hmen]
      exact ⟨Fuses.mentions _, rfl⟩
  | .item hw hs =>
    intro he hb ht
    obtain ⟨ih, -⟩ := hw.fuses he hb.cons.2 ht
    rw [← Trail.records_congr hs.trail_eq.2] at ih
    cases hs with
    | same h =>
      rw [hw.eq_of_sameAs ht hb.cons.2 h] at ih
      exact ⟨ih, rfl⟩
    | changed => exact ⟨ih, rfl⟩
  | .call hc ha hs hf =>
    intro he hb ht
    exact Expr.Rebuilds.fuses_call hc ha hs hf (hc.fuses he.call.1 hb.cons.2.append.1 ht).1 he hb ht
  | .ite hc ht hf hs =>
    intro he hb h
    obtain ⟨hec, het, hef⟩ := he.ite
    obtain ⟨hbc, hbt, hbf⟩ := hb.cons.2.append.imp_right Below.append
    have h1 := hc.sound hec h
    have h2 := h1.branch ht.next_le
    have ihc := (hc.fuses hec hbc h).1
    have iht := (ht.fuses het hbt h1).1
    have ihf := (hf.fuses hef hbf h2).1
    rw [Trail.records_congr hs.trail_eq.2]
    have ih := ihc.append (iht.nested.append ihf.nested)
    cases hs with
    | same hsame =>
      simp only [Bool.and_eq_true] at hsame
      rw [hc.eq_of_sameAs h hbc hsame.1.1, ht.eq_of_sameAs h1 hbt hsame.1.2,
        hf.eq_of_sameAs h2 hbf hsame.2] at ih
      exact ⟨.keep rfl ih, rfl⟩
    | changed => exact ⟨.keep rfl ih, rfl⟩
  | .seq hb hy hs =>
    intro he hbl ht
    obtain ⟨hbody, heb, hey⟩ := he.seq
    obtain ⟨hbb, hby⟩ := hbl.cons.2.append
    have h1 := hb.sound heb ht
    obtain ⟨ihb, ihb'⟩ := hb.fuses heb hbb ht
    obtain ⟨ihy, -⟩ := hy.fuses hey hby h1
    rw [Trail.records_congr hs.trail_eq.2]
    subst hbody
    cases hs with
    | same hsame =>
      rw [Bool.and_eq_true] at hsame
      rw [hb.eq_of_sameAs heb ht hbb hsame.1] at ihb
      rw [hy.eq_of_sameAs h1 hby hsame.2] at ihy
      exact ⟨ihb.append ihy, rfl⟩
    | changed => exact ⟨ihb'.append ihy, rfl⟩
  | @Expr.Rebuilds.function _ _ _ _ t2 t3 _ params _ _ _ ret _ _ hp hb hs =>
    intro he hbl ht
    have hby := hbl.cons.2.append.2
    obtain ⟨ihb, -⟩ := hb.fuses he.function.2 hby (ht.defineAll hp)
    rw [Trail.defineAll_eq Pass.fusedMultiplyAdd_ne] at hp
    cases hp
    have ih := ((Fuses.params params).append
      (ihb.append (Fuses.mentions [.syms ret.syms]))).nested
    rw [show (t3.leave t).records = t2.records from Trail.records_congr hs.trail_eq.2]
    cases hs with
    | same hsame =>
      rw [Bool.and_eq_true] at hsame
      rw [hb.eq_of_sameAs ht hby hsame.2] at ih
      exact ⟨ih, rfl⟩
    | changed => exact ⟨ih, rfl⟩

theorem Expr.Becomes.fuses {t t' : Trail} {e e' : Expr} {asBody : Bool}
    (h : Expr.Becomes .fusedMultiplyAdd .standard t e e' t') :
    Fit kind (e.ops asBody) → Below base e.tags → t.Sound .fusedMultiplyAdd base kind →
      Fuses t.records (e.ops asBody) (e'.ops asBody) t'.records ∧ e'.factorMentions? =
      e.factorMentions? := by
  match h with
  | .mk hr hf =>
    intro he hb ht
    have ih := hr.fuses he hb ht
    rw [← Trail.records_congr hf.trail_eq.2] at ih
    cases hf with
    | kept => exact ih
    | filled =>
      rw [Expr.withSinfo, Expr.ops_withNode, Expr.factorMentions?_withNode]
      exact ih

theorem Binding.Becomes.fuses {bk : BlockKind} {t t' : Trail} {b : Binding} {out : List Binding}
    (h : Binding.Becomes .fusedMultiplyAdd .standard bk t b out t') :
    Fit kind b.ops → Below base b.tags → t.Sound .fusedMultiplyAdd base kind → ∃ b', out = [b'] ∧
      Fuses t.records b.ops b'.ops t'.records := by
  match h with
  | .kept hl hy hd hs hk =>
    intro he hb ht
    obtain ⟨ih, -⟩ := hy.fuses he.bind.1 hb.cons.2.cons.2 ht
    rw [Bool.and_eq_true] at hs
    rw [hy.eq_of_sameAs ht hb.cons.2.cons.2 hs.2] at ih
    rw [Trail.define_eq Pass.fusedMultiplyAdd_ne] at hd
    cases hd
    refine ⟨_, rfl, ?_⟩
    rw [Trail.records_record]
    exact ih.append (.keep rfl (Fuses.single rfl))
  | @Binding.Becomes.changed _ _ _ _ _ _ _ _ v _ v' value value' hl hy hd hs hr hk =>
    intro he hb ht
    obtain ⟨ih, hfac⟩ := hy.fuses he.bind.1 hb.cons.2.cons.2 ht
    rw [Trail.define_eq Pass.fusedMultiplyAdd_ne] at hd
    cases hd
    obtain ⟨hid, hdf, -, -, hbd⟩ := Trail.retype_eq hr
    refine ⟨_, rfl, ?_⟩
    rw [Trail.records_record, Trail.records_congr (Trail.tick_bound _),
      Trail.records_congr (Trail.replaceIfChanged_bound _ _ _), Trail.records_congr hbd,
      Binding.ops, Binding.ops, hid, hdf, hfac]
    exact ih.append (.keep rfl (Fuses.single rfl))
  | .lowered hl .. =>
    intro _ _ _
    simp [Pass.lowered?] at hl
  | .keptCast hy hd hs hk =>
    intro he hb ht
    obtain ⟨ih, -⟩ := hy.fuses he.cast.1 hb.cons.2.cons.2 ht
    rw [Bool.and_eq_true] at hs
    rw [hy.eq_of_sameAs ht hb.cons.2.cons.2 hs.2] at ih
    rw [Trail.define_eq Pass.fusedMultiplyAdd_ne] at hd
    cases hd
    exact ⟨_, rfl, ih.append (.keep rfl (Fuses.single rfl))⟩
  | .changedCast hy hd hs hr hk =>
    intro he hb ht
    obtain ⟨ih, -⟩ := hy.fuses he.cast.1 hb.cons.2.cons.2 ht
    rw [Trail.define_eq Pass.fusedMultiplyAdd_ne] at hd
    cases hd
    obtain ⟨hid, hdf, -, -, hbd⟩ := Trail.retype_eq hr
    refine ⟨_, rfl, ?_⟩
    rw [Trail.records_congr (Trail.tick_bound _),
      Trail.records_congr (Trail.replaceIfChanged_bound _ _ _), Trail.records_congr hbd,
      Binding.ops, Binding.ops, hid, hdf]
    exact ih.append (.keep rfl (Fuses.single rfl))

theorem Binding.BecomeAll.fuses {bk : BlockKind} {t t' : Trail} {bs out : List Binding}
    (hbecomes : Binding.BecomeAll .fusedMultiplyAdd .standard bk t bs out t') :
    Fit kind (Binding.opsAll bs) → Below base (Binding.tagsAll bs) →
      t.Sound .fusedMultiplyAdd base kind → out.length = bs.length ∧
      Fuses t.records (Binding.opsAll bs) (Binding.opsAll out) t'.records := by
  match hbecomes with
  | .nil =>
    intro _ _ _
    exact ⟨rfl, .nil⟩
  | .cons hb hs =>
    intro he hbl ht
    obtain ⟨b', rfl, h⟩ := hb.fuses he.append.1 hbl.append.1 ht
    obtain ⟨hlen, ih⟩ := hs.fuses he.append.2 hbl.append.2 (hb.sound he.append.1 ht)
    exact ⟨by simp [hlen], h.append ih⟩

theorem Block.Becomes.fuses {t t' : Trail} {b b' : Block}
    (h : Block.Becomes .fusedMultiplyAdd .standard t b b' t') :
    Fit kind b.ops → Below base b.tags → t.Sound .fusedMultiplyAdd base kind →
      Fuses t.records b.ops b'.ops t'.records := by
  match h with
  | @Block.Becomes.kept _ _ _ _ (.mk ..) _ hb hs =>
    intro he hbl ht
    obtain ⟨-, ih⟩ := hb.fuses he.block hbl.cons.2 ht
    rw [Bool.and_eq_true] at hs
    rw [hb.eq_of_sameAs he.block ht hbl.cons.2 hs.2] at ih
    exact Block.fuses_ops rfl ih
  | @Block.Becomes.changed _ _ _ _ (.mk ..) _ hb _ =>
    intro he hbl ht
    obtain ⟨hlen, ih⟩ := hb.fuses he.block hbl.cons.2 ht
    exact Block.fuses_ops hlen ih

theorem Block.BecomeAll.fuses {t t' : Trail} {bs bs' : List Block}
    (hbecomes : Block.BecomeAll .fusedMultiplyAdd .standard t bs bs' t') :
    Fit kind (Block.opsAll bs) → Below base (Block.tagsAll bs) →
      t.Sound .fusedMultiplyAdd base kind →
      Fuses t.records (Block.opsAll bs) (Block.opsAll bs') t'.records ∧
      Fuses t.records (Block.opsAll bs) (Block.opsAll (bs'.filter fun b => !b.bindings.isEmpty))
      t'.records := by
  match hbecomes with
  | .nil =>
    intro _ _ _
    exact ⟨.nil, .nil⟩
  | @Block.BecomeAll.cons _ _ _ _ _ b b' bs bs' hb hs =>
    intro he hbl ht
    have h := hb.fuses he.append.1 hbl.append.1 ht
    obtain ⟨ih, ih'⟩ := hs.fuses he.append.2 hbl.append.2 (hb.sound he.append.1 ht)
    refine ⟨h.append ih, ?_⟩
    cases hem : b'.bindings.isEmpty with
    | true =>
      rw [List.filter_cons_of_neg (by simp [hem])]
      exact (h.of_isEmpty hem).append ih'
    | false =>
      rw [List.filter_cons_of_pos (by simp [hem])]
      exact h.append ih'

end

end Rewrite

theorem Function.Becomes.fuses {next : Nat} {kind : Id → Bool} {f f' : Function}
    (h : Function.Becomes .fusedMultiplyAdd next f f') (hf : Fit kind f.ops)
    (hb : Below next f.toExpr.tags) : ∃ r, Fuses (fun _ => none) f.ops f'.ops r := by
  have hr : ∀ n, (Trail.empty n).records = fun _ => none := fun n => rfl
  cases h with
  | same hn hy hs =>
    have ht := Trail.Sound.empty .fusedMultiplyAdd kind hn
    have h := (hy.fuses hf hb ht).1
    rw [hy.eq_of_sameAs ht hb hs] at h
    exact ⟨_, h⟩
  | changed hn hy hs =>
    exact ⟨_, (hy.fuses hf hb (Trail.Sound.empty .fusedMultiplyAdd kind hn)).1⟩

/-- At every sum of a recorded product, the variables in the factors are in scope. -/
def Module.FactorsInScope (m : Module) : Prop :=
  ∀ e ∈ m.toList, Scope.FactorsInScope m.contains .start (fun _ => none) e.2.ops

instance (m : Module) : Decidable m.FactorsInScope :=
  inferInstanceAs (Decidable (∀ e ∈ m.toList, _))

def Module.HollowOutside (m : Module) : Prop :=
  ∀ e ∈ m.toList, Scope.HollowOutside m.contains .start (fun _ => none) e.2.ops

/-- Fusing keeps a module well formed exactly where the factors are in scope at the sum. -/
theorem fusion_wellFormed_iff {m m' : Module} {w w' : World} (hwf : m.wellFormed = .ok ())
    (hk : ∀ e ∈ m.toList, e.2.OneKind) (hh : m.HollowOutside) (hb : Below w.next m.tags)
    (h : (Pass.fusedMultiplyAdd.apply m).exec w = (.ok (some m'), w')) :
    m'.wellFormed = .ok () ↔ m.FactorsInScope := by
  have hbec := Pass.apply_becomes h
  rw [Module.wellFormed_iff_run] at hwf ⊢
  rw [hbec.contains]
  apply hbec.forall_iff
    (P := fun f => Scope.FactorsInScope m.contains .start (fun _ => none) f.ops)
    (Q := fun f => ∃ w, Scope.run m.contains f.ops .start = some w)
  intro g f f' hm hf
  obtain ⟨sc, hrun⟩ := hwf (g, f) hm
  obtain ⟨kind, hfit⟩ := (hk (g, f) hm).fit hrun
  have htags : Below w.next f.toExpr.tags := by
    intro tag ht
    exact hb tag (List.mem_flatMap.mpr ⟨_, hm, ht⟩)
  obtain ⟨r, hfus⟩ := hf.fuses hfit htags
  exact hfus.run_iff (fun _ => rfl) (hh (g, f) hm) ⟨sc, hrun⟩

namespace Factors

def named (index : Nat) (name : String) (dataflow : Bool) : Var :=
  ⟨⟨⟨index, none⟩, none⟩, ⟨index, name⟩, dataflow⟩

def x : Var := named 0 "x" false

def factor : Var := named 1 "factor" true

def product : Var := named 2 "product" false

def total : Var := named 3 "total" false

def factorBinding : Binding :=
  .bind ⟨4, none⟩ factor (.var x)

def productBinding : Binding :=
  .bind ⟨7, none⟩ product
    (.mkCall ⟨6, none⟩ (.mkOp 5 "relax.multiply") [.var factor, .var x] none [])

def totalBinding : Binding :=
  .bind ⟨10, none⟩ total (.mkCall ⟨9, none⟩ (.mkOp 8 "relax.add") [.var product, .var x] none [])

def module (params : List Var) (blocks : List Block) (result : Var) : Module :=
  (Module.empty.add 30 "main" ⟨⟨⟨29, none⟩, none⟩, params,
    .mkSeq ⟨28, none⟩ blocks (.var result), .object, .empty⟩).2

def world : World := ⟨31, []⟩

/-- The sum stands in the block of the factor. -/
def inside : Module :=
  module [x] [.mk ⟨11, none⟩ .dataflow [factorBinding, productBinding, totalBinding]] total

/-- The product leaves the block, and its factor is mentioned after it. -/
def escaping : Module :=
  module [x] [.mk ⟨11, none⟩ .dataflow [factorBinding, productBinding],
    .mk ⟨12, none⟩ .plain [totalBinding]] total

/-- The identity of `total` is that of a dataflow variable, too. -/
def shared : Module :=
  module [x] [.mk ⟨11, none⟩ .plain [.bind ⟨13, none⟩ total (.var x)],
    .mk ⟨12, none⟩ .dataflow [.bind ⟨14, none⟩ ⟨⟨⟨15, none⟩, none⟩, total.id, true⟩
      (.mkCall ⟨17, none⟩ (.mkOp 16 "relax.add") [.var x, .var x] none [])],
    .mk ⟨18, none⟩ .plain [.bind ⟨19, none⟩ product (.var total)]] product

/-- A block without bindings ends the dataflow block around it. -/
def hollow : Module :=
  module [x] [.mk ⟨11, none⟩ .dataflow
    [.bind ⟨12, none⟩ product (.mkFunction ⟨13, none⟩ []
      (.mkSeq ⟨14, none⟩ [.mk ⟨15, none⟩ .dataflow []] (.mkTuple ⟨16, none⟩ [.var x])) none .empty),
      .bind ⟨17, none⟩ total (.mkIte ⟨18, none⟩ (.var x) (.var x) (.var x))]] total

example : ¬escaping.FactorsInScope := by decide +kernel

example : ∃ e ∈ shared.toList, ¬e.2.OneKind := by decide +kernel

end Factors

open Factors in
theorem fusion_wellFormed_inside : ∃ m' w',
    (Pass.fusedMultiplyAdd.apply inside).exec world = (.ok (some m'), w') ∧
      m'.wellFormed = .ok () := by
  have hs : (Pass.fusedMultiplyAdd.changedModule? inside world).isSome := by decide +kernel
  obtain ⟨m', hm⟩ := Option.isSome_iff_exists.mp hs
  have h := Pass.apply_of_changedModule? hm
  have hk : ∀ e ∈ inside.toList, e.2.OneKind := by decide +kernel
  have hh : ∀ e ∈ inside.toList, .hollow ∉ e.2.ops := by decide +kernel
  have hb : Below world.next inside.tags := by decide +kernel
  have hf : inside.FactorsInScope := by decide +kernel
  exact ⟨m', _, h, (fusion_wellFormed_iff rfl hk
    (fun e he => .of_not_mem (hh e he)) hb h).mpr hf⟩

open Factors in
/-- A factor that is out of scope at the sum, an identity of both kinds and a block that is left out
each take a well-formed module to one that is not. -/
theorem fusion_breaks_wellFormed : Pass.fusedMultiplyAdd.Breaks escaping world ∧
    Pass.fusedMultiplyAdd.Breaks shared world ∧ Pass.fusedMultiplyAdd.Breaks hollow world := by
  refine ⟨.of_changedModule? rfl ?_, .of_changedModule? rfl ?_, .of_changedModule? rfl ?_⟩
  · decide +kernel
  · decide +kernel
  · decide +kernel

end DataflowIR
