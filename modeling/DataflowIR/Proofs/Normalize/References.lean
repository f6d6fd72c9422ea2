import DataflowIR.Proofs.Rewrite.Apply
import DataflowIR.Proofs.Scoping.Operands
import Mathlib.Data.List.Nodup

namespace DataflowIR

open Scope (Fit)

/-- A variable that has been defined in the functions and branches around a place. -/
structure Definition where
  var : Var
  /-- It is in scope: a dataflow variable is no more once its block has ended. -/
  live : Bool
  deriving DecidableEq

/-- After the block, the latest definition first. -/
def Block.define (ds : List Definition) (b : Block) : List Definition :=
  (b.bindings.map fun c => ⟨c.var, b.kind != .dataflow || !c.var.dataflow⟩).reverse ++ ds

def Block.defineAll (ds : List Definition) : List Block → List Definition
  | [] => ds
  | b :: bs => Block.defineAll (b.define ds) bs

mutual

/-- The uses of variables, each with the definitions before it. -/
def Expr.references (ds : List Definition) : Expr → List (List Definition × Var)
  | .leaf .. | .shape .. | .prim .. => []
  | .var v => [(ds, v)]
  | .tuple _ fields => Expr.referencesAll ds fields
  | .item _ whole _ => whole.references ds
  | .call _ callee args _ _ => callee.references ds ++ Expr.referencesAll ds args
  | .ite _ cond onTrue onFalse =>
    cond.references ds ++ (onTrue.references ds ++ onFalse.references ds)
  | .seq _ blocks body =>
    Block.referencesAll ds blocks ++ body.references (Block.defineAll ds blocks)
  | .function _ params body _ _ => body.references ((params.map (⟨·, true⟩)).reverse ++ ds)

def Expr.referencesAll (ds : List Definition) : List Expr → List (List Definition × Var)
  | [] => []
  | e :: es => e.references ds ++ Expr.referencesAll ds es

def Binding.references (ds : List Definition) : Binding → List (List Definition × Var)
  | .bind _ _ value | .cast _ _ value _ => value.references ds

def Binding.referencesAll (ds : List Definition) : List Binding → List (List Definition × Var)
  | [] => []
  | b :: bs => b.references ds ++ Binding.referencesAll (⟨b.var, true⟩ :: ds) bs

def Block.references (ds : List Definition) : Block → List (List Definition × Var)
  | .mk _ _ bindings => Binding.referencesAll ds bindings

def Block.referencesAll (ds : List Definition) : List Block → List (List Definition × Var)
  | [] => []
  | b :: bs => b.references ds ++ Block.referencesAll (b.define ds) bs

end

def Function.references (f : Function) : List (List Definition × Var) :=
  f.toExpr.references []

namespace Definition

/-- The definition of the identity that is in scope. -/
def find? (ds : List Definition) (id : Id) : Option Var :=
  (ds.find? fun d => d.live && d.var.id == id).map Definition.var

/-- The latest definition of the identity that is a node made after the tag `base`. -/
def renewed? (base : Nat) (ds : List Definition) (id : Id) : Option Var :=
  (ds.map Definition.var).find? fun v => v.id == id && decide (base ≤ v.tag)

end Definition

/-- Every use of a variable is one of its definition in scope. -/
def Function.Refers (f : Function) : Prop :=
  ∀ r ∈ f.references, Definition.find? r.1 r.2.id = some r.2

instance (f : Function) : Decidable f.Refers :=
  inferInstanceAs (Decidable (∀ r ∈ f.references, Definition.find? r.1 r.2.id = some r.2))

/-- Where a dataflow variable is used, the latest of its definitions that is a new node, if there is
one, is the definition in scope. -/
def Function.Current (base : Nat) (f : Function) : Prop :=
  ∀ r ∈ f.references, r.2.dataflow → ∀ v ∈ Definition.renewed? base r.1 r.2.id,
    Definition.find? r.1 r.2.id = some v

instance (base : Nat) (f : Function) : Decidable (f.Current base) :=
  inferInstanceAs (Decidable (∀ r ∈ f.references, r.2.dataflow →
    ∀ v ∈ Definition.renewed? base r.1 r.2.id, Definition.find? r.1 r.2.id = some v))

private theorem Block.referencesAll_filter (ds : List Definition) (bs : List Block) :
    Block.referencesAll ds (bs.filter fun b => !b.bindings.isEmpty) = Block.referencesAll ds bs ∧
      Block.defineAll ds (bs.filter fun b => !b.bindings.isEmpty) = Block.defineAll ds bs := by
  induction bs generalizing ds with
  | nil => exact ⟨rfl, rfl⟩
  | cons b bs ih =>
    obtain ⟨mark, kind, bindings⟩ := b
    cases bindings with
    | nil => exact ih ds
    | cons c cs =>
      rw [List.filter_cons_of_pos (by rfl), Block.referencesAll, Block.referencesAll,
        Block.defineAll, Block.defineAll, (ih _).1, (ih _).2]
      exact ⟨rfl, rfl⟩

theorem Block.map_var_define (ds : List Definition) (b : Block) :
    (b.define ds).map Definition.var =
      (b.bindings.map Binding.var).reverse ++ ds.map Definition.var := by
  simp [Block.define, List.map_reverse, Function.comp_def]

theorem Fills.references {rules : Rules} {t t' : Trail} {e e' : Expr} (h : Fills rules t e e' t')
    (ds : List Definition) : e'.references ds = e.references ds := by
  cases h with
  | kept => rfl
  | filled s hs =>
    cases e with
    | var v => simp [Builder.missingSinfo, Builder.isComposite] at hs
    | _ => rfl

/-- The variable is the old one, or a new node in its place. -/
structure Var.Renews (base : Nat) (v v' : Var) : Prop where
  id : v'.id = v.id
  dataflow : v'.dataflow = v.dataflow
  eq_or_new : v' = v ∧ v.tag < base ∨ base ≤ v'.tag

namespace Definition

/-- The variable is the old one or a new node, and is in scope as long. -/
structure Renews (base : Nat) (d d' : Definition) : Prop where
  var : d.var.Renews base d'.var
  live : d'.live = d.live

/-- The definitions after the pass, with the replacements that the trail has for them. -/
structure Tracked (base : Nat) (t : Trail) (ds ds' : List Definition) : Prop where
  renews : List.Forall₂ (Renews base) ds ds'
  remap : t.remap = renewed? base ds'

/-- A use after the pass: the replacement for the old variable, if there is one. -/
structure Follows (base : Nat) (r r' : List Definition × Var) : Prop where
  renews : List.Forall₂ (Renews base) r.1 r'.1
  var : r'.2 = (renewed? base r'.1 r.2.id).getD r.2
  dataflow : r'.2.dataflow = r.2.dataflow

variable {base : Nat} {t t' : Trail} {ds ds' : List Definition}

theorem Tracked.congr (h : Tracked base t ds ds') (ht : t'.remap = t.remap) :
    Tracked base t' ds ds' := by
  exact ⟨h.renews, ht.trans h.remap⟩

private theorem renewed?_congr {es : List Definition} (h : es.map var = ds.map var) :
    renewed? base es = renewed? base ds := by
  funext id
  rw [renewed?, renewed?, h]

/-- A variable that is not new is no replacement. -/
private theorem renewed?_cons_old {d : Definition} (h : d.var.tag < base) :
    renewed? base (d :: ds) = renewed? base ds := by
  funext id
  rw [renewed?, renewed?, List.map_cons, List.find?_cons_of_neg]
  simp [h]

private theorem renewed?_cons_new {d : Definition} (h : base ≤ d.var.tag) :
    renewed? base (d :: ds) = Function.update (renewed? base ds) d.var.id (some d.var) := by
  funext id
  rw [Function.update_apply, renewed?, List.map_cons, List.find?_cons]
  by_cases hid : id = d.var.id
  · simp [hid, h]
  · rw [if_neg hid, beq_false_of_ne (Ne.symm hid), Bool.false_and]
    rfl

theorem Tracked.old (h : Tracked base t ds ds') {v : Var} (hv : v.tag < base) :
    Tracked base t (⟨v, true⟩ :: ds) (⟨v, true⟩ :: ds') := by
  refine ⟨.cons ⟨⟨rfl, rfl, .inl ⟨rfl, hv⟩⟩, rfl⟩ h.renews, ?_⟩
  rw [renewed?_cons_old hv]
  exact h.remap

/-- Parameters stay as they are. -/
theorem Tracked.params (h : Tracked base t ds ds') {vs : List Var}
    (hb : Below base (vs.map Var.tag)) :
    Tracked base t ((vs.map (⟨·, true⟩)).reverse ++ ds) ((vs.map (⟨·, true⟩)).reverse ++ ds') := by
  induction vs generalizing ds ds' with
  | nil => exact h
  | cons v vs ih =>
    rw [List.map_cons, List.reverse_cons, List.append_assoc, List.append_assoc]
    exact ih (h.old hb.cons.1) hb.cons.2

/-- A new variable is put in the place of the old one. -/
theorem Tracked.retype (h : Tracked base t ds ds') {v v' : Var} {sinfo : Option StructInfo}
    (hv : v.tag < base) (hn : base ≤ t.next) (hr : t.retype v sinfo = (v', t')) :
    Tracked base (t'.replaceIfChanged v v') (⟨v, true⟩ :: ds) (⟨v', true⟩ :: ds') := by
  obtain ⟨hid, hd, -, hrm, -⟩ := Trail.retype_eq hr
  obtain rfl | htag := Trail.retype_eq_or_tag hr
  · rw [Trail.replaceIfChanged, if_pos (by simp [Var.sameAs])]
    exact (h.congr hrm).old hv
  · have hnew : base ≤ v'.tag := hn.trans htag.ge
    refine ⟨.cons ⟨⟨hid, hd, .inr hnew⟩, rfl⟩ h.renews, ?_⟩
    have hne : ¬ v'.sameAs v := by
      simp only [Var.sameAs, beq_iff_eq]
      omega
    rw [renewed?_cons_new hnew, Trail.replaceIfChanged, if_neg hne, Trail.replace, hrm, h.remap,
      hid]

/-- What the block leaves. -/
theorem Tracked.block (h : Tracked base t ds ds') {b b' : Block} (hk : b'.kind = b.kind)
    (hvs : List.Forall₂ (fun c c' => c.var.Renews base c'.var) b.bindings b'.bindings)
    (hr : t'.remap = renewed? base ((b'.bindings.map fun c => ⟨c.var, true⟩).reverse ++ ds')) :
    Tracked base t'.tick (b.define ds) (b'.define ds') := by
  constructor
  · refine List.rel_append (List.rel_reverse ?_) h.renews
    rw [List.forall₂_map_left_iff, List.forall₂_map_right_iff]
    exact hvs.imp fun c c' hc => ⟨hc, by rw [hk, hc.dataflow]⟩
  · refine hr.trans (renewed?_congr ?_)
    rw [Block.map_var_define]
    simp [Function.comp_def]

end Definition

section Rewrite

open Definition

variable {base : Nat} {kind : Id → Bool}

mutual

theorem Expr.Rebuilds.remap_eq {p : Pass} {rules : Rules} {t t' : Trail} {e e' : Expr}
    (h : Expr.Rebuilds p rules t e e' t') : Fit kind (e.ops false) → t'.remap = t.remap := by
  match h with
  | .leaf | .var | .shape | .prim =>
    intro _
    rfl
  | .tuple hf hs =>
    intro he
    exact hs.trail_eq.1.trans (hf.trail_eq (Expr.areNormal_of_fits he.mentions)).1
  | .item hw hs =>
    intro he
    exact hs.trail_eq.1.trans (hw.remap_eq he)
  | .call hc ha hs hf =>
    intro he
    rw [hf.trail_eq.1, hs.trail_eq.1, (ha.trail_eq (Expr.areNormal_of_fits he.call.2)).1]
    exact hc.remap_eq he.call.1
  | .ite hc ht hf hs =>
    intro he
    exact hs.trail_eq.1.trans (hc.remap_eq he.ite.1)
  | .seq .. =>
    intro he
    exact absurd he.seq.1 Bool.false_ne_true
  | .function .. =>
    intro _
    rfl

/-- Only in a sequence variables are replaced for what follows. -/
theorem Expr.Becomes.remap_eq {p : Pass} {rules : Rules} {t t' : Trail} {e e' : Expr}
    (h : Expr.Becomes p rules t e e' t') : Fit kind (e.ops false) → t'.remap = t.remap := by
  match h with
  | .mk hr hf =>
    intro he
    exact hf.trail_eq.1.trans (hr.remap_eq he)

end

mutual

theorem Expr.Rebuilds.references {t t' : Trail} {e e' : Expr} {asBody : Bool}
    {ds ds' : List Definition} (hrebuilds : Expr.Rebuilds .normalize .standard t e e' t') :
    Fit kind (e.ops asBody) → Below base e.tags → t.Sound .normalize base kind →
      Tracked base t ds ds' →
      List.Forall₂ (Follows base) (e.references ds) (e'.references ds') := by
  match hrebuilds with
  | .leaf | .shape | .prim =>
    intro _ _ _ _
    exact .nil
  | @Expr.Rebuilds.var _ _ _ v =>
    intro he _ ht hd
    refine .cons ⟨hd.renews, by rw [hd.remap], ?_⟩ .nil
    cases hv : t.remap v.id with
    | none => rfl
    | some w => exact (ht.kind hv).trans (he.cons.1).symm
  | .tuple hf hs =>
    intro he hb ht hd
    have hn := Expr.areNormal_of_fits he.mentions
    have ih := hf.references he.mentions hb.cons.2 ht hd
    cases hs with
    | same h =>
      rw [hf.eq_of_sameAs hn ht hb.cons.2 h] at ih
      exact ih
    | changed => exact ih
  | .item hw hs =>
    intro he hb ht hd
    have ih := hw.references he hb.cons.2 ht hd
    cases hs with
    | same h =>
      rw [hw.eq_of_sameAs ht hb.cons.2 h] at ih
      exact ih
    | changed => exact ih
  | .call hc ha hs hf =>
    intro he hb ht hd
    obtain ⟨hbc, hba⟩ := hb.cons.2.append
    have h1 := hc.sound he.call.1 ht
    have ihc := hc.references he.call.1 hbc ht hd
    have iha := ha.references he.call.2 hba h1 (hd.congr (hc.remap_eq he.call.1))
    cases hf with
    | fused _ _ _ hp => cases hp
    | kept =>
      cases hs with
      | same hsame =>
        rw [Bool.and_eq_true] at hsame
        rw [ha.eq_of_sameAs (Expr.areNormal_of_fits he.call.2) h1 hba hsame.1] at iha
        rw [hc.eq_of_sameAs ht hbc hsame.2] at ihc
        exact List.rel_append ihc iha
      | changed => exact List.rel_append ihc iha
  | .ite hc ht hf hs =>
    intro he hb h hd
    obtain ⟨hec, het, hef⟩ := he.ite
    obtain ⟨hbc, hbt, hbf⟩ := hb.cons.2.append.imp_right Below.append
    have h1 := hc.sound hec h
    have h2 := h1.branch ht.next_le
    have hd1 := hd.congr (hc.remap_eq hec)
    have ihc := hc.references hec hbc h hd
    have iht := ht.references het hbt h1 hd1
    have ihf := hf.references hef hbf h2 (hd1.congr rfl)
    cases hs with
    | same hsame =>
      simp only [Bool.and_eq_true] at hsame
      rw [hc.eq_of_sameAs h hbc hsame.1.1] at ihc
      rw [ht.eq_of_sameAs h1 hbt hsame.1.2] at iht
      rw [hf.eq_of_sameAs h2 hbf hsame.2] at ihf
      exact List.rel_append ihc (List.rel_append iht ihf)
    | changed => exact List.rel_append ihc (List.rel_append iht ihf)
  | .seq hb hy hs =>
    intro he hbl ht hd
    obtain ⟨-, heb, hey⟩ := he.seq
    obtain ⟨hbb, hby⟩ := hbl.cons.2.append
    have h1 := hb.sound heb ht
    obtain ⟨ihb, hd1⟩ := hb.references heb hbb ht hd
    have ihy := hy.references hey hby h1 hd1
    cases hs with
    | same hsame =>
      rw [Bool.and_eq_true] at hsame
      rw [hb.eq_of_sameAs heb ht hbb hsame.1] at ihb ihy
      rw [hy.eq_of_sameAs h1 hby hsame.2] at ihy
      exact List.rel_append ihb ihy
    | changed =>
      rw [Expr.mkSeq, Expr.references, Expr.references, (Block.referencesAll_filter _ _).1,
        (Block.referencesAll_filter _ _).2]
      exact List.rel_append ihb ihy
  | .function hp hb hs =>
    intro he hbl ht hd
    obtain ⟨hbp, hby⟩ := hbl.cons.2.append
    have h1 := ht.defineAll hp
    obtain ⟨hparams, ht1⟩ :=
      Prod.mk.inj (hp.symm.trans (Trail.defineAll_eq Pass.normalize_ne t _))
    have ih := hb.references he.function.2 hby h1 ((hd.params hbp).congr (congrArg _ ht1))
    cases hs with
    | same hsame =>
      rw [Bool.and_eq_true] at hsame
      rw [hb.eq_of_sameAs h1 hby hsame.2] at ih
      exact ih
    | changed =>
      rw [Expr.mkFunction, Expr.references, Expr.references, hparams]
      exact ih

theorem Expr.Becomes.references {t t' : Trail} {e e' : Expr} {asBody : Bool}
    {ds ds' : List Definition} (h : Expr.Becomes .normalize .standard t e e' t') :
    Fit kind (e.ops asBody) → Below base e.tags → t.Sound .normalize base kind →
      Tracked base t ds ds' →
      List.Forall₂ (Follows base) (e.references ds) (e'.references ds') := by
  match h with
  | .mk hr hf =>
    intro he hb ht hd
    rw [hf.references]
    exact hr.references he hb ht hd

theorem Expr.BecomeAll.references {t t' : Trail} {es es' : List Expr}
    {ds ds' : List Definition} (hbecomes : Expr.BecomeAll .normalize .standard t es es' t') :
    (∀ m ∈ Expr.mentionsAll es, m.Fits kind) → Below base (Expr.tagsAll es) →
      t.Sound .normalize base kind → Tracked base t ds ds' →
      List.Forall₂ (Follows base) (Expr.referencesAll ds es) (Expr.referencesAll ds' es') := by
  match hbecomes with
  | .nil =>
    intro _ _ _ _
    exact .nil
  | @Expr.BecomeAll.cons _ _ _ _ _ e _ _ _ he hs =>
    intro h hb ht hd
    obtain ⟨h1, h2⟩ := List.forall_mem_append.mp h
    have hn := (Bool.and_eq_true_iff.mp (Expr.areNormal_of_fits h)).1
    obtain ⟨hr, -⟩ := he.trail_eq hn
    have hfit : Fit kind (e.ops false) := by
      rw [Expr.ops_of_isNormal hn]
      exact List.forall_mem_map.mpr h1
    exact List.rel_append (he.references hfit hb.append.1 ht hd)
      (hs.references h2 hb.append.2 (ht.of_remap hr he.next_le) (hd.congr hr))

theorem Binding.Becomes.references {bk : BlockKind} {t t' : Trail} {b : Binding}
    {out : List Binding} {ds ds' : List Definition}
    (h : Binding.Becomes .normalize .standard bk t b out t') :
    Fit kind b.ops → Below base b.tags → t.Sound .normalize base kind → Tracked base t ds ds' →
      ∃ b', out = [b'] ∧ List.Forall₂ (Follows base) (b.references ds) (b'.references ds') ∧
      Tracked base t' (⟨b.var, true⟩ :: ds) (⟨b'.var, true⟩ :: ds') := by
  match h with
  | .kept hl hy hd hs hk =>
    intro he hb ht hds
    obtain ⟨hbv, hby⟩ := hb.cons.2.cons
    have ih := hy.references he.bind.1 hby ht hds
    rw [Bool.and_eq_true] at hs
    rw [hy.eq_of_sameAs ht hby hs.2] at ih
    rw [Trail.define_eq Pass.normalize_ne] at hd
    cases hd
    refine ⟨_, rfl, ih, ?_⟩
    exact ((hds.congr (hy.remap_eq he.bind.1)).old hbv).congr (Trail.record_remap _ _)
  | .changed hl hy hd hs hr hk =>
    intro he hb ht hds
    obtain ⟨hbv, hby⟩ := hb.cons.2.cons
    have ih := hy.references he.bind.1 hby ht hds
    have h1 := hy.sound he.bind.1 ht
    rw [Trail.define_eq Pass.normalize_ne] at hd
    cases hd
    have hd1 := hds.congr (hy.remap_eq he.bind.1)
    exact ⟨_, rfl, ih, (hd1.retype hbv h1.next hr).congr (Trail.record_remap _ _)⟩
  | .lowered hl .. =>
    intro _ _ _ _
    simp [Pass.lowered?] at hl
  | .keptCast hy hd hs hk =>
    intro he hb ht hds
    obtain ⟨hbv, hby⟩ := hb.cons.2.cons
    have ih := hy.references he.cast.1 hby ht hds
    rw [Bool.and_eq_true] at hs
    rw [hy.eq_of_sameAs ht hby hs.2] at ih
    rw [Trail.define_eq Pass.normalize_ne] at hd
    cases hd
    exact ⟨_, rfl, ih, (hds.congr (hy.remap_eq he.cast.1)).old hbv⟩
  | .changedCast hy hd hs hr hk =>
    intro he hb ht hds
    obtain ⟨hbv, hby⟩ := hb.cons.2.cons
    have ih := hy.references he.cast.1 hby ht hds
    have h1 := hy.sound he.cast.1 ht
    rw [Trail.define_eq Pass.normalize_ne] at hd
    cases hd
    have hd1 := hds.congr (hy.remap_eq he.cast.1)
    exact ⟨_, rfl, ih, (hd1.retype hbv h1.next hr).congr rfl⟩

theorem Binding.BecomeAll.references {bk : BlockKind} {t t' : Trail} {bs out : List Binding}
    {ds ds' : List Definition} (h : Binding.BecomeAll .normalize .standard bk t bs out t') :
    Fit kind (Binding.opsAll bs) → Below base (Binding.tagsAll bs) → t.Sound .normalize base kind →
      Tracked base t ds ds' →
      List.Forall₂ (Follows base) (Binding.referencesAll ds bs) (Binding.referencesAll ds' out) ∧
      List.Forall₂ (fun b b' => b.var.Renews base b'.var) bs out ∧ t'.remap =
      renewed? base ((out.map fun b => ⟨b.var, true⟩).reverse ++ ds') := by
  match h with
  | .nil =>
    intro _ _ _ hd
    exact ⟨.nil, .nil, hd.remap⟩
  | .cons hb hs =>
    intro he hbl ht hd
    obtain ⟨b', rfl, h1, hd1⟩ := hb.references he.append.1 hbl.append.1 ht hd
    obtain ⟨h2, hvs, hr⟩ := hs.references he.append.2 hbl.append.2 (hb.sound he.append.1 ht) hd1
    obtain ⟨hv, -⟩ := List.forall₂_cons.mp hd1.renews
    refine ⟨List.rel_append h1 h2, .cons hv.var hvs, ?_⟩
    simpa using hr

theorem Block.Becomes.references {t t' : Trail} {b b' : Block} {ds ds' : List Definition}
    (h : Block.Becomes .normalize .standard t b b' t') :
    Fit kind b.ops → Below base b.tags → t.Sound .normalize base kind → Tracked base t ds ds' →
      List.Forall₂ (Follows base) (b.references ds) (b'.references ds') ∧
      Tracked base t' (b.define ds) (b'.define ds') := by
  match h with
  | @Block.Becomes.kept _ _ _ _ (.mk ..) _ hb hs =>
    intro he hbl ht hd
    obtain ⟨ih, hvs, hr⟩ := hb.references he.block hbl.cons.2 ht hd
    rw [Bool.and_eq_true] at hs
    rw [hb.eq_of_sameAs he.block ht hbl.cons.2 hs.2] at ih hvs hr
    exact ⟨ih, hd.block rfl hvs hr⟩
  | @Block.Becomes.changed _ _ _ _ (.mk ..) _ hb _ =>
    intro he hbl ht hd
    obtain ⟨ih, hvs, hr⟩ := hb.references he.block hbl.cons.2 ht hd
    exact ⟨ih, hd.block rfl hvs hr⟩

theorem Block.BecomeAll.references {t t' : Trail} {bs bs' : List Block}
    {ds ds' : List Definition} (h : Block.BecomeAll .normalize .standard t bs bs' t') :
    Fit kind (Block.opsAll bs) → Below base (Block.tagsAll bs) → t.Sound .normalize base kind →
      Tracked base t ds ds' →
      List.Forall₂ (Follows base) (Block.referencesAll ds bs) (Block.referencesAll ds' bs') ∧
      Tracked base t' (Block.defineAll ds bs) (Block.defineAll ds' bs') := by
  match h with
  | .nil =>
    intro _ _ _ hd
    exact ⟨.nil, hd⟩
  | .cons hb hs =>
    intro he hbl ht hd
    obtain ⟨h1, hd1⟩ := hb.references he.append.1 hbl.append.1 ht hd
    obtain ⟨h2, hd2⟩ := hs.references he.append.2 hbl.append.2 (hb.sound he.append.1 ht) hd1
    exact ⟨List.rel_append h1 h2, hd2⟩

end

end Rewrite

/-- Of the variables, no two regular ones have the same identity. -/
def Definition.Distinct (vs : List Var) : Prop :=
  ((vs.filter fun v => !v.dataflow).map Var.id).Nodup

/-- The variables are distinct, and the regular ones are in scope. -/
structure Scope.Declares (sc : Scope) (vs : List Var) : Prop where
  mem : ∀ v ∈ vs, v.dataflow = false → v.id ∈ sc.vars
  distinct : Definition.Distinct vs

namespace Scope.Declares

variable {sc sc' : Scope} {vs : List Var}

theorem of_vars (h : sc.Declares vs) (hs : sc'.vars = sc.vars) : sc'.Declares vs := by
  exact ⟨hs.symm ▸ h.mem, h.distinct⟩

theorem define (h : sc.Declares vs) {v : Var} (hd : sc.defineVar v = .ok sc') :
    sc'.Declares (v :: vs) := by
  have hsc := defineVar_ok hd
  cases hv : v.dataflow with
  | true =>
    rw [hv, if_pos rfl] at hsc
    subst hsc
    refine ⟨List.forall_mem_cons.mpr ⟨fun hf => ?_, h.mem⟩, ?_⟩
    · rw [hv] at hf
      cases hf
    · rw [Definition.Distinct, List.filter_cons_of_neg (by simp [hv])]
      exact h.distinct
  | false =>
    rw [hv, if_neg Bool.false_ne_true] at hsc
    subst hsc
    have hnew : v.id ∉ sc.vars := by
      intro hm
      simp [defineVar, hv, hm] at hd
    refine ⟨List.forall_mem_cons.mpr ⟨fun _ => List.mem_cons_self, fun w hw hf =>
      List.mem_cons_of_mem _ (h.mem w hw hf)⟩, ?_⟩
    rw [Definition.Distinct, List.filter_cons_of_pos (by simp [hv]), List.map_cons,
      List.nodup_cons]
    refine ⟨fun hm => hnew ?_, h.distinct⟩
    obtain ⟨w, hw, hid⟩ := List.mem_map.mp hm
    obtain ⟨hw, hf⟩ := List.mem_filter.mp hw
    exact hid ▸ h.mem w hw (by simpa using hf)

theorem params (h : sc.Declares vs) {ps : List Var} (hd : sc.defineParams ps = .ok sc') :
    sc'.Declares (ps.reverse ++ vs) := by
  induction ps generalizing sc vs with
  | nil =>
    cases hd
    exact h
  | cons v ps ih =>
    simp only [defineParams, Except.bind_ok] at hd
    obtain ⟨sc1, h1, h2⟩ := hd
    have hv : sc1.Declares (v :: vs) := by
      have hs : ∀ i, (sc.defineSyms i).Declares vs := fun _ => h.of_vars rfl
      unfold defineParam at h1
      split at h1
      · exact (hs _).define h1
      · exact h.define h1
    simpa using ih hv h2

end Scope.Declares

section Check

open Definition (Distinct)

variable {known : String → Bool}

mutual

theorem Expr.check_distinct {asBody : Bool} {sc sc' : Scope} {ds : List Definition} {e : Expr}
    (h : e.check known asBody sc = .ok sc') (hd : sc.Declares (ds.map Definition.var)) :
    ∀ r ∈ e.references ds, Distinct (r.1.map Definition.var) := by
  cases e with
  | leaf | shape | prim => nofun
  | var v => exact List.forall_mem_singleton.mpr hd.distinct
  | tuple _ fields => exact Expr.checkAll_distinct (check_tuple.mp h).2 hd
  | item _ whole _ =>
    rw [check_item] at h
    exact Expr.check_distinct (e := whole) h hd
  | call _ callee args _ _ =>
    obtain ⟨-, sc1, h1, -, h2⟩ := check_call.mp h
    exact List.forall_mem_append.mpr ⟨Expr.check_distinct h1 hd,
      Expr.checkAll_distinct h2 (hd.of_vars (Expr.check_vars h1))⟩
  | ite _ cond onTrue onFalse =>
    obtain ⟨-, sc1, after, sc2, h1, h2, h3, -⟩ := check_ite.mp h
    have hd1 := hd.of_vars (Expr.check_vars h1)
    exact List.forall_mem_append.mpr ⟨Expr.check_distinct h1 hd, List.forall_mem_append.mpr
      ⟨Expr.check_distinct h2 hd1, Expr.check_distinct h3 (hd1.of_vars rfl)⟩⟩
  | seq _ blocks body =>
    obtain ⟨-, sc1, h1, h2⟩ := check_seq.mp h
    obtain ⟨hb, hd1⟩ := Block.checkAll_distinct h1 hd
    exact List.forall_mem_append.mpr ⟨hb, Expr.check_distinct h2 hd1⟩
  | function _ params body _ _ =>
    obtain ⟨sc1, sc2, h1, h2, -, -⟩ := check_function.mp h
    refine Expr.check_distinct (e := body) h2 ?_
    simpa [Function.comp_def] using hd.params h1

theorem Expr.checkAll_distinct {sc sc' : Scope} {ds : List Definition} {es : List Expr}
    (h : Expr.checkAll known sc es = .ok sc') (hd : sc.Declares (ds.map Definition.var)) :
    ∀ r ∈ Expr.referencesAll ds es, Distinct (r.1.map Definition.var) := by
  cases es with
  | nil => nofun
  | cons e es =>
    obtain ⟨sc1, h1, h2⟩ := checkAll_cons.mp h
    exact List.forall_mem_append.mpr ⟨Expr.check_distinct h1 hd,
      Expr.checkAll_distinct h2 (hd.of_vars (Expr.check_vars h1))⟩

theorem Binding.check_distinct {sc sc' : Scope} {ds : List Definition} {b : Binding}
    (h : b.check known sc = .ok sc') (hd : sc.Declares (ds.map Definition.var)) :
    (∀ r ∈ b.references ds, Distinct (r.1.map Definition.var)) ∧
      sc'.Declares (b.var :: ds.map Definition.var) := by
  cases b with
  | bind _ v value =>
    obtain ⟨sc1, h1, h2⟩ := check_bind.mp h
    exact ⟨Expr.check_distinct h1 hd, (hd.of_vars (Expr.check_vars h1)).define h2⟩
  | cast _ v value sinfo =>
    obtain ⟨sc1, h1, h2⟩ := check_cast.mp h
    have hd1 := hd.of_vars (Expr.check_vars h1)
    have hd2 : (sc1.defineSyms sinfo).Declares (ds.map Definition.var) := hd1.of_vars rfl
    exact ⟨Expr.check_distinct h1 hd, hd2.define h2⟩

theorem Binding.checkAll_distinct {sc sc' : Scope} {ds : List Definition} {bs : List Binding}
    (h : Binding.checkAll known sc bs = .ok sc') (hd : sc.Declares (ds.map Definition.var)) :
    (∀ r ∈ Binding.referencesAll ds bs, Distinct (r.1.map Definition.var)) ∧
      sc'.Declares ((bs.map Binding.var).reverse ++ ds.map Definition.var) := by
  cases bs with
  | nil =>
    cases h
    exact ⟨nofun, hd⟩
  | cons b bs =>
    obtain ⟨sc1, h1, h2⟩ := binding_checkAll_cons.mp h
    obtain ⟨hb, hd1⟩ := Binding.check_distinct h1 hd
    have hd1 : sc1.Declares ((⟨b.var, true⟩ :: ds : List Definition).map Definition.var) := hd1
    obtain ⟨hbs, hd2⟩ := Binding.checkAll_distinct h2 hd1
    exact ⟨List.forall_mem_append.mpr ⟨hb, hbs⟩, by simpa using hd2⟩

theorem Block.check_distinct {sc sc' : Scope} {ds : List Definition} {b : Block} :
    b.check known sc = .ok sc' → sc.Declares (ds.map Definition.var) →
      (∀ r ∈ b.references ds, Distinct (r.1.map Definition.var)) ∧
      sc'.Declares ((b.define ds).map Definition.var) := by
  match b with
  | .mk _ .plain bindings =>
    intro h hd
    rw [Block.map_var_define]
    exact Binding.checkAll_distinct h hd
  | .mk _ .dataflow bindings =>
    intro h hd
    obtain ⟨sc1, h1, rfl⟩ := check_dataflow.mp h
    obtain ⟨hb, hd1⟩ := Binding.checkAll_distinct h1 (hd.of_vars rfl)
    rw [Block.map_var_define]
    exact ⟨hb, hd1.of_vars rfl⟩

theorem Block.checkAll_distinct {sc sc' : Scope} {ds : List Definition} {bs : List Block}
    (h : Block.checkAll known sc bs = .ok sc') (hd : sc.Declares (ds.map Definition.var)) :
    (∀ r ∈ Block.referencesAll ds bs, Distinct (r.1.map Definition.var)) ∧
      sc'.Declares ((Block.defineAll ds bs).map Definition.var) := by
  cases bs with
  | nil =>
    cases h
    exact ⟨nofun, hd⟩
  | cons b bs =>
    obtain ⟨sc1, h1, h2⟩ := block_checkAll_cons.mp h
    obtain ⟨hb, hd1⟩ := Block.check_distinct h1 hd
    obtain ⟨hbs, hd2⟩ := Block.checkAll_distinct h2 hd1
    exact ⟨List.forall_mem_append.mpr ⟨hb, hbs⟩, hd2⟩

end

end Check

namespace Definition

variable {base : Nat} {ds ds' : List Definition}

private theorem find?_renews (h : List.Forall₂ (Renews base) ds ds') {id : Id} {v : Var}
    (hv : find? ds id = some v) : ∃ w, find? ds' id = some w ∧ v.Renews base w := by
  induction h with
  | nil => cases hv
  | @cons d d' _ _ hd _ ih =>
    rw [find?, List.find?_cons] at hv ⊢
    rw [hd.live, hd.var.id]
    cases hb : d.live && d.var.id == id with
    | false =>
      rw [hb] at hv
      exact ih hv
    | true =>
      rw [hb] at hv
      cases hv
      exact ⟨d'.var, rfl, hd.var⟩

private theorem mem_of_find? {id : Id} {v : Var} (h : find? ds id = some v) :
    v ∈ ds.map Definition.var ∧ v.id = id := by
  obtain ⟨d, hd, rfl⟩ := Option.map_eq_some_iff.mp h
  have hid := List.find?_some hd
  rw [Bool.and_eq_true, beq_iff_eq] at hid
  exact ⟨List.mem_map_of_mem (List.mem_of_find?_eq_some hd), hid.2⟩

private theorem mem_of_renewed? {id : Id} {v : Var} (h : renewed? base ds id = some v) :
    v ∈ ds.map Definition.var ∧ v.id = id := by
  have hid := List.find?_some h
  rw [Bool.and_eq_true, beq_iff_eq] at hid
  exact ⟨List.mem_of_find?_eq_some h, hid.1⟩

/-- A variable that is in scope and new has been put in the place of another. -/
private theorem renewed?_ne_none {id : Id} {v : Var} (h : find? ds id = some v)
    (hn : base ≤ v.tag) :
    renewed? base ds id ≠ none := by
  obtain ⟨hm, rfl⟩ := mem_of_find? h
  intro hnone
  rw [renewed?, List.find?_eq_none] at hnone
  simpa [hn] using hnone v hm

theorem Distinct.renews (h : List.Forall₂ (Renews base) ds ds')
    (hd : Distinct (ds.map Definition.var)) : Distinct (ds'.map Definition.var) := by
  have heq : ((ds'.map Definition.var).filter fun v => !v.dataflow).map Var.id =
      ((ds.map Definition.var).filter fun v => !v.dataflow).map Var.id := by
    clear hd
    induction h with
    | nil => rfl
    | @cons d d' _ _ hd _ ih =>
      rw [List.map_cons, List.map_cons, List.filter_cons, List.filter_cons, hd.var.dataflow]
      split
      · rw [List.map_cons, List.map_cons, hd.var.id, ih]
      · exact ih
  rw [Distinct, heq]
  exact hd

theorem Distinct.eq {vs : List Var} (h : Distinct vs) {v w : Var} (hv : v ∈ vs) (hw : w ∈ vs)
    (hdv : v.dataflow = false) (hdw : w.dataflow = false) (hid : v.id = w.id) : v = w := by
  refine List.inj_on_of_nodup_map h ?_ ?_ hid
  · exact List.mem_filter.mpr ⟨hv, by simp [hdv]⟩
  · exact List.mem_filter.mpr ⟨hw, by simp [hdw]⟩

/-- A use of a definition is one after the pass if the replacement is the definition in scope. -/
theorem Follows.refers_iff {r r' : List Definition × Var} (h : Follows base r r')
    (hr : find? r.1 r.2.id = some r.2) (hd : Distinct (r.1.map Definition.var)) :
    find? r'.1 r'.2.id = some r'.2 ↔
      (r'.2.dataflow → ∀ v ∈ renewed? base r'.1 r'.2.id, find? r'.1 r'.2.id = some v) := by
  obtain ⟨w, hw, hrw⟩ := find?_renews h.renews hr
  have hvar := h.var
  cases hn : renewed? base r'.1 r.2.id with
  | none =>
    rw [hn, Option.getD_none] at hvar
    rw [hvar, hn]
    have hold : w = r.2 := by
      obtain ⟨rfl, -⟩ | hnew := hrw.eq_or_new
      · rfl
      · exact absurd hn (renewed?_ne_none hw hnew)
    exact iff_of_true (hold ▸ hw) fun _ => nofun
  | some v =>
    rw [hn, Option.getD_some] at hvar
    obtain ⟨hm, hid⟩ := mem_of_renewed? hn
    simp only [hvar, hid, hn, Option.mem_some_iff, forall_eq']
    constructor
    · exact fun hf _ => hf
    · intro hf
      cases hv : v.dataflow with
      | true => exact hf hv
      | false =>
        have hdw : w.dataflow = false := by rw [hrw.dataflow, ← h.dataflow, hvar, hv]
        obtain ⟨hmw, hidw⟩ := mem_of_find? hw
        rw [hw, (hd.renews h.renews).eq hmw hm hdw hv (hidw.trans hid.symm)]

end Definition

theorem Function.Becomes.refers_iff {next : Nat} {f f' : Function} {kind : Id → Bool}
    {known : String → Bool} {sc : Scope} (h : Function.Becomes .normalize next f f')
    (hf : Fit kind f.ops) (hb : Below next f.toExpr.tags)
    (hc : f.toExpr.check known false .empty = .ok sc) (hr : f.Refers) :
    f'.Refers ↔ f'.Current next := by
  have hfollows : List.Forall₂ (Definition.Follows next) f.references f'.references := by
    have hd : ∀ n, Definition.Tracked next (.empty n) [] [] := fun _ => ⟨.nil, rfl⟩
    cases h with
    | same hn hy hs =>
      have ht := Trail.Sound.empty .normalize kind hn
      have h := hy.references hf hb ht (hd _)
      rw [hy.eq_of_sameAs ht hb hs] at h
      exact h
    | changed hn hy hs => exact hy.references hf hb (Trail.Sound.empty .normalize kind hn) (hd _)
  have hdistinct : ∀ r ∈ f.references, Definition.Distinct (r.1.map Definition.var) :=
    Expr.check_distinct hc ⟨nofun, List.nodup_nil⟩
  unfold Function.Refers Function.Current
  unfold Function.Refers at hr
  generalize f.references = rs at hfollows hdistinct hr
  generalize f'.references = rs' at hfollows
  induction hfollows with
  | nil => simp
  | cons hf _ ih =>
    rw [List.forall_mem_cons] at hr hdistinct
    rw [List.forall_mem_cons, List.forall_mem_cons]
    exact and_congr (hf.refers_iff hr.1 hdistinct.1) (ih hdistinct.2 hr.2)

/-- Where every use in a well-formed module is one of the definition in scope, and every variable is
of one kind, the same holds after normalizing exactly where at each use of a dataflow variable the
definition in scope is the one that was renewed last, if any of its identity was. Uses of regular
variables are always right. -/
theorem normalize_refers_iff {m m' : Module} {w w' : World} (hwf : m.wellFormed = .ok ())
    (hr : ∀ e ∈ m.toList, e.2.Refers) (hk : ∀ e ∈ m.toList, e.2.OneKind)
    (hb : Below w.next m.tags)
    (h : (Pass.normalize.apply m).exec w = (.ok (some m'), w')) :
    (∀ e ∈ m'.toList, e.2.Refers) ↔ ∀ e ∈ m'.toList, e.2.Current w.next := by
  have hiff : ∀ e ∈ m'.toList, e.2.Refers ↔ e.2.Current w.next := by
    refine ((Pass.apply_becomes h).forall_iff (P := fun _ => True)
      (Q := fun f => f.Refers ↔ f.Current w.next) ?_).mpr fun _ _ => trivial
    intro g f f' hm hf
    obtain ⟨sc, hrun⟩ := Module.wellFormed_iff_run.mp hwf (g, f) hm
    obtain ⟨kind, hfit⟩ := (hk (g, f) hm).fit hrun
    obtain ⟨sc, hc⟩ := Module.wellFormed_ok.mp hwf (g, f) hm
    have htags : Below w.next f.toExpr.tags := by
      intro tag ht
      exact hb tag (List.mem_flatMap.mpr ⟨_, hm, ht⟩)
    exact iff_true_intro (hf.refers_iff hfit htags hc (hr (g, f) hm))
  exact forall₂_congr hiff

namespace Renewed

def named (index : Nat) (name : String) (dataflow : Bool) : Var :=
  ⟨⟨⟨index, none⟩, none⟩, ⟨index, name⟩, dataflow⟩

def x : Var := named 0 "x" false

def l : Var := named 1 "l" true

def g : Var := named 2 "g" false

def h : Var := named 3 "h" false

/-- A dataflow variable with the identity of `g`. -/
def again : Var :=
  ⟨⟨⟨4, none⟩, none⟩, g.id, true⟩

def pair : Expr :=
  .tuple ⟨⟨10, none⟩, none⟩ [.var x]

def module (blocks : List Block) (result : Var) : Module :=
  (Module.empty.add 30 "main" ⟨⟨⟨29, none⟩, none⟩, [x],
    .mkSeq ⟨28, none⟩ blocks (.var result), .object, .empty⟩).2

def world : World := ⟨31, []⟩

/-- `l` gets the struct info of the tuple. -/
def once : Module :=
  module [.mk ⟨11, none⟩ .dataflow [.bind ⟨12, none⟩ l pair, .bind ⟨13, none⟩ g (.var l)]] g

/-- `l` is bound again in another block, where it stays as it is. -/
def stale : Module :=
  module [.mk ⟨11, none⟩ .dataflow [.bind ⟨12, none⟩ l pair, .bind ⟨13, none⟩ g (.var x)],
    .mk ⟨14, none⟩ .dataflow [.bind ⟨15, none⟩ l (.var x), .bind ⟨16, none⟩ h (.var l)]] h

/-- `g` is used after `again` is bound. -/
def shared : Module :=
  module [.mk ⟨11, none⟩ .plain [.bind ⟨12, none⟩ g (.var x)],
    .mk ⟨14, none⟩ .dataflow [.bind ⟨15, none⟩ again pair]] g

/-- The uses are those of the definitions before the pass and not after it. -/
def Loses (m : Module) : Prop :=
  m.wellFormed = .ok () ∧ (∀ e ∈ m.toList, e.2.Refers) ∧
    ∃ m' w', (Pass.normalize.apply m).exec world = (.ok (some m'), w') ∧
      ¬ ∀ e ∈ m'.toList, e.2.Refers

theorem Loses.of_changedModule? {m : Module} (hwf : m.wellFormed = .ok ())
    (hr : ∀ e ∈ m.toList, e.2.Refers)
    (h : (Pass.normalize.changedModule? m world).any fun m' =>
      !m'.toList.all fun e => decide e.2.Refers) : Loses m := by
  obtain ⟨m', hm, hn⟩ := (Option.any_eq_true _ _).mp h
  refine ⟨hwf, hr, m', _, Pass.apply_of_changedModule? hm, ?_⟩
  simpa using hn

end Renewed

open Renewed in
theorem normalize_refers_once : (∀ e ∈ once.toList, e.2.Refers) ∧ ∃ m' w',
    (Pass.normalize.apply once).exec world = (.ok (some m'), w') ∧
      ∀ e ∈ m'.toList, e.2.Refers := by
  have hs : (Pass.normalize.changedModule? once world).any fun m' =>
      m'.toList.all fun e => decide (e.2.Current world.next) := by decide +kernel
  obtain ⟨m', hm, hc⟩ := (Option.any_eq_true _ _).mp hs
  have h := Pass.apply_of_changedModule? hm
  have hr : ∀ e ∈ once.toList, e.2.Refers := by decide +kernel
  have hk : ∀ e ∈ once.toList, e.2.OneKind := by decide +kernel
  have hb : Below world.next once.tags := by decide +kernel
  simp only [List.all_eq_true, decide_eq_true_eq] at hc
  exact ⟨hr, m', _, h, (normalize_refers_iff rfl hr hk hb h).mpr hc⟩

open Renewed in
/-- A dataflow variable that is bound again and stays as it is, and a regular one of the identity of
a dataflow variable: their uses become uses of what took the place of another definition. -/
theorem normalize_loses_references : Loses stale ∧ Loses shared := by
  refine ⟨.of_changedModule? rfl ?_ ?_, .of_changedModule? rfl ?_ ?_⟩
  · decide +kernel
  · decide +kernel
  · decide +kernel
  · decide +kernel

end DataflowIR
