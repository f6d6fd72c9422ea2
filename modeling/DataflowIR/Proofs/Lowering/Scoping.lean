import DataflowIR.Proofs.Lowering.Regular

namespace DataflowIR

open Scope (Mention Op Walk Lowers Lowering Fit)

/-- The dataflow variables that are replaced. -/
def Trail.replaced (kind : Id → Bool) (t : Trail) : Id → Bool :=
  fun id => kind id && (t.remap id).isSome

def Trail.lowering (kind : Id → Bool) (saved : List (Id → Bool)) (t : Trail) : Lowering :=
  ⟨t.replaced kind, saved, [], t.next⟩

variable {base : Nat} {kind : Id → Bool} {saved : List (Id → Bool)}

theorem Trail.replaced_congr {t t' : Trail} (h : t'.remap = t.remap) :
    t'.replaced kind = t.replaced kind := by
  funext id
  rw [replaced, replaced, h]

theorem Scope.Lowers.settle {t t' : Trail} {s : Lowering} {ops ops' : List Op}
    (h : Lowers kind s ops ops' (t.lowering kind saved)) (hr : t'.replaced kind = t.replaced kind)
    (hn : t.next ≤ t'.next) : Lowers kind s ops ops' (t'.lowering kind saved) := by
  have h := h.later (show (t.lowering kind saved).next ≤ t'.next from hn)
  rwa [Trail.lowering, hr]

theorem Scope.Lowers.of_remap {t t' : Trail} {s : Lowering} {ops ops' : List Op}
    (h : Lowers kind s ops ops' (t.lowering kind saved)) (hr : t'.remap = t.remap)
    (hn : t.next ≤ t'.next) : Lowers kind s ops ops' (t'.lowering kind saved) :=
  h.settle (Trail.replaced_congr hr) hn

theorem Trail.Sound.mention_under {t : Trail} (ht : t.Sound .explicitMemory base kind) {m : Mention}
    (hm : m.Fits kind) : t.mention m = m.under kind (t.replaced kind) := by
  cases m with
  | var id dataflow =>
    obtain rfl := show dataflow = kind id from hm
    cases hv : t.remap id with
    | none => simp [Trail.mention, Mention.under, Trail.replaced, hv]
    | some w =>
      have hk := ht.kind hv
      simp [Trail.mention, Mention.under, Trail.replaced, hv, hk, Pass.kindAfter]
  | _ => rfl

/-- A definition replaces the variable if it is a dataflow variable. -/
private theorem Trail.replaced_define {t t' : Trail} {v v' : Var} (hk : v.dataflow = kind v.id)
    (hd : t.define .explicitMemory v = (v', t')) :
    t'.replaced kind = fun id => t.replaced kind id || (decide (id = v.id) && kind v.id) := by
  funext id
  unfold Trail.define at hd
  split at hd
  · next hp =>
    cases hd
    by_cases hid : id = v.id
    · subst hid
      simp [Trail.replaced, Trail.replace, ← hk, hp.2]
    · simp [Trail.replaced, Trail.replace, hid]
  · next hp =>
    cases hd
    simp only [true_and, Bool.not_eq_true] at hp
    simp [← hk, hp]

private theorem Trail.replaced_replaceIfChanged {t : Trail} {v v' : Var}
    (h : kind v.id → t.replaced kind v.id) :
    (t.replaceIfChanged v v').replaced kind = t.replaced kind := by
  funext id
  unfold Trail.replaceIfChanged
  split
  · rfl
  · by_cases hid : id = v.id
    · subst hid
      cases hk : kind v.id with
      | false => simp [Trail.replaced, hk]
      | true =>
        rw [h hk]
        simp [Trail.replaced, Trail.replace, hk]
    · simp [Trail.replaced, Trail.replace, hid]

/-- The variable is regular after the rewrite. -/
theorem Trail.Sound.lowers_define {t t' : Trail} (ht : t.Sound .explicitMemory base kind)
    (saved : List (Id → Bool)) {v v' : Var} (hk : v.dataflow = kind v.id)
    (hd : t.define .explicitMemory v = (v', t')) :
    Lowers kind (t.lowering kind saved) [.define v.id false] [.define v'.id v'.dataflow]
      (t'.lowering kind saved) := by
  obtain ⟨-, hid, hkind, -, -⟩ := ht.define hd
  rw [hid, hkind, Pass.kindAfter, if_pos rfl, Trail.lowering, Trail.lowering,
    Trail.replaced_define hk hd]
  exact (Lowers.define v.id .nil).later (Trail.define_next_le hd)

theorem Trail.Sound.lowers_binding {t t1 t2 : Trail} (ht : t.Sound .explicitMemory base kind)
    (saved : List (Id → Bool)) {v v1 v' : Var} {sinfo : Option StructInfo}
    (hk : v.dataflow = kind v.id) (hd : t.define .explicitMemory v = (v1, t1))
    (hr : t1.retype v1 sinfo = (v', t2)) :
    Lowers kind (t.lowering kind saved) [.define v.id false] [.define v'.id v'.dataflow]
      ((t2.replaceIfChanged v v').lowering kind saved) := by
  obtain ⟨hid, hdf, -, hrm, -⟩ := Trail.retype_eq hr
  have hrep : t2.replaced kind = t1.replaced kind := Trail.replaced_congr hrm
  have h := ht.lowers_define saved hk hd
  rw [← hid, ← hdf] at h
  refine h.settle ?_ ?_
  · rw [Trail.replaced_replaceIfChanged, hrep]
    intro hkv
    rw [hrep, Trail.replaced_define hk hd, hkv]
    simp
  · rw [Trail.replaceIfChanged_next]
    exact Trail.retype_next_le hr

private theorem Trail.Sound.lowers_params {t t' : Trail} (ht : t.Sound .explicitMemory base kind)
    (saved : List (Id → Bool)) {vs vs' : List Var} (hk : ∀ v ∈ vs, v.dataflow = kind v.id)
    (hd : t.defineAll .explicitMemory vs = (vs', t')) :
    Lowers kind (t.lowering kind saved) ((vs.map Var.regular).flatMap Var.paramOps)
      (vs'.flatMap Var.paramOps) (t'.lowering kind saved) := by
  induction vs generalizing t vs' with
  | nil =>
    cases hd
    exact .nil
  | cons v vs ih =>
    cases hv : t.define .explicitMemory v with
    | mk v' t1 =>
      cases hvs : t1.defineAll .explicitMemory vs with
      | mk ws t2 =>
        simp only [Trail.defineAll, hv, hvs] at hd
        cases hd
        obtain ⟨hkv, hk⟩ := List.forall_mem_cons.mp hk
        obtain ⟨h1, -, -, hs, -⟩ := ht.define hv
        have h := (ht.lowers_define saved hkv hv).append (ih h1 hk hvs)
        rw [List.map_cons, List.flatMap_cons, List.flatMap_cons, Var.paramOps, Var.paramOps, hs]
        exact .introduce _ h

/-- What normal expressions mention after the rewrite. -/
theorem Expr.BecomeAll.lowers {t t' : Trail} {es es' : List Expr}
    (h : Expr.BecomeAll .explicitMemory .standard t es es' t') (saved : List (Id → Bool))
    (he : ∀ m ∈ Expr.mentionsAll es, m.Fits kind) (hb : Below base (Expr.tagsAll es))
    (ht : t.Sound .explicitMemory base kind) :
    Lowers kind (t.lowering kind saved)
      ((Expr.mentionsAll (Expr.regularAll es)).map .mention) ((Expr.mentionsAll es').map .mention)
      (t'.lowering kind saved) := by
  rw [h.mentions he hb ht, Expr.mentionsAll_regularAll,
    List.map_congr_left fun m hm => ht.mention_under (he m hm)]
  exact (Lowers.mentions _).of_remap (h.trail_eq (Expr.areNormal_of_fits he)).1 h.next_le

private theorem Block.opsAll_filter {bs : List Block} (h : ∀ b ∈ bs, b.kind = .plain) :
    Block.opsAll (bs.filter fun b => !b.bindings.isEmpty) = Block.opsAll bs := by
  induction bs with
  | nil => rfl
  | cons b bs ih =>
    obtain ⟨hb, hbs⟩ := List.forall_mem_cons.mp h
    obtain ⟨mark, bk, bindings⟩ := b
    obtain rfl := show bk = .plain from hb
    cases bindings with
    | nil =>
      rw [List.filter_cons_of_neg (by simp [Block.bindings]), ih hbs]
      rfl
    | cons =>
      rw [List.filter_cons_of_pos (by simp [Block.bindings]), Block.opsAll, Block.opsAll, ih hbs]

theorem Block.BecomeAll.plain {rules : Rules} {t t' : Trail} {bs bs' : List Block}
    (h : Block.BecomeAll .explicitMemory rules t bs bs' t') : ∀ b ∈ bs', b.kind = .plain := by
  induction bs generalizing t bs' with
  | nil =>
    cases h
    exact nofun
  | cons b bs ih =>
    cases h with
    | cons hb hs =>
      refine List.forall_mem_cons.mpr ⟨?_, ih hs⟩
      cases hb with
      | kept _ hkind =>
        rw [Bool.and_eq_true, decide_eq_true_eq] at hkind
        exact hkind.1.symm
      | changed => rfl

/-- A variable is regular after the rewrite where a regular one took its place. -/
private theorem Trail.Sound.lowers_var {t : Trail} (ht : t.Sound .explicitMemory base kind)
    (saved : List (Id → Bool)) {v : Var} (hk : v.dataflow = kind v.id) {asBody : Bool} :
    Lowers kind (t.lowering kind saved) ((Expr.var v).regular.ops asBody)
      ((Expr.var ((t.remap v.id).getD v)).ops asBody) (t.lowering kind saved) := by
  have h : (Expr.var ((t.remap v.id).getD v)).ops asBody =
      [.mention (t.mention (.var v.id v.dataflow))] := by
    cases hv : t.remap v.id with
    | none => simp [Expr.ops, Trail.mention, hv]
    | some w => simp [Expr.ops, Trail.mention, hv, ht.id hv]
  rw [h, ht.mention_under (m := .var v.id v.dataflow) hk]
  exact .mention (.var v.id v.dataflow) .nil

/-- A new variable is regular, and not one that was there before. -/
theorem Emits.ops {t t' : Trail} {value : Expr} {v : Var} {b : Binding}
    (h : Emits .standard t value v b t') :
    (∃ factors, b.ops = value.ops false ++ [.define v.id false, .record v.id factors]) ∧
      v.dataflow = false ∧ t.next ≤ v.id.index ∧ v.id.index < t'.next ∧ t'.remap = t.remap := by
  cases h with
  | @mk value' t1 v name hf hv =>
    have hn := hf.next_le
    have hops : value'.ops false = value.ops false := by
      cases hf with
      | kept => rfl
      | filled => rw [Expr.withSinfo, Expr.ops_withNode]
    subst hv
    refine ⟨⟨_, by rw [Binding.ops, hops]; rfl⟩, rfl, ?_, ?_, ?_⟩
    · simp only [Var.make]
      omega
    · simp only [Var.make, Trail.record_next, Trail.tick_next]
      omega
    · simp [hf.trail_eq.1]

private theorem Expr.mentions_fields (e : Expr) :
    Expr.mentionsAll (e.asTuple?.getD [e]) = e.mentions := by
  cases e with
  | tuple => rfl
  | _ => exact List.append_nil _

private theorem Call.idle_sinfoOp (node : Node) (callee : Expr) (args : List Expr)
    (attrs : Option Attrs) :
    (Call.mk node callee args attrs []).sinfoOp.Idle := by
  unfold Call.sinfoOp
  split <;> rfl

private theorem allocation_ops (tag : Nat) (shape : Expr) (out : StructInfo) :
    (allocation tag shape out).ops false =
      .mention (.syms ([out].flatMap StructInfo.syms)) :: shape.mentions.map .mention := by
  have h : (Expr.mentionsAll [shape]) = shape.mentions := List.append_nil _
  rw [← h]
  rfl

/-- An allocation, a call and an alias. -/
private theorem lowered_ops {t t' t1 t1' : Trail} {tag : Nat} {mark : Mark} {shape f packed : Expr}
    {out : StructInfo} {alloc called : Var} {allocBinding callBinding : Binding}
    (hal : Emits .standard t (allocation tag shape out) alloc allocBinding t')
    (hca : Emits .standard t1
      (.mkCall mark f (packed.asTuple?.getD [packed] ++ [.var alloc]) none [])
      called callBinding t1')
    (hf : f.isNormal) (aliasMark : Mark) (v : Var) :
    ∃ note note' idle : Op, note.Idle ∧ note'.Idle ∧ idle.Idle ∧
      Binding.opsAll [allocBinding, callBinding, .bind aliasMark v (.var alloc)] =
        (.syms ([out].flatMap StructInfo.syms) :: shape.mentions).map .mention ++
          .define alloc.id false :: note :: (f.mentions.map .mention ++ idle ::
            (packed.mentions.map .mention ++ .mention (.var alloc.id false) ::
              .define called.id false :: note' :: .mention (.var alloc.id false) ::
                [.define v.id v.dataflow, .record v.id (Expr.var alloc).factorMentions?])) := by
  obtain ⟨⟨fs, hops⟩, hk, -⟩ := hal.ops
  obtain ⟨⟨fs', hops'⟩, -⟩ := hca.ops
  refine ⟨.record alloc.id fs, .record called.id fs', _, trivial, trivial,
    Call.idle_sinfoOp ⟨mark, none⟩ f (packed.asTuple?.getD [packed] ++ [.var alloc]) none, ?_⟩
  have hargs : Expr.mentionsAll (packed.asTuple?.getD [packed] ++ [.var alloc]) =
      packed.mentions ++ [.var alloc.id false] := by
    rw [Expr.mentionsAll_append, Expr.mentions_fields, ← hk]
    rfl
  rw [Binding.opsAll, Binding.opsAll, Binding.opsAll_singleton, hops, hops', allocation_ops,
    Expr.mkCall, Expr.ops, hargs, Expr.ops_of_isNormal hf, Binding.ops, Expr.ops, hk]
  simp

/-- A call that is lowered is an allocation, a call and the binding of the variable. -/
private theorem lowers_call (saved : List (Id → Bool)) {t t1 t2 t3 t4 t5 t6 t7 : Trail}
    {mark : Mark}
    {v v1 v' alloc called : Var} {value shape shape' f f' packed packed' : Expr} {out : StructInfo}
    {allocBinding callBinding : Binding}
    (hl : Pass.explicitMemory.lowered? v value = some (out, shape, f, packed))
    (hsh : Expr.Becomes .explicitMemory .standard t shape shape' t1)
    (hf : Expr.Becomes .explicitMemory .standard t1 f f' t2)
    (hpa : Expr.Becomes .explicitMemory .standard t2 packed packed' t3)
    (hal : Emits .standard t3.tick.tick (allocation t3.next shape' out) alloc allocBinding t4)
    (hca : Emits .standard t4.tick
      (.mkCall ⟨t4.next, none⟩ f' (packed'.asTuple?.getD [packed'] ++ [.var alloc]) none [])
      called callBinding t5)
    (hd : t5.define .explicitMemory v = (v1, t6)) (hr : t6.retype v1 (some out) = (v', t7))
    (he : Fit kind (Binding.bind mark v value).ops)
    (hb : Below base (Binding.bind mark v value).tags) (ht : t.Sound .explicitMemory base kind) :
    Lowers kind (t.lowering kind saved) (Binding.bind mark v value).regular.ops
      (Binding.opsAll [allocBinding, callBinding, .bind ⟨t7.next, mark.span⟩ v' (.var alloc)])
      ((t7.replaceIfChanged v v').lowering kind saved) := by
  obtain ⟨-, c, hc, hdp, rfl⟩ := Pass.lowered?_eq hl
  obtain rfl := Expr.eq_toExpr_of_asCall? hc
  obtain ⟨hargs, opNode, hcallee⟩ := Transformer.destinationPassing?_eq hdp
  obtain ⟨node, callee, args, attrs, sinfoArgs⟩ := c
  obtain rfl := show args = _ from hargs
  obtain rfl := show callee = _ from hcallee
  -- The operands are normal: nothing is replaced on the way to the allocation.
  obtain ⟨hm1, hm⟩ := List.forall_mem_append.mp he.bind.1.call.2
  obtain ⟨hm2, hm⟩ := List.forall_mem_append.mp hm
  obtain ⟨hm3, -⟩ := List.forall_mem_append.mp hm
  have hn := Expr.areNormal_of_fits he.bind.1.call.2
  simp only [Expr.areNormal, Bool.and_eq_true] at hn
  obtain ⟨hn1, hn2, hn3, -⟩ := hn
  obtain ⟨hb1, hb2, hb3⟩ : Below base shape.tags ∧ Below base f.tags ∧ Below base packed.tags := by
    have h := hb.cons.2.cons.2.cons.2.append.2.append
    exact ⟨h.1, h.2.append.1, h.2.append.2.append.1⟩
  have hr1 := (hsh.trail_eq hn1).1
  have hr2 := (hf.trail_eq hn2).1.trans hr1
  have hr3 := (hpa.trail_eq hn3).1.trans hr2
  have ht1 := ht.of_remap hr1 hsh.next_le
  have ht2 := ht1.of_remap (hf.trail_eq hn2).1 hf.next_le
  have ht3 := ht2.of_remap (hpa.trail_eq hn3).1 hpa.next_le
  have ht5 := (ht3.tick.tick.emits hal).tick.emits hca
  have hunder : ∀ {t' : Trail} {ms : List Mention}, t'.remap = t.remap →
      (∀ m ∈ ms, m.Fits kind) → ms.map t'.mention = ms.map (Mention.under kind (t.replaced kind)) :=
    fun hr hm => by
      rw [Trail.mention_congr hr]
      exact List.map_congr_left fun m h => ht.mention_under (hm m h)
  have hs1 := (hsh.mentions hm1 hb1 ht).trans (hunder rfl hm1)
  have hs2 := (hf.mentions hm2 hb2 ht1).trans (hunder hr1 hm2)
  have hs3 := (hpa.mentions hm3 hb3 ht2).trans (hunder hr2 hm3)
  obtain ⟨-, -, hale, halt, har⟩ := hal.ops
  obtain ⟨-, -, hcle, hclt, hcr⟩ := hca.ops
  obtain ⟨note, note', idle, hnote, hnote', hidle, hops⟩ :=
    lowered_ops hal hca (hf.isNormal hn2) ⟨t7.next, mark.span⟩ v'
  have hr5 : t5.remap = t.remap := by
    rw [hcr, Trail.tick_remap, har, Trail.tick_remap, Trail.tick_remap, hr3]
  have hend := ht5.lowers_binding saved he.bind.2 hd hr
  rw [Trail.lowering, Trail.replaced_congr hr5] at hend
  have hn := (hsh.next_le.trans hf.next_le).trans hpa.next_le
  simp only [Trail.tick_next] at hale hcle
  rw [hops, hs1, hs2, hs3, Binding.regular, Binding.ops, Call.toExpr, Expr.ops_withDestination]
  refine Lowers.lowered hnote hnote' hidle ?_ ?_ hclt (.syms _ :: shape.mentions) f.mentions
    packed.mentions (hend.append (.records v.id v'.id _ _))
  · simp only [Trail.lowering]
    omega
  · omega

mutual

theorem Expr.Rebuilds.lowers (saved : List (Id → Bool)) {t t' : Trail} {e e' : Expr}
    {asBody : Bool} :
    Expr.Rebuilds .explicitMemory .standard t e e' t' → Fit kind (e.ops asBody) →
      Below base e.tags → t.Sound .explicitMemory base kind →
      Lowers kind (t.lowering kind saved) (e.regular.ops asBody) (e'.ops asBody)
        (t'.lowering kind saved)
  | @Expr.Rebuilds.leaf _ _ _ _ content, _, _, _ => by
    cases content with
    | globalVar name => exact .mention (.global name) .nil
    | _ => exact .nil
  | .var, he, _, ht => ht.lowers_var saved he.cons.1
  | @Expr.Rebuilds.shape _ _ _ _ values, _, _, _ => .mention (.syms (values.flatMap Dim.syms)) .nil
  | @Expr.Rebuilds.prim _ _ _ _ value _, _, _, _ => .mention (.syms value.syms) .nil
  | .tuple hf hs, he, hb, ht => by
    have ih := (hf.lowers saved he.mentions hb.cons.2 ht).of_remap hs.trail_eq.1 hs.next_le
    cases hs with
    | same hsame =>
      rw [hf.eq_of_sameAs (Expr.areNormal_of_fits he.mentions) ht hb.cons.2 hsame] at ih
      exact ih
    | changed => exact ih
  | .item hw hs, he, hb, ht => by
    have ih := (hw.lowers saved he hb.cons.2 ht).of_remap hs.trail_eq.1 hs.next_le
    cases hs with
    | same h =>
      rw [hw.eq_of_sameAs ht hb.cons.2 h] at ih
      exact ih
    | changed => exact ih
  | @Expr.Rebuilds.call _ _ _ _ _ _ _ node callee callee' args args' attrs sinfoArgs _ _ hc ha hs
      hf, he, hb, ht => by
    have ht1 := hc.sound he.call.1 ht
    have ihc := hc.lowers saved he.call.1 hb.cons.2.append.1 ht
    have iha := ha.lowers saved he.call.2 hb.cons.2.append.2 ht1
    have hop := hc.asOp?
    obtain ⟨node1, rfl⟩ := hs.eq_call hc ha (Expr.areNormal_of_fits he.call.2) hb ht ht1
    cases hf with
    | fused _ _ _ hp => cases hp
    | kept =>
      have hsum : (Call.mk node1 callee' args' attrs sinfoArgs).sinfoOp =
          (Call.mk node callee args attrs sinfoArgs).sinfoOp :=
        Call.sinfoOp_congr (Call.summand?_becomes hop ha fun _ _ => ht1.id) rfl
      have hreg := Call.sinfoOp_regular ⟨node, callee, args, attrs, sinfoArgs⟩
      rw [Expr.regular, Expr.ops, Call.toExpr, Expr.ops, hsum, hreg]
      exact (ihc.append (.sinfoOp _ iha)).of_remap hs.trail_eq.1 hs.next_le
  | @Expr.Rebuilds.ite _ _ _ t1 t2 t3 _ _ _ _ _ _ _ _ _ hc ht hf hs, he, hb, h => by
    obtain ⟨hec, het, hef⟩ := he.ite
    obtain ⟨hbc, hbt, hbf⟩ := hb.cons.2.append.imp_right Below.append
    have h1 := hc.sound hec h
    have h2 := h1.branch ht.next_le
    have ihc := hc.lowers saved hec hbc h
    have iht := ht.lowers (t1.replaced kind :: saved) het hbt h1
    have ihf := hf.lowers (t1.replaced kind :: saved) hef hbf h2
    have iht := iht.nested.later (Nat.le_succ t2.next)
    have ihf := ihf.nested.later (Nat.le_succ t3.next)
    have ih : Lowers kind _ _ _ ((t3.tick.leave t1).lowering kind saved) :=
      .conditional (ihc.append (iht.append ihf))
    have ih := ih.of_remap hs.trail_eq.1 hs.next_le
    cases hs with
    | same hsame =>
      simp only [Bool.and_eq_true] at hsame
      rw [hc.eq_of_sameAs h hbc hsame.1.1, ht.eq_of_sameAs h1 hbt hsame.1.2,
        hf.eq_of_sameAs h2 hbf hsame.2] at ih
      exact ih
    | changed => exact ih
  | .seq hb hy hs, he, hbl, ht => by
    obtain ⟨hbody, heb, hey⟩ := he.seq
    obtain ⟨hbb, hby⟩ := hbl.cons.2.append
    have h1 := hb.sound heb ht
    have ihb := hb.lowers saved heb hbb ht
    have ihy := hy.lowers saved hey hby h1
    have ih := (ihb.append ihy).of_remap hs.trail_eq.1 ((Nat.le_succ _).trans hs.next_le)
    have hplain := hb.plain
    subst hbody
    cases hs with
    | same hsame =>
      rw [Bool.and_eq_true] at hsame
      rw [hb.eq_of_sameAs heb ht hbb hsame.1, hy.eq_of_sameAs h1 hby hsame.2] at ih
      exact ih
    | changed =>
      rw [Expr.mkSeq, Expr.ops, if_pos rfl, Block.opsAll_filter hplain]
      exact ih
  | @Expr.Rebuilds.function _ _ t _ t2 t3 _ _ _ _ _ ret _ _ hp hb hs, he, hbl, ht => by
    obtain ⟨hbp, hbb⟩ := hbl.cons.2.append
    have h1 := ht.defineAll hp
    have ihp := ht.lowers_params (t.replaced kind :: saved) he.function.1 hp
    have ihb := hb.lowers (t.replaced kind :: saved) he.function.2 hbb h1
    have hn : t2.next ≤ t3.next := (Nat.le_succ _).trans hs.next_le
    have ih := (ihp.append (ihb.append (.mention (.syms ret.syms) .nil))).nested.later hn
    cases hs with
    | same hsame =>
      rw [Bool.and_eq_true] at hsame
      rw [ht.params_eq_of_sameAs hp hbp hsame.1, hb.eq_of_sameAs h1 hbb hsame.2] at ih
      exact ih
    | changed => exact ih

theorem Expr.Becomes.lowers (saved : List (Id → Bool)) {t t' : Trail} {e e' : Expr}
    {asBody : Bool} (h : Expr.Becomes .explicitMemory .standard t e e' t') :
    Fit kind (e.ops asBody) → Below base e.tags → t.Sound .explicitMemory base kind →
      Lowers kind (t.lowering kind saved) (e.regular.ops asBody) (e'.ops asBody) (t'.lowering
      kind saved) := by
  match h with
  | .mk hr hf =>
    intro he hb ht
    have ih := (hr.lowers saved he hb ht).of_remap hf.trail_eq.1 hf.next_le
    cases hf with
    | kept => exact ih
    | filled =>
      rw [Expr.withSinfo, Expr.ops_withNode]
      exact ih

theorem Binding.Becomes.lowers (saved : List (Id → Bool)) {bk : BlockKind} {t t' : Trail}
    {b : Binding} {out : List Binding}
    (h : Binding.Becomes .explicitMemory .standard bk t b out t') :
    Fit kind b.ops → Below base b.tags → t.Sound .explicitMemory base kind →
      Lowers kind (t.lowering kind saved) b.regular.ops (Binding.opsAll out) (t'.lowering kind
      saved) := by
  match h with
  | .kept hl hy hd hs hk =>
    intro he hb ht
    have ht1 := hy.sound he.bind.1 ht
    have ih := (hy.lowers saved he.bind.1 hb.cons.2.cons.2 ht).bind
      (ht1.lowers_define saved he.bind.2 hd)
    rw [Bool.and_eq_true] at hs
    rw [Var.eq_of_sameAs (ht1.define hd).2.2.2.2 hb.cons.2.cons.1 hs.1,
      hy.eq_of_sameAs ht hb.cons.2.cons.2 hs.2] at ih
    rw [Binding.regular, Expr.withDestination_of_lowered?_eq_none hl, Binding.opsAll_singleton]
    exact (ih _ _).of_remap rfl le_rfl
  | .changed hl hy hd hs hr hk =>
    intro he hb ht
    have ht1 := hy.sound he.bind.1 ht
    have ih := (hy.lowers saved he.bind.1 hb.cons.2.cons.2 ht).bind
      (ht1.lowers_binding saved he.bind.2 hd hr)
    rw [Binding.regular, Expr.withDestination_of_lowered?_eq_none hl, Binding.opsAll_singleton]
    exact (ih _ _).of_remap rfl (Nat.le_succ _)
  | .lowered hl hk hsh hf hpa hal hca hd hr =>
    intro he hb ht
    exact (lowers_call saved hl hsh hf hpa hal hca hd hr he hb ht).of_remap rfl (Nat.le_succ _)
  | .keptCast hy hd hs hk =>
    intro he hb ht
    have ht1 := hy.sound he.cast.1 ht
    have ih := (hy.lowers saved he.cast.1 hb.cons.2.cons.2 ht).cast
      (ht1.lowers_define saved he.cast.2 hd)
    rw [Bool.and_eq_true] at hs
    rw [Var.eq_of_sameAs (ht1.define hd).2.2.2.2 hb.cons.2.cons.1 hs.1,
      hy.eq_of_sameAs ht hb.cons.2.cons.2 hs.2] at ih
    rw [Binding.opsAll_singleton]
    exact ih _
  | .changedCast hy hd hs hr hk =>
    intro he hb ht
    have ht1 := hy.sound he.cast.1 ht
    have ih := (hy.lowers saved he.cast.1 hb.cons.2.cons.2 ht).cast
      (ht1.lowers_binding saved he.cast.2 hd hr)
    rw [Binding.opsAll_singleton]
    exact (ih _).of_remap rfl (Nat.le_succ _)

theorem Binding.BecomeAll.lowers (saved : List (Id → Bool)) {bk : BlockKind} {t t' : Trail}
    {bs out : List Binding}
    (hbecomes : Binding.BecomeAll .explicitMemory .standard bk t bs out t') :
    Fit kind (Binding.opsAll bs) → Below base (Binding.tagsAll bs) →
      t.Sound .explicitMemory base kind →
      Lowers kind (t.lowering kind saved) (Binding.opsAll (Binding.regularAll bs))
      (Binding.opsAll out) (t'.lowering kind saved) := by
  match hbecomes with
  | .nil =>
    intro _ _ _
    exact .nil
  | .cons hb hs =>
    intro he hbl ht
    have h := hb.lowers saved he.append.1 hbl.append.1 ht
    rw [Binding.opsAll_append]
    exact h.append (hs.lowers saved he.append.2 hbl.append.2 (hb.sound he.append.1 ht))

theorem Block.Becomes.lowers (saved : List (Id → Bool)) {t t' : Trail} {b b' : Block}
    (h : Block.Becomes .explicitMemory .standard t b b' t') :
    Fit kind b.ops → Below base b.tags → t.Sound .explicitMemory base kind →
      Lowers kind (t.lowering kind saved) b.regular.ops b'.ops (t'.lowering kind saved) := by
  match h with
  | @Block.Becomes.kept _ _ _ _ (.mk _ bk _) _ hb hs =>
    intro he hbl ht
    have ih := hb.lowers saved he.block hbl.cons.2 ht
    rw [Bool.and_eq_true, decide_eq_true_eq] at hs
    rw [hb.eq_of_sameAs he.block ht hbl.cons.2 hs.2] at ih
    obtain rfl := show BlockKind.plain = bk from hs.1
    exact ih.of_remap rfl (Nat.le_succ _)
  | @Block.Becomes.changed _ _ _ _ (.mk ..) _ hb _ =>
    intro he hbl ht
    exact (hb.lowers saved he.block hbl.cons.2 ht).of_remap rfl (Nat.le_succ _)

theorem Block.BecomeAll.lowers (saved : List (Id → Bool)) {t t' : Trail} {bs bs' : List Block}
    (h : Block.BecomeAll .explicitMemory .standard t bs bs' t') :
    Fit kind (Block.opsAll bs) → Below base (Block.tagsAll bs) →
      t.Sound .explicitMemory base kind →
      Lowers kind (t.lowering kind saved) (Block.opsAll (Block.regularAll bs)) (Block.opsAll bs')
      (t'.lowering kind saved) := by
  match h with
  | .nil =>
    intro _ _ _
    exact .nil
  | .cons hb hs =>
    intro he hbl ht
    refine (hb.lowers saved he.append.1 hbl.append.1 ht).append ?_
    exact hs.lowers saved he.append.2 hbl.append.2 (hb.sound he.append.1 ht)

end

theorem Function.Becomes.lowers {next : Nat} {f f' : Function}
    (h : Function.Becomes .explicitMemory next f f') (hf : Fit kind f.ops)
    (hb : Below next f.toExpr.tags) :
    ∃ n s, next ≤ n ∧ Lowers kind ((Trail.empty n).lowering kind []) f.regular.ops f'.ops s := by
  cases h with
  | same hn hy hs =>
    have ht := Trail.Sound.empty .explicitMemory kind hn
    have h := hy.lowers [] hf hb ht
    rw [hy.eq_of_sameAs ht hb hs] at h
    exact ⟨_, _, hn, h⟩
  | changed hn hy hs =>
    exact ⟨_, _, hn, hy.lowers [] hf hb (Trail.Sound.empty .explicitMemory kind hn)⟩

theorem Scope.Simulates.start {n : Nat} (h : base ≤ n) :
    Simulates kind base ((Trail.empty n).lowering kind []) .start .start := by
  have hreplaced : ∀ id, (Trail.empty n).replaced kind id = false := by
    intro id
    simp [Trail.replaced, Trail.empty]
  refine ⟨h, ⟨fun _ _ => .rfl, nofun, ?_⟩, .nil, rfl, rfl, rfl, nofun⟩
  intro id _
  simp [Trail.lowering, hreplaced, Walk.start, Scope.empty]

/-- The identities of the variables of a module. -/
def Module.ids (m : Module) : List Id :=
  m.toList.flatMap fun e => Scope.ids e.2.ops

/-- Making memory explicit keeps a module well formed exactly where it is well formed with all
variables regular. -/
theorem lowering_wellFormed_iff {m m' : Module} {w w' : World} (hwf : m.wellFormed = .ok ())
    (hk : ∀ e ∈ m.toList, e.2.OneKind) (hb : Below w.next m.tags)
    (hi : Below w.next (m.ids.map Id.index))
    (h : (Pass.explicitMemory.apply m).exec w = (.ok (some m'), w')) :
    m'.wellFormed = .ok () ↔ m.regular.wellFormed = .ok () := by
  have hbec := Pass.apply_becomes h
  rw [Module.wellFormed_iff_run] at hwf
  rw [Module.wellFormed_iff_run, Module.wellFormed_iff_run, hbec.contains, Module.regular,
    Module.contains_mapFunctions, Module.toList_mapFunctions, List.forall_mem_map]
  refine hbec.forall_iff (P := fun f => ∃ w, Scope.run m.contains f.regular.ops .start = some w)
    (Q := fun f => ∃ w, Scope.run m.contains f.ops .start = some w) ?_
  intro g f f' hm hf
  obtain ⟨sc, hrun⟩ := hwf (g, f) hm
  obtain ⟨kind, hfit⟩ := (hk (g, f) hm).fit hrun
  have htags : Below w.next f.toExpr.tags := by
    intro tag ht
    exact hb tag (List.mem_flatMap.mpr ⟨_, hm, ht⟩)
  obtain ⟨n, s, hn, hlow⟩ := hf.lowers hfit htags
  apply hlow.run_iff (Scope.Simulates.start hn)
  intro op hop a ha
  have hid : a.1 ∈ Scope.ids f.ops := by
    rw [Function.ops, ← Expr.ids_regular]
    exact List.mem_filterMap.mpr ⟨op, hop, by rw [ha]; rfl⟩
  exact hi _ (List.mem_map_of_mem (List.mem_flatMap.mpr ⟨_, hm, hid⟩))

namespace Destinations

def named (index : Nat) (name : String) (dataflow : Bool) (sinfo : Option StructInfo) : Var :=
  ⟨⟨⟨index, none⟩, sinfo⟩, ⟨index, name⟩, dataflow⟩

def x : Var := named 0 "x" false none

/-- A variable of a dataflow block. -/
def inner : Var := named 1 "inner" true none

/-- The results of a function. -/
def first : Var := named 2 "first" false none

def second : Var := named 3 "second" false none

def ofLength (length : Dim) : StructInfo :=
  .tensorOfShape [length] (.float 32)

/-- A call that writes into a tensor of length four. -/
def written : Expr :=
  .mkCall ⟨4, none⟩ (.mkOp 5 "relax.call_dps")
    [.shape ⟨⟨6, none⟩, none⟩ [.int 4], .leaf ⟨⟨7, none⟩, none⟩ (.externFunc "write"), .var x] none
    []

def module (blocks : List Block) (result : Var) : Module :=
  (Module.empty.add 30 "main" ⟨⟨⟨29, none⟩, none⟩, [x],
    .mkSeq ⟨28, none⟩ blocks (.var result), .object, .empty⟩).2

def world : World := ⟨31, []⟩

/-- The length of the destination is known. -/
def allocated : Module :=
  module [.mk ⟨8, none⟩ .dataflow
    [.bind ⟨9, none⟩ (named 1 "inner" true (some (ofLength (.int 4)))) written,
      .bind ⟨10, none⟩ first (.var inner)]] first

/-- Two dataflow blocks define the same variable. -/
def reused : Module :=
  module [.mk ⟨8, none⟩ .dataflow
      [.bind ⟨9, none⟩ inner (.var x), .bind ⟨10, none⟩ first (.var inner)],
    .mk ⟨11, none⟩ .dataflow
      [.bind ⟨12, none⟩ inner (.var first), .bind ⟨13, none⟩ second (.var inner)]] second

/-- Nothing gives the length of the destination. -/
def unsized : Module :=
  module [.mk ⟨8, none⟩ .plain
    [.bind ⟨9, none⟩ (named 2 "first" false (some (ofLength (.sym ⟨14, "n", .int64⟩))))
      written]] first

/-- A parameter is mentioned after its function, in the same dataflow block. -/
def leaking : Module :=
  module [.mk ⟨8, none⟩ .dataflow
    [.bind ⟨9, none⟩ second (.mkFunction ⟨10, none⟩ [inner] (.var inner) none .empty),
      .bind ⟨11, none⟩ first (.var inner)]] first

example : reused.regular.wellFormed.toOption = none := rfl

end Destinations

open Destinations in
theorem lowering_wellFormed_allocated : ∃ m' w',
    (Pass.explicitMemory.apply allocated).exec world = (.ok (some m'), w') ∧
      m'.wellFormed = .ok () := by
  have hs : (Pass.explicitMemory.changedModule? allocated world).isSome := by decide +kernel
  obtain ⟨m', hm⟩ := Option.isSome_iff_exists.mp hs
  have h := Pass.apply_of_changedModule? hm
  have hk : ∀ e ∈ allocated.toList, e.2.OneKind := by decide +kernel
  have hb : Below world.next allocated.tags := by decide +kernel
  have hi : Below world.next (allocated.ids.map Id.index) := by decide +kernel
  exact ⟨m', _, h, (lowering_wellFormed_iff rfl hk hb hi h).mpr rfl⟩

open Destinations in
/-- A dataflow variable that is defined twice, a destination of unknown length and a parameter that
leaves its function each take a well-formed module to one that is not. -/
theorem lowering_breaks_wellFormed : Pass.explicitMemory.Breaks reused world ∧
    Pass.explicitMemory.Breaks unsized world ∧ Pass.explicitMemory.Breaks leaking world := by
  refine ⟨.of_changedModule? rfl ?_, .of_changedModule? rfl ?_, .of_changedModule? rfl ?_⟩
  · decide +kernel
  · decide +kernel
  · decide +kernel

end DataflowIR
