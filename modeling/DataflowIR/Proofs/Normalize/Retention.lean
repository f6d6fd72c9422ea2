import DataflowIR.Proofs.Normalize.Positions

namespace DataflowIR

/-- A binding keeps its variable unless its value is another node; then the variable has the struct
info of the value, if that has any, or of the cast. -/
structure Binding.RetainedBy (b b' : Binding) : Prop where
  id : b'.var.id = b.var.id
  dataflow : b'.var.dataflow = b.var.dataflow
  var : b'.var = b.var ∨ b'.value.sameAs b.value = false ∧ b'.var.sinfo =
    match b with
    | .bind _ v _ => b'.value.sinfo.or v.sinfo
    | .cast _ _ _ s => some s

/-- A composite node with struct info comes back as it is, with all that is below it, unless one of
its parts is another node; then its struct info is derived anew. -/
structure Expr.RetainedBy (e e' : Expr) : Prop where
  kind : Builder.isComposite e → e'.kind = e.kind
  node : Builder.isComposite e → e.sinfo.isSome → e' = e ∨ e.PartReplaced e' ∧ e'.Derived
  params : e'.params = e.params
  bindings : ∀ i j b, e.bindingAt? i j = some b →
    ∃ b', e'.bindingAt? i j = some b' ∧ b.RetainedBy b'

/-- An expression that is as it was, or that normalization rewrote. -/
def Expr.Renews (e e' : Expr) : Prop :=
  e' = e ∨ ∃ t t', Expr.Becomes .normalize .standard t e e' t'

def Binding.Renews (b b' : Binding) : Prop :=
  b' = b ∨ b.RetainedBy b' ∧ b'.value.sameAs b.value = false ∧ b.value.Renews b'.value

def Block.Renews (b b' : Block) : Prop :=
  b' = b ∨ List.Forall₂ Binding.Renews b.bindings b'.bindings ∧
    Transformer.allSame Binding.sameAs b'.bindings b.bindings = false

theorem Binding.RetainedBy.refl (b : Binding) : b.RetainedBy b := by
  exact ⟨rfl, rfl, .inl rfl⟩

theorem Binding.Renews.retainedBy {b b' : Binding} (h : b.Renews b') : b.RetainedBy b' := by
  obtain rfl | h := h
  · exact .refl _
  · exact h.1

theorem Binding.Renews.value {b b' : Binding} (h : b.Renews b') : b.value.Renews b'.value := by
  obtain rfl | h := h
  · exact .inl rfl
  · exact h.2.2

theorem expr_becomeAll_renews {t t' : Trail} {es es' : List Expr}
    (h : Expr.BecomeAll .normalize .standard t es es' t') : List.Forall₂ Expr.Renews es es' := by
  match h with
  | .nil => exact .nil
  | .cons he hs => exact .cons (.inr ⟨_, _, he⟩) (expr_becomeAll_renews hs)

private theorem binding_becomes_renews {kind : BlockKind} {t t' : Trail} {b : Binding}
    {out : List Binding} (h : Binding.Becomes .normalize .standard kind t b out t') :
    ∃ b', out = [b'] ∧ b.Renews b' := by
  cases h with
  | kept | keptCast => exact ⟨_, rfl, .inl rfl⟩
  | lowered hl => simp [Pass.lowered?] at hl
  | @changed _ _ t1 t2 t3 mark v v1 v' value value' hl hy hd hs hr hk =>
    rw [Trail.define_eq Pass.normalize_ne] at hd
    cases hd
    obtain ⟨hid, hdf, hsi, -⟩ := Trail.retype_eq hr
    have hs : value'.sameAs value = false := by simpa [Var.sameAs] using hs
    exact ⟨_, rfl, .inr ⟨⟨hid, hdf, .inr ⟨hs, hsi⟩⟩, hs, .inr ⟨_, _, hy⟩⟩⟩
  | @changedCast _ _ t1 t2 t3 mark v v1 v' value value' sinfo hy hd hs hr hk =>
    rw [Trail.define_eq Pass.normalize_ne] at hd
    cases hd
    obtain ⟨hid, hdf, hsi, -⟩ := Trail.retype_eq hr
    have hs : value'.sameAs value = false := by simpa [Var.sameAs] using hs
    exact ⟨_, rfl, .inr ⟨⟨hid, hdf, .inr ⟨hs, hsi⟩⟩, hs, .inr ⟨_, _, hy⟩⟩⟩

private theorem binding_becomeAll_renews {kind : BlockKind} {t t' : Trail} {bs out : List Binding}
    (hbecomes : Binding.BecomeAll .normalize .standard kind t bs out t') :
    List.Forall₂ Binding.Renews bs out := by
  match hbecomes with
  | .nil => exact .nil
  | .cons hb hs =>
    obtain ⟨b', rfl, h⟩ := binding_becomes_renews hb
    exact .cons h (binding_becomeAll_renews hs)

private theorem block_becomeAll_renews {t t' : Trail} {bs bs' : List Block}
    (h : Block.BecomeAll .normalize .standard t bs bs' t') : List.Forall₂ Block.Renews bs bs' := by
  match h with
  | .nil => exact .nil
  | .cons hb hbs =>
    refine .cons ?_ (block_becomeAll_renews hbs)
    cases hb with
    | kept => exact .inl rfl
    | changed hb hs =>
      refine .inr ⟨binding_becomeAll_renews hb, ?_⟩
      simpa [Pass.blockKind, Block.bindings] using hs

/-- The node was rebuilt from its parts, one of which is another node. -/
structure Expr.Rebuilt (e e' : Expr) : Prop where
  kind : e'.kind = e.kind
  replaced : e.PartReplaced e'
  params : e'.params = e.params
  parts : ∀ part a, e.part? part = some a → ∃ a', e'.part? part = some a' ∧ a.Renews a'
  bindings : ∀ i j b, e.bindingAt? i j = some b → ∃ b', e'.bindingAt? i j = some b' ∧ b.Renews b'

private theorem isComposite_eq_of_kind {e e' : Expr} (h : e'.kind = e.kind) :
    Builder.isComposite e' = Builder.isComposite e := by
  have hk : ∀ e : Expr, Builder.isComposite e =
      (e.kind ∈ [.tuple, .tupleItem, .call, .ite, .seqExpr, .function] : Bool) := by
    intro e
    cases e with
    | leaf node content => cases content <;> rfl
    | var v => cases hv : v.dataflow <;> simp [Builder.isComposite, Expr.kind, hv]
    | _ => rfl
  rw [hk, hk, h]

theorem Expr.Rebuilt.withSinfo {e e' : Expr} (h : e.Rebuilt e') (n : Nat) (s : StructInfo) :
    e.Rebuilt (e'.withSinfo n s) := by
  obtain ⟨part, a, a', ha, ha', hs⟩ := h.replaced
  refine ⟨?_, ⟨part, a, a', ha, ?_, hs⟩, ?_, ?_, ?_⟩
  · simpa [Expr.withSinfo] using h.kind
  · simpa [Expr.withSinfo] using ha'
  · simpa [Expr.withSinfo] using h.params
  · intro part a ha
    simpa [Expr.withSinfo] using h.parts part a ha
  · intro i j b hb
    simpa [Expr.withSinfo] using h.bindings i j b hb

theorem Block.Renews.isEmpty {b b' : Block} (h : b.Renews b') :
    b'.bindings.isEmpty = b.bindings.isEmpty := by
  obtain rfl | ⟨hb, -⟩ := h
  · rfl
  · rw [Bool.eq_iff_iff, List.isEmpty_iff, List.isEmpty_iff, ← List.length_eq_zero_iff,
      ← List.length_eq_zero_iff, hb.length_eq]

private theorem filled_blocks_renew {bs bs' : List Block} (h : List.Forall₂ Block.Renews bs bs') :
    List.Forall₂ Block.Renews (Block.filled bs) (Block.filled bs') := by
  refine List.rel_filter ?_ h
  intro b b' hb
  simp only [hb.isEmpty]

/-- Blocks that are other nodes have a binding of another value among those that count. -/
private theorem filled_blocks_replaced {bs bs' : List Block} (h : List.Forall₂ Block.Renews bs bs')
    (hs : Transformer.allSame Block.sameAs bs' bs = false) : ∃ (i j : Nat) (b b' : Binding),
      (Block.filled bs)[i]?.bind (·.bindings[j]?) = some b ∧
      (Block.filled bs')[i]?.bind (·.bindings[j]?) = some b' ∧
      b'.value.sameAs b.value = false := by
  have hne : ∀ b b' : Block, b.Renews b' → b'.sameAs b = false → b.bindings.isEmpty = false := by
    rintro b b' (rfl | ⟨hb, hs⟩) hsame
    · simp [Block.sameAs] at hsame
    · obtain ⟨j, x, x', hx, -, -, -⟩ := exists_replaced hb hs
      cases hbs : b.bindings with
      | nil => simp [hbs] at hx
      | cons => rfl
  have hs := allSame_filter h (fun b : Block => !b.bindings.isEmpty)
    (fun b b' hb hsame => by simp only [hne b b' hb hsame, Bool.not_false])
    (fun b b' hb => by simp only [hb.isEmpty]) hs
  obtain ⟨i, b, b', hb, hb', hsame, hr⟩ := exists_replaced (filled_blocks_renew h) hs
  obtain rfl | ⟨hr, hrs⟩ := hr
  · simp [Block.sameAs] at hsame
  obtain ⟨j, x, x', hx, hx', hxs, hxr⟩ := exists_replaced hr hrs
  refine ⟨i, j, x, x', by simp [hb, hx], by simp [hb', hx'], ?_⟩
  obtain rfl | ⟨-, hv, -⟩ := hxr
  · simp [Binding.sameAs] at hxs
  · exact hv

private theorem bindings_renew {bs bs' : List Block} (h : List.Forall₂ Block.Renews bs bs')
    {i j : Nat} {b : Binding} (hb : (Block.filled bs)[i]?.bind (·.bindings[j]?) = some b) :
    ∃ b', (Block.filled bs')[i]?.bind (·.bindings[j]?) = some b' ∧
      b.Renews b' := by
  obtain ⟨block, hi, hj⟩ := Option.bind_eq_some_iff.mp hb
  obtain ⟨block', hi', hr⟩ := exists_getElem?_of_forall₂ (filled_blocks_renew h) hi
  rw [hi', Option.bind_some]
  obtain rfl | ⟨hr, -⟩ := hr
  · exact ⟨b, hj, .inl rfl⟩
  · exact exists_getElem?_of_forall₂ hr hj

private theorem tuple_rebuilt {node : Node} {mark : Mark} {fields fields' : List Expr}
    (hf : List.Forall₂ Expr.Renews fields fields')
    (hs : Transformer.allSame Expr.sameAs fields' fields = false) :
    (Expr.tuple node fields).Rebuilt (.mkTuple mark fields') := by
  obtain ⟨i, a, a', ha, ha', hsame, -⟩ := exists_replaced hf hs
  refine ⟨rfl, ⟨.field i, a, a', ha, ha', hsame⟩, rfl, ?_, nofun⟩
  intro part a ha
  cases part with
  | field i => exact exists_getElem?_of_forall₂ hf ha
  | _ => cases ha

private theorem item_rebuilt {node : Node} {mark : Mark} {whole whole' : Expr} {index : Nat}
    (hw : whole.Renews whole') (hs : whole'.sameAs whole = false) :
    (Expr.item node whole index).Rebuilt (.mkItem mark whole' index) := by
  refine ⟨rfl, ⟨.whole, whole, whole', rfl, rfl, hs⟩, rfl, ?_, nofun⟩
  intro part a ha
  cases part with
  | whole =>
    cases ha
    exact ⟨whole', rfl, hw⟩
  | _ => cases ha

private theorem call_rebuilt {node : Node} {mark : Mark} {callee callee' : Expr}
    {args args' : List Expr}
    {attrs : Option Attrs} {sinfoArgs : List StructInfo} (hc : callee.Renews callee')
    (ha : List.Forall₂ Expr.Renews args args')
    (hs : (Transformer.allSame Expr.sameAs args' args && callee'.sameAs callee) = false) :
    (Expr.call node callee args attrs sinfoArgs).Rebuilt
      (.mkCall mark callee' args' attrs sinfoArgs) := by
  refine ⟨rfl, ?_, rfl, ?_, nofun⟩
  · cases hsame : callee'.sameAs callee with
    | false => exact ⟨.callee, callee, callee', rfl, rfl, hsame⟩
    | true =>
      rw [hsame, Bool.and_true] at hs
      obtain ⟨i, a, a', hi, hi', hsame, -⟩ := exists_replaced ha hs
      exact ⟨.arg i, a, a', hi, hi', hsame⟩
  · intro part a hp
    cases part with
    | callee =>
      cases hp
      exact ⟨callee', rfl, hc⟩
    | arg i => exact exists_getElem?_of_forall₂ ha hp
    | _ => cases hp

private theorem ite_rebuilt {node : Node} {mark : Mark}
    {cond cond' onTrue onTrue' onFalse onFalse' : Expr}
    (hc : cond.Renews cond') (ht : onTrue.Renews onTrue') (hf : onFalse.Renews onFalse')
    (hs : (cond'.sameAs cond && onTrue'.sameAs onTrue && onFalse'.sameAs onFalse) = false) :
    (Expr.ite node cond onTrue onFalse).Rebuilt (.mkIte mark cond' onTrue' onFalse') := by
  refine ⟨rfl, ?_, rfl, ?_, nofun⟩
  · simp only [Bool.and_eq_false_iff] at hs
    obtain (hs | hs) | hs := hs
    · exact ⟨.cond, cond, cond', rfl, rfl, hs⟩
    · exact ⟨.onTrue, onTrue, onTrue', rfl, rfl, hs⟩
    · exact ⟨.onFalse, onFalse, onFalse', rfl, rfl, hs⟩
  · intro part a hp
    cases part with
    | cond =>
      cases hp
      exact ⟨cond', rfl, hc⟩
    | onTrue =>
      cases hp
      exact ⟨onTrue', rfl, ht⟩
    | onFalse =>
      cases hp
      exact ⟨onFalse', rfl, hf⟩
    | _ => cases hp

private theorem function_rebuilt {node : Node} {mark : Mark} {params : List Var} {body body' : Expr}
    {ret : StructInfo} {attrs : Attrs} (hb : body.Renews body') (hs : body'.sameAs body = false) :
    (Expr.function node params body ret attrs).Rebuilt
      (.mkFunction mark params body' (some ret) attrs) := by
  refine ⟨rfl, ⟨.body, body, body', rfl, rfl, hs⟩, rfl, ?_, nofun⟩
  intro part a ha
  cases part with
  | body =>
    cases ha
    exact ⟨body', rfl, hb⟩
  | _ => cases ha

private theorem seq_rebuilt {node : Node} {mark : Mark} {blocks blocks' : List Block}
    {body body' : Expr} (hb : List.Forall₂ Block.Renews blocks blocks') (hy : body.Renews body')
    (hs : (Transformer.allSame Block.sameAs blocks' blocks && body'.sameAs body) = false) :
    (Expr.seq node blocks body).Rebuilt
      (.mkSeq mark (Block.filled blocks') body') := by
  have hbind : ∀ i j b, (Expr.seq node blocks body).bindingAt? i j = some b → ∃ b',
      (Expr.mkSeq mark (Block.filled blocks') body').bindingAt? i j = some b' ∧
      b.Renews b' := by
    intro i j b h
    obtain ⟨b', hb', hr⟩ := bindings_renew hb h
    refine ⟨b', ?_, hr⟩
    simpa [Expr.bindingAt?, Expr.mkSeq, Expr.blocks] using hb'
  refine ⟨rfl, ?_, rfl, ?_, hbind⟩
  · cases hsame : body'.sameAs body with
    | false => exact ⟨.result, body, body', rfl, rfl, hsame⟩
    | true =>
      rw [hsame, Bool.and_true] at hs
      obtain ⟨i, j, b, b', hi, hi', hv⟩ := filled_blocks_replaced hb hs
      refine ⟨.value i j, b.value, b'.value, ?_, ?_, hv⟩
      · simp [Expr.part?, Expr.bindingAt?, Expr.blocks, hi]
      · simp [Expr.part?, Expr.bindingAt?, Expr.mkSeq, Expr.blocks, hi']
  · intro part a ha
    cases part with
    | value i j =>
      obtain ⟨b, hi, rfl⟩ := Option.map_eq_some_iff.mp ha
      obtain ⟨b', hi', hr⟩ := hbind i j b hi
      exact ⟨b'.value, by simp [Expr.part?, hi'], hr.value⟩
    | result =>
      cases ha
      exact ⟨body', rfl, hy⟩
    | _ => cases ha

private theorem rebuilds_rebuilt {t t' : Trail} {e e' : Expr} (hc : Builder.isComposite e)
    (h : Expr.Rebuilds .normalize .standard t e e' t') :
    e' = e ∨ e.Rebuilt e' ∧ e'.sinfo = e'.ownSinfo? := by
  cases h with
  | leaf | var | shape | prim => simp [Builder.isComposite] at hc
  | tuple hf hs =>
    cases hs with
    | same => exact .inl rfl
    | changed hs => exact .inr ⟨tuple_rebuilt (expr_becomeAll_renews hf) hs, rfl⟩
  | item hw hs =>
    cases hs with
    | same => exact .inl rfl
    | changed hs => exact .inr ⟨item_rebuilt (.inr ⟨_, _, hw⟩) hs, rfl⟩
  | call hcallee hargs hs hfin =>
    cases hfin with
    | fused _ _ _ hp => cases hp
    | kept =>
      cases hs with
      | same => exact .inl rfl
      | changed hs =>
        exact .inr ⟨call_rebuilt (.inr ⟨_, _, hcallee⟩) (expr_becomeAll_renews hargs) hs, rfl⟩
  | ite hcond ht hf hs =>
    cases hs with
    | same => exact .inl rfl
    | changed hs =>
      exact .inr ⟨ite_rebuilt (.inr ⟨_, _, hcond⟩) (.inr ⟨_, _, ht⟩) (.inr ⟨_, _, hf⟩) hs, rfl⟩
  | seq hb hy hs =>
    cases hs with
    | same => exact .inl rfl
    | changed hs => exact .inr ⟨seq_rebuilt (block_becomeAll_renews hb) (.inr ⟨_, _, hy⟩) hs, rfl⟩
  | function hp hb hs =>
    rw [Trail.defineAll_eq Pass.normalize_ne] at hp
    cases hp
    rw [Transformer.allSame_refl Var.sameAs_self, Bool.true_and] at hs
    cases hs with
    | same => exact .inl rfl
    | changed hs => exact .inr ⟨function_rebuilt (.inr ⟨_, _, hb⟩) hs, rfl⟩

/-- The rules that the passes infer by do not look at the node of a call. -/
private theorem standard_infer_withNode (n : Node) (e : Expr) (hc : Builder.isComposite e) :
    Rules.standard.infer (e.withNode n) = Rules.standard.infer e := by
  cases e with
  | call node callee args attrs sinfoArgs =>
    simp only [Expr.withNode, Rules.infer, Rules.inferCall]
    split
    · next rule hr =>
      obtain ⟨name, -, hr⟩ := Option.bind_eq_some_iff.mp hr
      rw [Rules.eq_elementwise hr]
      rfl
    · rfl
  | tuple | item | ite | seq | function => rfl
  | leaf | var | shape | prim => simp [Builder.isComposite] at hc

/-- Struct info is inferred only where there is none. -/
theorem fills_cases {t t' : Trail} {e e' : Expr} (h : Fills .standard t e e' t') :
    e' = e ∧ (Builder.isComposite e → e.sinfo.isSome) ∨
      ∃ s, e' = e.withSinfo t.next s ∧ e.sinfo = none ∧ Builder.isComposite e ∧
        Rules.standard.infer e = .ok s := by
  cases h with
  | kept h =>
    refine .inl ⟨rfl, ?_⟩
    intro hc
    cases hs : e.sinfo with
    | some => rfl
    | none =>
      simp only [Builder.missingSinfo, hs, hc, Option.isNone_none, Bool.and_self, if_true] at h
      cases hi : Builder.new Rules.standard |>.rules.infer e <;> simp [hi, Except.map] at h
  | filled s h =>
    refine .inr ⟨s, rfl, ?_⟩
    unfold Builder.missingSinfo at h
    split at h
    · next hc =>
      rw [Bool.and_eq_true, Option.isNone_iff_eq_none] at hc
      refine ⟨hc.1, hc.2, ?_⟩
      cases hi : Builder.new Rules.standard |>.rules.infer e with
      | error => simp [hi, Except.map] at h
      | ok s' =>
        simp only [hi, Except.map, Except.ok.injEq, Option.some.injEq] at h
        exact h ▸ hi
    · cases h

private theorem becomes_cases {t t' : Trail} {e e' : Expr} (hc : Builder.isComposite e)
    (h : Expr.Becomes .normalize .standard t e e' t') :
    e' = e ∨ (∃ n s, e' = e.withSinfo n s) ∧ e.sinfo = none ∨ e.Rebuilt e' ∧ e'.Derived := by
  cases h with
  | @mk _ t1 _ _ e1 _ hr hf =>
    obtain rfl | ⟨hreb, hown⟩ := rebuilds_rebuilt hc hr
    · obtain ⟨rfl, -⟩ | ⟨s, rfl, hn, -, -⟩ := fills_cases hf
      · exact .inl rfl
      · exact .inr (.inl ⟨⟨_, s, rfl⟩, hn⟩)
    · have hc1 : Builder.isComposite e1 := (isComposite_eq_of_kind hreb.kind).trans hc
      obtain ⟨rfl, hs⟩ | ⟨s, rfl, hn, -, hi⟩ := fills_cases hf
      · obtain ⟨s, hs⟩ := Option.isSome_iff_exists.mp (hs hc1)
        exact .inr (.inr ⟨hreb, s, hs, .inl (hown ▸ hs)⟩)
      · refine .inr (.inr ⟨hreb.withSinfo _ _, s, ?_, .inr ⟨?_, ?_⟩⟩)
        · simp [Expr.withSinfo, Expr.sinfo]
        · simpa [Expr.withSinfo] using hown.symm.trans hn
        · rw [Expr.withSinfo, standard_infer_withNode _ _ hc1, hi]

/-- A leaf or a variable has no parts. -/
private theorem part?_eq_none {e : Expr} (hc : Builder.isComposite e = false) (part : Part) :
    e.part? part = none := by
  cases e with
  | leaf | var | shape | prim => cases part <;> rfl
  | _ => simp [Builder.isComposite] at hc

private theorem params_eq_nil {e : Expr} (hc : Builder.isComposite e = false) : e.params = [] := by
  cases e with
  | leaf | var | shape | prim => rfl
  | _ => simp [Builder.isComposite] at hc

private theorem bindingAt?_eq_none {e : Expr} (hc : Builder.isComposite e = false) (i j : Nat) :
    e.bindingAt? i j = none := by
  cases e with
  | leaf | var | shape | prim => rfl
  | _ => simp [Builder.isComposite] at hc

private theorem becomes_not_composite {t t' : Trail} {e e' : Expr}
    (hc : Builder.isComposite e = false)
    (h : Expr.Becomes .normalize .standard t e e' t') : Builder.isComposite e' = false := by
  cases h with
  | @mk _ _ _ _ e1 _ hr hf =>
    have hc1 : Builder.isComposite e1 = false := by
      cases hr with
      | leaf | var | shape | prim => rfl
      | _ => simp [Builder.isComposite] at hc
    obtain ⟨rfl, -⟩ | ⟨_, -, -, hc', -⟩ := fills_cases hf
    · exact hc1
    · rw [hc1] at hc'
      cases hc'

namespace Expr.Renews

variable {e e' : Expr}

theorem part (h : e.Renews e') {part : Part} {a : Expr} (ha : e.part? part = some a) :
    ∃ a', e'.part? part = some a' ∧ a.Renews a' := by
  obtain rfl | ⟨t, t', h⟩ := h
  · exact ⟨a, ha, .inl rfl⟩
  · cases hc : Builder.isComposite e with
    | false => simp [part?_eq_none hc] at ha
    | true =>
      obtain rfl | ⟨⟨n, s, rfl⟩, -⟩ | ⟨hreb, -⟩ := becomes_cases hc h
      · exact ⟨a, ha, .inl rfl⟩
      · exact ⟨a, by simpa [Expr.withSinfo] using ha, .inl rfl⟩
      · exact hreb.parts part a ha

theorem at? (h : e.Renews e') {path : List Part} {a : Expr} (ha : e.at? path = some a) :
    ∃ a', e'.at? path = some a' ∧ a.Renews a' := by
  induction path generalizing e e' with
  | nil =>
    cases ha
    exact ⟨e', rfl, h⟩
  | cons step path ih =>
    obtain ⟨b, hb, hpath⟩ := Option.bind_eq_some_iff.mp ha
    obtain ⟨b', hb', hr⟩ := h.part hb
    obtain ⟨a', ha', hra⟩ := ih hr hpath
    exact ⟨a', by rw [Expr.at?, hb', Option.bind_some, ha'], hra⟩

theorem retainedBy (h : e.Renews e') : e.RetainedBy e' := by
  have hrefl : e.RetainedBy e :=
    ⟨fun _ => rfl, fun _ _ => .inl rfl, rfl, fun _ _ b hb => ⟨b, hb, .refl b⟩⟩
  obtain rfl | ⟨t, t', h⟩ := h
  · exact hrefl
  · cases hc : Builder.isComposite e with
    | false =>
      have hc' := becomes_not_composite hc h
      refine ⟨?_, ?_, ?_, ?_⟩
      · intro hk
        rw [hc] at hk
        cases hk
      · intro hk _
        rw [hc] at hk
        cases hk
      · rw [params_eq_nil hc, params_eq_nil hc']
      · intro i j b hb
        rw [bindingAt?_eq_none hc] at hb
        cases hb
    | true =>
      obtain rfl | ⟨⟨n, s, rfl⟩, hn⟩ | ⟨hreb, hd⟩ := becomes_cases hc h
      · exact hrefl
      · refine ⟨?_, ?_, ?_, fun i j b hb => ⟨b, ?_, .refl b⟩⟩
        · intro _
          simp [Expr.withSinfo]
        · intro _ hs
          simp [hn] at hs
        · simp [Expr.withSinfo]
        · simpa [Expr.withSinfo] using hb
      · refine ⟨fun _ => hreb.kind, fun _ _ => .inr ⟨hreb.replaced, hd⟩, hreb.params, ?_⟩
        intro i j b hb
        obtain ⟨b', hb', hr⟩ := hreb.bindings i j b hb
        exact ⟨b', hb', hr.retainedBy⟩

end Expr.Renews

theorem Function.Becomes.renews {next : Nat} {f f' : Function}
    (h : Function.Becomes .normalize next f f') : f.toExpr.Renews f'.toExpr := by
  cases h with
  | same => exact .inl rfl
  | changed _ hb => exact .inr ⟨_, _, hb⟩

/-- At every position of every function. -/
theorem normalize_retains {m m' : Module} {w w' : World}
    (h : (Pass.normalize.apply m).exec w = (.ok (some m'), w')) {name : String} {f : Function}
    (hf : m.get? name = some f) : ∃ f', m'.get? name = some f' ∧
      ∀ path e, f.toExpr.at? path = some e →
        ∃ e', f'.toExpr.at? path = some e' ∧ e.RetainedBy e' := by
  obtain ⟨hn, -⟩ | ⟨g, f1, f', -, hf1, hf', hb⟩ := (Pass.apply_becomes h).get? name
  · rw [hn] at hf
    cases hf
  rw [hf1, Option.some.injEq] at hf
  subst hf
  refine ⟨f', hf', ?_⟩
  intro path e he
  obtain ⟨e', he', hr⟩ := hb.renews.at? he
  exact ⟨e', he', hr.retainedBy⟩

namespace Annotated

def tensor : StructInfo :=
  .tensorOfShape [.int 4] (.float 32)

def input : Var :=
  ⟨⟨⟨0, none⟩, some tensor⟩, ⟨0, "x"⟩, false⟩

/-- The variable and the tuple it is bound to are objects; the sum in the tuple has no struct
info. -/
def pair : Var :=
  ⟨⟨⟨1, none⟩, some .object⟩, ⟨1, "pair"⟩, false⟩

def sum : Expr :=
  .mkCall ⟨3, none⟩ (.mkOp 2 "relax.add") [.var input, .var input] none []

def pairBinding : Binding :=
  .bind ⟨5, none⟩ pair (.tuple ⟨⟨4, none⟩, some .object⟩ [sum])

def main : Function :=
  ⟨⟨⟨8, none⟩, none⟩, [input],
    .mkSeq ⟨7, none⟩ [.mk ⟨6, none⟩ .plain [pairBinding]] (.var pair), .object, .empty⟩

def module : Module :=
  (Module.empty.add 9 "main" main).2

def world : World := ⟨10, []⟩

/-- The struct info at a position of the function `main` of the normalized module. -/
def sinfoAfter? (path : List Part) : Option StructInfo :=
  (((Pass.normalize.changedModule? module world).bind (·.get? "main")).bind
    (·.toExpr.at? path)).bind Expr.sinfo

example : sinfoAfter? [.body, .result] = some (.tuple [tensor]) := by decide +kernel

end Annotated

open Annotated in
theorem normalize_retains_annotated : ∃ m' w',
    (Pass.normalize.apply module).exec world = (.ok (some m'), w') ∧
    module.get? "main" = some main ∧ ∃ f', m'.get? "main" = some f' ∧
      ∀ path e, main.toExpr.at? path = some e →
        ∃ e', f'.toExpr.at? path = some e' ∧ e.RetainedBy e' := by
  have hs : (Pass.normalize.changedModule? module world).isSome := by decide +kernel
  obtain ⟨m', hm⟩ := Option.isSome_iff_exists.mp hs
  have h := Pass.apply_of_changedModule? hm
  exact ⟨m', _, h, rfl, normalize_retains h rfl⟩

/-- The annotated tuple is rebuilt around the sum, and loses what it was annotated with; so does the
variable that it is bound to. -/
theorem normalize_overwrites_annotation :
    ¬ ∀ (m m' : Module) (w w' : World), (Pass.normalize.apply m).exec w = (.ok (some m'), w') →
      ∀ name f path e s, m.get? name = some f → f.toExpr.at? path = some e →
        Builder.isComposite e → e.sinfo = some s →
        ∃ f' e', m'.get? name = some f' ∧ f'.toExpr.at? path = some e' ∧ e'.sinfo = some s := by
  intro hall
  have hs : Annotated.sinfoAfter? [.body, .value 0 0] = some (.tuple [Annotated.tensor]) := by
    decide +kernel
  simp only [Annotated.sinfoAfter?, Option.bind_eq_some_iff] at hs
  obtain ⟨e', ⟨f', ⟨m', hm, hf⟩, he⟩, hs⟩ := hs
  obtain ⟨f'', e'', hf', he', hs'⟩ := hall _ _ _ _ (Pass.apply_of_changedModule? hm) "main"
    Annotated.main [.body, .value 0 0] _ .object rfl rfl rfl rfl
  rw [hf, Option.some.injEq] at hf'
  rw [← hf', he, Option.some.injEq] at he'
  rw [← he', hs] at hs'
  cases hs'

end DataflowIR
