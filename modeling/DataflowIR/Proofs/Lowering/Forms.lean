import DataflowIR.Proofs.Rewrite.Parts
import DataflowIR.Proofs.Scoping.Replacements

namespace DataflowIR

/-- A definition becomes that of a regular variable of its identity, which later uses refer to
unless the definition was one already. -/
inductive Var.Lowered (r : Id → Option Var) (v v' : Var) : (Id → Option Var) → Prop
  | kept (hid : v'.id = v.id) (hv : v.dataflow = false) (hv' : v'.dataflow = false) :
      Var.Lowered r v v' r
  | replaced (hid : v'.id = v.id) (hv' : v'.dataflow = false) :
      Var.Lowered r v v' (Function.update r v.id (some v'))

inductive Var.LoweredAll : (Id → Option Var) → List Var → List Var → (Id → Option Var) → Prop
  | nil {r} : Var.LoweredAll r [] [] r
  | cons {r r1 r' v v' vs vs'} (hv : Var.Lowered r v v' r1) (hs : Var.LoweredAll r1 vs vs' r') :
      Var.LoweredAll r (v :: vs) (v' :: vs') r'

theorem Var.Lowered.id_eq {r r' : Id → Option Var} {v v' : Var} (h : Var.Lowered r v v' r') :
    v'.id = v.id := by
  cases h <;> assumption

theorem Var.Lowered.regular {r r' : Id → Option Var} {v v' : Var} (h : Var.Lowered r v v' r') :
    v'.dataflow = false := by
  cases h <;> assumption

/-- A later replacement of the variable hides the one that its definition put in. -/
private theorem Var.Lowered.update_eq {r r' : Id → Option Var} {v v' : Var}
    (h : Var.Lowered r v v' r')
    (w : Option Var) : Function.update r' v.id w = Function.update r v.id w := by
  cases h with
  | kept => rfl
  | replaced => exact Function.update_idem _ _ _

/-- The arguments that are packed into the last one of a destination-passing call. -/
def Expr.unpacked (packed : Expr) : List Expr :=
  packed.asTuple?.getD [packed]

variable (base : Nat)

mutual

/-- What comes back for an expression, with the replacements before and after it. New variables
have indices from `base` on. -/
inductive Expr.Lowered : (Id → Option Var) → Expr → Expr → (Id → Option Var) → Prop
  | leaf {r node content} : Expr.Lowered r (.leaf node content) (.leaf node content) r
  | var {r v} : Expr.Lowered r (.var v) (.var ((r v.id).getD v)) r
  | shape {r node values} : Expr.Lowered r (.shape node values) (.shape node values) r
  | prim {r node value dtype} : Expr.Lowered r (.prim node value dtype) (.prim node value dtype) r
  | tuple {r r' node node' fields fields'} (hf : Expr.LoweredAll r fields fields' r') :
      Expr.Lowered r (.tuple node fields) (.tuple node' fields') r'
  | item {r r' node node' whole whole' index} (hw : Expr.Lowered r whole whole' r') :
      Expr.Lowered r (.item node whole index) (.item node' whole' index) r'
  | call {r r1 r' node node' callee callee' args args' attrs sinfoArgs}
      (hc : Expr.Lowered r callee callee' r1) (ha : Expr.LoweredAll r1 args args' r') :
      Expr.Lowered r (.call node callee args attrs sinfoArgs)
        (.call node' callee' args' attrs sinfoArgs) r'
  | ite {r r1 r2 r3 node node' cond cond' onTrue onTrue' onFalse onFalse'}
      (hc : Expr.Lowered r cond cond' r1) (ht : Expr.Lowered r1 onTrue onTrue' r2)
      (hf : Expr.Lowered r1 onFalse onFalse' r3) :
      Expr.Lowered r (.ite node cond onTrue onFalse) (.ite node' cond' onTrue' onFalse') r1
  | seq {r r1 r' node node' blocks blocks' kept body body'}
      (hb : Block.LoweredAll r blocks blocks' r1)
      (hk : kept = blocks' ∨ kept = blocks'.filter fun b => !b.bindings.isEmpty)
      (hy : Expr.Lowered r1 body body' r') :
      Expr.Lowered r (.seq node blocks body) (.seq node' kept body') r'
  | function {r r1 r2 node node' params params' body body' ret attrs}
      (hp : Var.LoweredAll r params params' r1) (hb : Expr.Lowered r1 body body' r2) :
      Expr.Lowered r (.function node params body ret attrs)
        (.function node' params' body' ret attrs) r

inductive Expr.LoweredAll : (Id → Option Var) → List Expr → List Expr → (Id → Option Var) → Prop
  | nil {r} : Expr.LoweredAll r [] [] r
  | cons {r r1 r' e e' es es'} (he : Expr.Lowered r e e' r1) (hs : Expr.LoweredAll r1 es es' r') :
      Expr.LoweredAll r (e :: es) (e' :: es') r'

/-- A destination-passing call becomes an allocation, the call that writes into it, and a binding of
the variable to the allocation. -/
inductive Binding.Lowered :
    (Id → Option Var) → Binding → List Binding → (Id → Option Var) → Prop
  | bind {r r1 r' mark mark' v v' value value'}
      (hl : Pass.explicitMemory.lowered? v value = none) (hy : Expr.Lowered r value value' r1)
      (hd : Var.Lowered r1 v v' r') :
      Binding.Lowered r (.bind mark v value) [.bind mark' v' value'] r'
  | call {r r1 r2 r3 r' mark v v' value out shape shape' f f' packed packed' alloc called tag
        mark1 mark2 mark3 node1 node2}
      (hl : Pass.explicitMemory.lowered? v value = some (out, shape, f, packed))
      (hs : Expr.Lowered r shape shape' r1) (hf : Expr.Lowered r1 f f' r2)
      (hp : Expr.Lowered r2 packed packed' r3) (hi : base ≤ alloc.id.index)
      (ha : alloc.dataflow = false) (hc : called.dataflow = false) (hd : Var.Lowered r3 v v' r') :
      Binding.Lowered r (.bind mark v value)
        [.bind mark1 alloc
            (.call node1 (.mkOp tag "relax.builtin.alloc_tensor") [shape'] none [out]),
          .bind mark2 called (.call node2 f' (packed'.unpacked ++ [.var alloc]) none []),
          .bind mark3 v' (.var alloc)] r'
  | cast {r r1 r' mark mark' v v' value value' sinfo} (hy : Expr.Lowered r value value' r1)
      (hd : Var.Lowered r1 v v' r') :
      Binding.Lowered r (.cast mark v value sinfo) [.cast mark' v' value' sinfo] r'

inductive Binding.LoweredAll :
    (Id → Option Var) → List Binding → List Binding → (Id → Option Var) → Prop
  | nil {r} : Binding.LoweredAll r [] [] r
  | cons {r r1 r' b out bs outs} (hb : Binding.Lowered r b out r1)
      (hs : Binding.LoweredAll r1 bs outs r') : Binding.LoweredAll r (b :: bs) (out ++ outs) r'

inductive Block.Lowered : (Id → Option Var) → Block → Block → (Id → Option Var) → Prop
  | mk {r r' mark mark' kind bs out} (hb : Binding.LoweredAll r bs out r') :
      Block.Lowered r (.mk mark kind bs) (.mk mark' .plain out) r'

inductive Block.LoweredAll :
    (Id → Option Var) → List Block → List Block → (Id → Option Var) → Prop
  | nil {r} : Block.LoweredAll r [] [] r
  | cons {r r1 r' b b' bs bs'} (hb : Block.Lowered r b b' r1) (hs : Block.LoweredAll r1 bs bs' r') :
      Block.LoweredAll r (b :: bs) (b' :: bs') r'

end

variable {base} {t t' : Trail}

namespace Trail.After

/-- A definition gives the variable back where it is regular, and a new one otherwise. -/
theorem define_lowered (h : t.After base) {v v' : Var}
    (hd : t.define .explicitMemory v = (v', t')) :
    t'.After base ∧ Var.Lowered t.remap v v' t'.remap ∧ (v' = v ∧ t' = t ∨ base ≤ v'.tag) := by
  unfold Trail.define at hd
  split at hd
  · cases hd
    refine ⟨⟨h.next.trans (Nat.le_succ _), ?_⟩, .replaced rfl rfl, .inr h.next⟩
    intro id w hw
    simp only [replace, Function.update_apply] at hw
    split at hw
    · cases hw
      exact h.next
    · exact h.fresh hw
  · next hv =>
    cases hd
    have hv' : v.dataflow = false := by simpa using hv
    exact ⟨h, .kept rfl hv' hv', .inl ⟨rfl, rfl⟩⟩

private theorem defineAll_lowered (h : t.After base) {vs vs' : List Var}
    (hd : t.defineAll .explicitMemory vs = (vs', t')) (hb : Below base (vs.map Var.tag)) :
    t'.After base ∧ Var.LoweredAll t.remap vs vs' t'.remap ∧
      (Transformer.allSame Var.sameAs vs' vs → vs' = vs) := by
  induction vs generalizing t vs' with
  | nil =>
    cases hd
    exact ⟨h, .nil, fun _ => rfl⟩
  | cons v vs ih =>
    cases hv : t.define .explicitMemory v with
    | mk v' t1 =>
      cases hvs : t1.defineAll .explicitMemory vs with
      | mk ws t2 =>
        simp only [Trail.defineAll, hv, hvs] at hd
        cases hd
        obtain ⟨h1, hlow, hsame⟩ := h.define_lowered hv
        obtain ⟨h2, hlows, hall⟩ := ih h1 hvs hb.cons.2
        refine ⟨h2, .cons hlow hlows, ?_⟩
        intro hs
        obtain ⟨hs1, hs2⟩ := Bool.and_eq_true_iff.mp hs
        rw [Var.eq_of_sameAs (hsame.imp_left And.left) hb.cons.1 hs1, hall hs2]

/-- The variable of a binding that is rebuilt. -/
theorem rebind (h : t.After base) {t1 t2 : Trail} {v v1 v' : Var} {sinfo : Option StructInfo}
    (hd : t.define .explicitMemory v = (v1, t1)) (hr : t1.retype v1 sinfo = (v', t2))
    (hv : v.tag < base) :
    (t2.replaceIfChanged v v').After base ∧
      Var.Lowered t.remap v v' (t2.replaceIfChanged v v').remap := by
  obtain ⟨h1, hlow, hor⟩ := h.define_lowered hd
  obtain ⟨hid, hk, -, hremap, -⟩ := Trail.retype_eq hr
  have h2 := h1.of_remap hremap (Trail.retype_next_le hr)
  have hid' := hid.trans hlow.id_eq
  have hk' := hk.trans hlow.regular
  have htag : v' = v1 ∨ base ≤ v'.tag :=
    (Trail.retype_eq_or_tag hr).imp_right fun hn => h1.next.trans hn.ge
  unfold Trail.replaceIfChanged
  split
  · next hs =>
    -- Only the old variable has its tag, and it is given back only where it is regular.
    have heq : v' = v ∧ v1 = v ∧ t1 = t := by
      obtain rfl | hn := htag
      · obtain ⟨rfl, rfl⟩ | hn := hor
        · exact ⟨rfl, rfl, rfl⟩
        · rw [Var.sameAs, beq_iff_eq] at hs
          omega
      · rw [Var.sameAs, beq_iff_eq] at hs
        omega
    obtain ⟨rfl, rfl, rfl⟩ := heq
    rw [hremap]
    exact ⟨h2, .kept rfl hk' hk'⟩
  · next hs =>
    have hfresh : base ≤ v'.tag := by
      obtain rfl | hn := htag
      · obtain ⟨rfl, -⟩ | hn := hor
        · exact absurd (Var.sameAs_self v') hs
        · exact hn
      · exact hn
    refine ⟨⟨h2.next, ?_⟩, ?_⟩
    · intro id w hw
      simp only [replace, Function.update_apply] at hw
      split at hw
      · cases hw
        exact hfresh
      · exact h2.fresh hw
    · rw [replace, hremap, hlow.update_eq]
      exact .replaced hid' hk'

end Trail.After

private theorem Fills.eq_withNode {rules : Rules} {e e' : Expr} (h : Fills rules t e e' t') :
    e' = e ∨ Builder.isComposite e ∧ ∃ node, e' = e.withNode node := by
  cases h with
  | kept => exact .inl rfl
  | filled i hi =>
    refine .inr ⟨?_, _, rfl⟩
    unfold Builder.missingSinfo at hi
    split at hi
    · next hc => exact (Bool.and_eq_true_iff.mp hc).2
    · cases hi

theorem Fills.eq_call {rules : Rules} {node : Node} {callee e' : Expr} {args : List Expr}
    {attrs : Option Attrs} {sinfoArgs : List StructInfo}
    (h : Fills rules t (.call node callee args attrs sinfoArgs) e' t') :
    ∃ node', e' = .call node' callee args attrs sinfoArgs := by
  obtain rfl | ⟨-, node', rfl⟩ := h.eq_withNode
  · exact ⟨node, rfl⟩
  · exact ⟨node', rfl⟩

/-- What is emitted for a call is a call with the same parts. -/
theorem Emits.eq_call {rules : Rules} {node : Node} {callee : Expr} {args : List Expr}
    {attrs : Option Attrs} {sinfoArgs : List StructInfo} {v : Var} {b : Binding}
    (h : Emits rules t (.call node callee args attrs sinfoArgs) v b t') :
    ∃ mark node', b = .bind mark v (.call node' callee args attrs sinfoArgs) ∧
      v.dataflow = false ∧ t.next ≤ v.id.index ∧ t'.remap = t.remap := by
  cases h with
  | mk name hf hv =>
    obtain ⟨node', rfl⟩ := hf.eq_call
    have hn := hf.next_le
    refine ⟨_, node', rfl, hv ▸ rfl, ?_, ?_⟩
    · rw [hv]
      exact hn.trans (Nat.le_succ _)
    · rw [Trail.record_remap]
      exact hf.trail_eq.1

theorem Expr.Lowered.fills {rules : Rules} {r r' : Id → Option Var} {e e1 e' : Expr}
    (h : Expr.Lowered base r e e1 r') (hf : Fills rules t e1 e' t') :
    Expr.Lowered base r e e' r' := by
  obtain rfl | ⟨hc, node, rfl⟩ := hf.eq_withNode
  · exact h
  · cases h with
    | leaf | var | shape | prim => cases hc
    | tuple hf => exact .tuple hf
    | item hw => exact .item hw
    | call hcallee ha => exact .call hcallee ha
    | ite hcond ht hf => exact .ite hcond ht hf
    | seq hb hk hy => exact .seq hb hk hy
    | function hp hb => exact .function hp hb

theorem Trail.After.settle (h : t.After base) {same : Bool} {old e' : Expr} {new : Mark → Expr}
    {span : Option Span} (hs : Settles t same old new span e' t') :
    t'.After base ∧ t'.remap = t.remap := by
  exact ⟨h.of_remap hs.trail_eq.1 hs.next_le, hs.trail_eq.1⟩

mutual

theorem Expr.Rebuilds.lowersTo {t t' : Trail} {e e' : Expr}
    (hrebuilds : Expr.Rebuilds .explicitMemory .standard t e e' t') :
    Below base e.tags → t.After base → Expr.Lowered base t.remap e e' t'.remap ∧ t'.After base := by
  match hrebuilds with
  | .leaf =>
    intro _ h
    exact ⟨.leaf, h⟩
  | .var =>
    intro _ h
    exact ⟨.var, h⟩
  | .shape =>
    intro _ h
    exact ⟨.shape, h⟩
  | .prim =>
    intro _ h
    exact ⟨.prim, h⟩
  | .tuple hf hs =>
    intro he h
    obtain ⟨hlow, hsame, h1⟩ := hf.lowersTo he.cons.2 h
    obtain ⟨h', hr⟩ := h1.settle hs
    refine ⟨hr ▸ ?_, h'⟩
    cases hs with
    | same hall =>
      rw [hsame hall] at hlow
      exact .tuple hlow
    | changed => exact .tuple hlow
  | .item hw hs =>
    intro he h
    obtain ⟨hlow, hsame, h1⟩ := hw.lowersTo he.cons.2 h
    obtain ⟨h', hr⟩ := h1.settle hs
    refine ⟨hr ▸ ?_, h'⟩
    cases hs with
    | same hall =>
      rw [hsame hall] at hlow
      exact .item hlow
    | changed => exact .item hlow
  | .call hc ha hs hf =>
    intro he h
    obtain ⟨hec, hea⟩ := he.cons.2.append
    obtain ⟨hlc, hsc, h1⟩ := hc.lowersTo hec h
    obtain ⟨hla, hsa, h2⟩ := ha.lowersTo hea h1
    obtain ⟨h', hr⟩ := h2.settle hs
    cases hf with
    | fused _ _ _ hp => cases hp
    | kept =>
      refine ⟨hr ▸ ?_, h'⟩
      cases hs with
      | same hall =>
        obtain ⟨ha, hc⟩ := Bool.and_eq_true_iff.mp hall
        rw [hsc hc] at hlc
        rw [hsa ha] at hla
        exact .call hlc hla
      | changed => exact .call hlc hla
  | .ite hc ht hf hs =>
    intro he h
    obtain ⟨hec, het, hef⟩ := he.cons.2.append.imp_right Below.append
    obtain ⟨hlc, hsc, h1⟩ := hc.lowersTo hec h
    obtain ⟨hlt, hst, h2⟩ := ht.lowersTo het h1
    obtain ⟨hlf, hsf, h3⟩ := hf.lowersTo hef (h1.leave h2.tick)
    obtain ⟨h', hr⟩ := (h1.leave h3.tick).settle hs
    refine ⟨hr ▸ ?_, h'⟩
    cases hs with
    | same hall =>
      simp only [Bool.and_eq_true] at hall
      rw [hsc hall.1.1] at hlc
      rw [hst hall.1.2] at hlt
      rw [hsf hall.2] at hlf
      exact .ite hlc hlt hlf
    | changed => exact .ite hlc hlt hlf
  | .seq hb hy hs =>
    intro he h
    obtain ⟨heb, hey⟩ := he.cons.2.append
    obtain ⟨hlb, hsb, h1⟩ := hb.lowersTo heb h
    obtain ⟨hly, hsy, h2⟩ := hy.lowersTo hey h1
    obtain ⟨h', hr⟩ := h2.tick.settle hs
    refine ⟨hr ▸ ?_, h'⟩
    cases hs with
    | same hall =>
      obtain ⟨hb, hy⟩ := Bool.and_eq_true_iff.mp hall
      rw [hsb hb] at hlb
      rw [hsy hy] at hly
      exact .seq hlb (.inl rfl) hly
    | changed => exact .seq hlb (.inr rfl) hly
  | .function hp hb hs =>
    intro he h
    obtain ⟨hep, heb⟩ := he.cons.2.append
    obtain ⟨h1, hlp, hsp⟩ := h.defineAll_lowered hp hep
    obtain ⟨hlb, hsb, h2⟩ := hb.lowersTo heb h1
    obtain ⟨h3, -⟩ := (h1.leave h2.tick).settle hs
    refine ⟨?_, h.leave h3⟩
    cases hs with
    | same hall =>
      obtain ⟨hp, hb⟩ := Bool.and_eq_true_iff.mp hall
      rw [hsp hp] at hlp
      rw [hsb hb] at hlb
      exact .function hlp hlb
    | changed => exact .function hlp hlb

/-- A run of the pass does what the relation says. -/
theorem Expr.Becomes.lowersTo {t t' : Trail} {e e' : Expr}
    (hbecomes : Expr.Becomes .explicitMemory .standard t e e' t') :
    Below base e.tags → t.After base → Expr.Lowered base t.remap e e' t'.remap ∧
      (e'.sameAs e → e' = e) ∧ t'.After base := by
  match hbecomes with
  | .mk hr hf =>
    intro he h
    obtain ⟨hlow, h1⟩ := hr.lowersTo he h
    have hfresh := (Expr.Becomes.mk hr hf).eq_or_fresh h
    refine ⟨?_, Expr.eq_of_sameAs hfresh he, h1.of_remap hf.trail_eq.1 hf.next_le⟩
    rw [hf.trail_eq.1]
    exact hlow.fills hf

theorem Expr.BecomeAll.lowersTo {t t' : Trail} {es es' : List Expr}
    (hbecomes : Expr.BecomeAll .explicitMemory .standard t es es' t') :
    Below base (Expr.tagsAll es) → t.After base → Expr.LoweredAll base t.remap es es' t'.remap ∧
      (Transformer.allSame Expr.sameAs es' es → es' = es) ∧ t'.After base := by
  match hbecomes with
  | .nil =>
    intro _ h
    exact ⟨.nil, fun _ => rfl, h⟩
  | .cons he hs =>
    intro hb h
    obtain ⟨hl1, hs1, h1⟩ := he.lowersTo hb.append.1 h
    obtain ⟨hl2, hs2, h2⟩ := hs.lowersTo hb.append.2 h1
    refine ⟨.cons hl1 hl2, ?_, h2⟩
    intro hall
    obtain ⟨ha, hb⟩ := Bool.and_eq_true_iff.mp hall
    rw [hs1 ha, hs2 hb]

theorem Binding.Becomes.lowersTo {kind : BlockKind} {t t' : Trail} {b : Binding}
    {out : List Binding} (hbecomes : Binding.Becomes .explicitMemory .standard kind t b out t') :
    Below base b.tags → t.After base → Binding.Lowered base t.remap b out t'.remap ∧
      t'.After base ∧ (out = [b] ∨ ∃ b' rest, out = b' :: rest ∧ base ≤ b'.tag) := by
  match hbecomes with
  | .kept hl hy hd hs _ =>
    intro hb h
    obtain ⟨hbv, hby⟩ := hb.cons.2.cons
    obtain ⟨hlow, hsame, h1⟩ := hy.lowersTo hby h
    obtain ⟨h2, hdef, hor⟩ := h1.define_lowered hd
    obtain ⟨hsv, hsy⟩ := Bool.and_eq_true_iff.mp hs
    rw [hsame hsy] at hlow
    rw [Var.eq_of_sameAs (hor.imp_left And.left) hbv hsv] at hdef
    rw [Trail.record_remap]
    exact ⟨.bind hl hlow hdef, h2.record _, .inl rfl⟩
  | .changed hl hy hd _ hr _ =>
    intro hb h
    obtain ⟨hbv, hby⟩ := hb.cons.2.cons
    obtain ⟨hlow, -, h1⟩ := hy.lowersTo hby h
    obtain ⟨h2, hdef⟩ := h1.rebind hd hr hbv
    have hn := h1.next.trans ((Trail.define_next_le hd).trans (Trail.retype_next_le hr))
    rw [Trail.record_remap, Trail.tick_remap]
    exact ⟨.bind hl hlow hdef, h2.tick.record _, .inr ⟨_, _, rfl, hn⟩⟩
  | .lowered hl _ hsh hf hpa hal hca hd hr =>
    intro hb h
    obtain ⟨_, _, _, _, rfl⟩ := Pass.lowered?_eq_call hl
    obtain ⟨hbv, hby⟩ := hb.cons.2.cons
    obtain ⟨hbs, hbf, hbp⟩ := hby.cons.2.append.2.append.imp_right Below.append
    obtain ⟨hl1, -, h1⟩ := hsh.lowersTo hbs h
    obtain ⟨hl2, -, h2⟩ := hf.lowersTo hbf h1
    obtain ⟨hl3, -, h3⟩ := hpa.lowersTo hbp.append.1 h2
    have hle := h3.next
    obtain ⟨mark1, node1, rfl, ha, hi, hr1⟩ := hal.eq_call
    obtain ⟨mark2, node2, rfl, hc, -, hr2⟩ := hca.eq_call
    have h4 := h3.tick.tick.of_remap hr1 hal.next_le
    have h5 := h4.tick.of_remap hr2 hca.next_le
    obtain ⟨h7, hdef⟩ := h5.rebind hd hr hbv
    simp only [Trail.tick_remap] at hr1 hr2
    rw [hr2, hr1] at hdef
    rw [Trail.record_remap, Trail.tick_remap]
    have htag := hal.tag_le
    have hn := h3.next
    simp only [Trail.tick_next] at hi htag
    refine ⟨.call hl hl1 hl2 hl3 ?_ ha hc hdef, h7.tick.record _, .inr ⟨_, _, rfl, ?_⟩⟩
    · omega
    · omega
  | .keptCast hy hd hs _ =>
    intro hb h
    obtain ⟨hbv, hby⟩ := hb.cons.2.cons
    obtain ⟨hlow, hsame, h1⟩ := hy.lowersTo hby h
    obtain ⟨h2, hdef, hor⟩ := h1.define_lowered hd
    obtain ⟨hsv, hsy⟩ := Bool.and_eq_true_iff.mp hs
    rw [hsame hsy] at hlow
    rw [Var.eq_of_sameAs (hor.imp_left And.left) hbv hsv] at hdef
    exact ⟨.cast hlow hdef, h2, .inl rfl⟩
  | .changedCast hy hd _ hr _ =>
    intro hb h
    obtain ⟨hbv, hby⟩ := hb.cons.2.cons
    obtain ⟨hlow, -, h1⟩ := hy.lowersTo hby h
    obtain ⟨h2, hdef⟩ := h1.rebind hd hr hbv
    have hn := h1.next.trans ((Trail.define_next_le hd).trans (Trail.retype_next_le hr))
    exact ⟨.cast hlow hdef, h2.tick, .inr ⟨_, _, rfl, hn⟩⟩

theorem Binding.BecomeAll.lowersTo {kind : BlockKind} {t t' : Trail} {bs out : List Binding}
    (hbecomes : Binding.BecomeAll .explicitMemory .standard kind t bs out t') :
    Below base (Binding.tagsAll bs) → t.After base →
      Binding.LoweredAll base t.remap bs out t'.remap ∧
      (Transformer.allSame Binding.sameAs out bs → out = bs) ∧ t'.After base := by
  match hbecomes with
  | .nil =>
    intro _ h
    exact ⟨.nil, fun _ => rfl, h⟩
  | @Binding.BecomeAll.cons _ _ _ _ _ _ b _ _ _ hb hs =>
    intro hbs h
    obtain ⟨hl1, h1, hor⟩ := hb.lowersTo hbs.append.1 h
    obtain ⟨hl2, hs2, h2⟩ := hs.lowersTo hbs.append.2 h1
    refine ⟨.cons hl1 hl2, ?_, h2⟩
    intro hall
    obtain rfl | ⟨b', rest, rfl, hn⟩ := hor
    · rw [List.singleton_append, Transformer.allSame, Bool.and_eq_true] at hall
      rw [List.singleton_append, hs2 hall.2]
    · rw [List.cons_append, Transformer.allSame, Bool.and_eq_true, Binding.sameAs,
        beq_iff_eq] at hall
      have hlt : b.tag < base := by
        cases b <;> exact hbs.append.1.cons.1
      omega

theorem Block.Becomes.lowersTo {t t' : Trail} {b b' : Block}
    (hbecomes : Block.Becomes .explicitMemory .standard t b b' t') :
    Below base b.tags → t.After base → Block.Lowered base t.remap b b' t'.remap ∧
      (b'.sameAs b → b' = b) ∧ t'.After base := by
  match hbecomes with
  | @Block.Becomes.kept _ _ _ _ (.mk ..) _ hb hs =>
    intro h ht
    obtain ⟨hlow, hsame, h1⟩ := hb.lowersTo h.cons.2 ht
    obtain ⟨hk, hall⟩ := Bool.and_eq_true_iff.mp hs
    rw [hsame hall] at hlow
    obtain rfl := show BlockKind.plain = _ from of_decide_eq_true hk
    exact ⟨.mk hlow, fun _ => rfl, h1.tick⟩
  | @Block.Becomes.changed _ _ _ _ (.mk ..) _ hb _ =>
    intro h ht
    obtain ⟨hlow, -, h1⟩ := hb.lowersTo h.cons.2 ht
    exact ⟨.mk hlow, Block.eq_of_sameAs (.inr h1.next) h.cons.1, h1.tick⟩

theorem Block.BecomeAll.lowersTo {t t' : Trail} {bs bs' : List Block}
    (hbecomes : Block.BecomeAll .explicitMemory .standard t bs bs' t') :
    Below base (Block.tagsAll bs) → t.After base → Block.LoweredAll base t.remap bs bs' t'.remap ∧
      (Transformer.allSame Block.sameAs bs' bs → bs' = bs) ∧ t'.After base := by
  match hbecomes with
  | .nil =>
    intro _ h
    exact ⟨.nil, fun _ => rfl, h⟩
  | .cons hb hs =>
    intro hbs h
    obtain ⟨hl1, hs1, h1⟩ := hb.lowersTo hbs.append.1 h
    obtain ⟨hl2, hs2, h2⟩ := hs.lowersTo hbs.append.2 h1
    refine ⟨.cons hl1 hl2, ?_, h2⟩
    intro hall
    obtain ⟨ha, hb⟩ := Bool.and_eq_true_iff.mp hall
    rw [hs1 ha, hs2 hb]

end

theorem Function.Becomes.lowersTo {f f' : Function} (h : Function.Becomes .explicitMemory base f f')
    (hb : Below base f.toExpr.tags) :
    ∃ r, Expr.Lowered base (fun _ => none) f.toExpr f'.toExpr r := by
  cases h with
  | same hn hy hs =>
    obtain ⟨hlow, hsame, -⟩ := hy.lowersTo hb (.empty hn)
    rw [hsame hs] at hlow
    exact ⟨_, hlow⟩
  | changed hn hy => exact ⟨_, (hy.lowersTo hb (.empty hn)).1⟩

end DataflowIR
