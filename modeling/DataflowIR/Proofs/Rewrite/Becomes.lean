import DataflowIR.Proofs.Rewrite.Trail
import Mathlib.Order.Basic
import Mathlib.Order.Nat

namespace DataflowIR

/-- The same node when no part changed, else a new one with the span of the old. -/
inductive Settles {α : Type} (t : Trail) (same : Bool) (old : α) (new : Mark → α)
    (span : Option Span) : α → Trail → Prop
  | same (h : same = true) : Settles t same old new span old t
  | changed (h : same = false) : Settles t same old new span (new ⟨t.next, span⟩) t.tick

/-- Struct info is added to a composite expression that has none. -/
inductive Fills (rules : Rules) (t : Trail) (e : Expr) : Expr → Trail → Prop
  | kept (h : (Builder.new rules).missingSinfo e = .ok none) : Fills rules t e e t
  | filled (s : StructInfo) (h : (Builder.new rules).missingSinfo e = .ok (some s)) :
      Fills rules t e (e.withSinfo t.next s) t.tick

/-- A pass may replace a call once its parts are rewritten. -/
inductive Finishes (p : Pass) (t : Trail) (e : Expr) : Expr → Trail → Prop
  | kept (h : p = .fusedMultiplyAdd → t.fusion? e = none) : Finishes p t e e t
  | fused (a b addend : Expr) (hp : p = .fusedMultiplyAdd)
      (h : t.fusion? e = some (a, b, addend)) :
      Finishes p t e (.call ⟨⟨t.next, e.span⟩, e.sinfo⟩
        (.mkOp (t.next + 1) "relax.ewise_fma") [a, b, addend] none []) t.tick.tick

/-- A binding of a new regular variable to the value. -/
inductive Emits (rules : Rules) (t : Trail) (value : Expr) : Var → Binding → Trail → Prop
  | mk {value' : Expr} {t1 : Trail} {v : Var} (name : String) (hf : Fills rules t value value' t1)
      (hv : v = .make ⟨t1.next, none⟩ ⟨t1.next + 1, name⟩ value'.sinfo false) :
      Emits rules t value v (.bind ⟨t1.next + 2, none⟩ v value')
        (t1.tick.tick.tick.record (.bind ⟨t1.next + 2, none⟩ v value'))

/-- The kind of the block that the bindings of a block are put into. -/
def Pass.blockKind (p : Pass) (kind : BlockKind) : BlockKind :=
  if p = .explicitMemory then .plain else kind

theorem Pass.blockKind_blockKind (p : Pass) (kind : BlockKind) :
    p.blockKind (p.blockKind kind) = p.blockKind kind := by
  unfold blockKind
  split <;> rfl

/-- The operands of a binding that is lowered, with the struct info of its destination. -/
def Pass.lowered? (p : Pass) (v : Var) (value : Expr) :
    Option (StructInfo × Expr × Expr × Expr) :=
  if p = .explicitMemory then
    value.asCall?.bind fun c =>
      (Transformer.destinationPassing? c).map fun parts => (Transformer.destinationSinfo c v, parts)
  else none

def allocation (tag : Nat) (shape : Expr) (out : StructInfo) : Expr :=
  .call ⟨⟨tag + 1, none⟩, some out⟩ (.mkOp tag "relax.builtin.alloc_tensor") [shape] none [out]

variable (p : Pass) (rules : Rules)

mutual

/-- The parts are rewritten, and the node is rebuilt from them if any of them changed. -/
inductive Expr.Rebuilds : Trail → Expr → Expr → Trail → Prop
  | leaf {t node content} : Expr.Rebuilds t (.leaf node content) (.leaf node content) t
  | var {t v} : Expr.Rebuilds t (.var v) (.var ((t.remap v.id).getD v)) t
  | shape {t node values} : Expr.Rebuilds t (.shape node values) (.shape node values) t
  | prim {t node value dtype} : Expr.Rebuilds t (.prim node value dtype) (.prim node value dtype) t
  | tuple {t t1 t' node fields fields' e'} (hf : Expr.BecomeAll t fields fields' t1)
      (hs : Settles t1 (Transformer.allSame Expr.sameAs fields' fields) (.tuple node fields)
        (.mkTuple · fields') node.span e' t') :
      Expr.Rebuilds t (.tuple node fields) e' t'
  | item {t t1 t' node whole whole' index e'} (hw : Expr.Becomes t whole whole' t1)
      (hs : Settles t1 (whole'.sameAs whole) (.item node whole index) (.mkItem · whole' index)
        node.span e' t') :
      Expr.Rebuilds t (.item node whole index) e' t'
  | call {t t1 t2 t3 t' node callee callee' args args' attrs sinfoArgs e1 e'}
      (hc : Expr.Becomes t callee callee' t1) (ha : Expr.BecomeAll t1 args args' t2)
      (hs : Settles t2 (Transformer.allSame Expr.sameAs args' args && callee'.sameAs callee)
        (.call node callee args attrs sinfoArgs) (.mkCall · callee' args' attrs sinfoArgs)
        node.span e1 t3)
      (hf : Finishes p t3 e1 e' t') :
      Expr.Rebuilds t (.call node callee args attrs sinfoArgs) e' t'
  | ite {t t1 t2 t3 t' node cond cond' onTrue onTrue' onFalse onFalse' e'}
      (hc : Expr.Becomes t cond cond' t1) (ht : Expr.Becomes t1 onTrue onTrue' t2)
      (hf : Expr.Becomes (t2.tick.leave t1) onFalse onFalse' t3)
      (hs : Settles (t3.tick.leave t1)
        (cond'.sameAs cond && onTrue'.sameAs onTrue && onFalse'.sameAs onFalse)
        (.ite node cond onTrue onFalse) (.mkIte · cond' onTrue' onFalse') node.span e' t') :
      Expr.Rebuilds t (.ite node cond onTrue onFalse) e' t'
  | seq {t t1 t2 t' node blocks blocks' body body' e'} (hb : Block.BecomeAll t blocks blocks' t1)
      (hy : Expr.Becomes t1 body body' t2)
      (hs : Settles t2.tick (Transformer.allSame Block.sameAs blocks' blocks && body'.sameAs body)
        (.seq node blocks body)
        (.mkSeq · (blocks'.filter fun b => !b.bindings.isEmpty) body') node.span e' t') :
      Expr.Rebuilds t (.seq node blocks body) e' t'
  | function {t t1 t2 t3 node params params' body body' ret attrs e'}
      (hp : t.defineAll p params = (params', t1)) (hb : Expr.Becomes t1 body body' t2)
      (hs : Settles (t2.tick.leave t1)
        (Transformer.allSame Var.sameAs params' params && body'.sameAs body)
        (.function node params body ret attrs)
        (.mkFunction · params' body' (some ret) attrs) node.span e' t3) :
      Expr.Rebuilds t (.function node params body ret attrs) e' (t3.leave t)

/-- What comes back for an expression: the node as it was rebuilt, with its struct info. -/
inductive Expr.Becomes : Trail → Expr → Expr → Trail → Prop
  | mk {t t1 t' e e1 e'} (hr : Expr.Rebuilds t e e1 t1) (hf : Fills rules t1 e1 e' t') :
      Expr.Becomes t e e' t'

inductive Expr.BecomeAll : Trail → List Expr → List Expr → Trail → Prop
  | nil {t} : Expr.BecomeAll t [] [] t
  | cons {t t1 t' e e' es es'} (he : Expr.Becomes t e e' t1) (hs : Expr.BecomeAll t1 es es' t') :
      Expr.BecomeAll t (e :: es) (e' :: es') t'

/-- The bindings that a binding in a block of the given kind is replaced by. -/
inductive Binding.Becomes : BlockKind → Trail → Binding → List Binding → Trail → Prop
  | kept {kind t t1 t2 mark v v' value value'} (hl : p.lowered? v value = none)
      (hy : Expr.Becomes t value value' t1) (hd : t1.define p v = (v', t2))
      (hs : (v'.sameAs v && value'.sameAs value) = true) (hk : v.dataflow → kind = .dataflow) :
      Binding.Becomes kind t (.bind mark v value) [.bind mark v value]
        (t2.record (.bind mark v value))
  | changed {kind t t1 t2 t3 mark v v1 v' value value'} (hl : p.lowered? v value = none)
      (hy : Expr.Becomes t value value' t1) (hd : t1.define p v = (v1, t2))
      (hs : (v1.sameAs v && value'.sameAs value) = false)
      (hr : t2.retype v1 value'.sinfo = (v', t3)) (hk : v'.dataflow → kind = .dataflow) :
      Binding.Becomes kind t (.bind mark v value) [.bind ⟨t3.next, mark.span⟩ v' value']
        ((t3.replaceIfChanged v v').tick.record (.bind ⟨t3.next, mark.span⟩ v' value'))
  | lowered {kind t t1 t2 t3 t4 t5 t6 t7 mark v v1 v' value out shape shape' f f' packed packed'
        alloc allocBinding called callBinding}
      (hl : p.lowered? v value = some (out, shape, f, packed)) (hk : kind = .plain)
      (hsh : Expr.Becomes t shape shape' t1) (hf : Expr.Becomes t1 f f' t2)
      (hpa : Expr.Becomes t2 packed packed' t3)
      (hal : Emits rules t3.tick.tick (allocation t3.next shape' out) alloc allocBinding t4)
      (hca : Emits rules t4.tick
        (.mkCall ⟨t4.next, none⟩ f' (packed'.asTuple?.getD [packed'] ++ [.var alloc]) none [])
        called callBinding t5)
      (hd : t5.define p v = (v1, t6)) (hr : t6.retype v1 (some out) = (v', t7)) :
      Binding.Becomes kind t (.bind mark v value)
        [allocBinding, callBinding, .bind ⟨t7.next, mark.span⟩ v' (.var alloc)]
        ((t7.replaceIfChanged v v').tick.record (.bind ⟨t7.next, mark.span⟩ v' (.var alloc)))
  | keptCast {kind t t1 t2 mark v v' value value' sinfo} (hy : Expr.Becomes t value value' t1)
      (hd : t1.define p v = (v', t2)) (hs : (v'.sameAs v && value'.sameAs value) = true)
      (hk : v.dataflow → kind = .dataflow) :
      Binding.Becomes kind t (.cast mark v value sinfo) [.cast mark v value sinfo] t2
  | changedCast {kind t t1 t2 t3 mark v v1 v' value value' sinfo}
      (hy : Expr.Becomes t value value' t1) (hd : t1.define p v = (v1, t2))
      (hs : (v1.sameAs v && value'.sameAs value) = false)
      (hr : t2.retype v1 (some sinfo) = (v', t3)) (hk : v'.dataflow → kind = .dataflow) :
      Binding.Becomes kind t (.cast mark v value sinfo) [.cast ⟨t3.next, mark.span⟩ v' value' sinfo]
        (t3.replaceIfChanged v v').tick

inductive Binding.BecomeAll : BlockKind → Trail → List Binding → List Binding → Trail → Prop
  | nil {kind t} : Binding.BecomeAll kind t [] [] t
  | cons {kind t t1 t' b out bs outs} (hb : Binding.Becomes kind t b out t1)
      (hs : Binding.BecomeAll kind t1 bs outs t') :
      Binding.BecomeAll kind t (b :: bs) (out ++ outs) t'

inductive Block.Becomes : Trail → Block → Block → Trail → Prop
  | kept {t t1 b out} (hb : Binding.BecomeAll (p.blockKind b.kind) t b.bindings out t1)
      (hs : (decide (p.blockKind b.kind = b.kind) &&
        Transformer.allSame Binding.sameAs out b.bindings) = true) :
      Block.Becomes t b b t1.tick
  | changed {t t1 b out} (hb : Binding.BecomeAll (p.blockKind b.kind) t b.bindings out t1)
      (hs : (decide (p.blockKind b.kind = b.kind) &&
        Transformer.allSame Binding.sameAs out b.bindings) = false) :
      Block.Becomes t b (.mk ⟨t1.next, b.span⟩ (p.blockKind b.kind) out) t1.tick

inductive Block.BecomeAll : Trail → List Block → List Block → Trail → Prop
  | nil {t} : Block.BecomeAll t [] [] t
  | cons {t t1 t' b b' bs bs'} (hb : Block.Becomes t b b' t1) (hs : Block.BecomeAll t1 bs bs' t') :
      Block.BecomeAll t (b :: bs) (b' :: bs') t'

end

variable {p : Pass} {rules : Rules}

namespace Trail

theorem retype_next_le {t t' : Trail} {v v' : Var} {sinfo : Option StructInfo}
    (h : t.retype v sinfo = (v', t')) : t.next ≤ t'.next := by
  unfold retype at h
  split at h
  · split at h
    · cases h
      exact le_refl _
    · cases h
      exact Nat.le_succ _
  · cases h
    exact le_refl _

theorem define_next_le {t t' : Trail} {v v' : Var} (h : t.define p v = (v', t')) :
    t.next ≤ t'.next := by
  unfold define at h
  split at h
  · cases h
    exact Nat.le_succ _
  · cases h
    exact le_refl _

theorem defineAll_next_le {t t' : Trail} {vs vs' : List Var} (h : t.defineAll p vs = (vs', t')) :
    t.next ≤ t'.next := by
  induction vs generalizing t vs' with
  | nil =>
    cases h
    exact le_refl _
  | cons v vs ih =>
    cases hv : t.define p v with
    | mk v' t1 =>
      cases hvs : t1.defineAll p vs with
      | mk ws t2 =>
        simp only [defineAll, hv, hvs] at h
        cases h
        exact (define_next_le hv).trans (ih hvs)

end Trail

theorem Settles.next_le {α : Type} {t t' : Trail} {same : Bool} {old e' : α} {new : Mark → α}
    {span : Option Span} (h : Settles t same old new span e' t') : t.next ≤ t'.next := by
  cases h with
  | same => exact le_refl _
  | changed => exact Nat.le_succ _

theorem Fills.next_le {t t' : Trail} {e e' : Expr} (h : Fills rules t e e' t') :
    t.next ≤ t'.next := by
  cases h with
  | kept => exact le_refl _
  | filled => exact Nat.le_succ _

theorem Finishes.next_le {t t' : Trail} {e e' : Expr} (h : Finishes p t e e' t') :
    t.next ≤ t'.next := by
  cases h with
  | kept => exact le_refl _
  | fused => exact (Nat.le_succ _).trans (Nat.le_succ _)

theorem Emits.next_le {t t' : Trail} {value : Expr} {v : Var} {b : Binding}
    (h : Emits rules t value v b t') : t.next ≤ t'.next := by
  cases h with
  | mk name hf hv =>
    have := hf.next_le
    simp only [Trail.record_next, Trail.tick_next]
    omega

mutual

theorem Expr.Rebuilds.next_le {t t' : Trail} {e e' : Expr} (h : Expr.Rebuilds p rules t e e' t') :
    t.next ≤ t'.next := by
  match h with
  | .leaf | .var | .shape | .prim => exact le_refl _
  | .tuple hf hs => exact hf.next_le.trans hs.next_le
  | .item hw hs => exact hw.next_le.trans hs.next_le
  | .call hc ha hs hf =>
    refine hc.next_le.trans ?_
    exact ha.next_le.trans (hs.next_le.trans hf.next_le)
  | .ite hc ht hf hs =>
    have hc := hc.next_le
    have ht := ht.next_le
    have hf := hf.next_le
    have hs := hs.next_le
    simp only [Trail.leave_next, Trail.tick_next] at hf hs
    omega
  | .seq hb hy hs =>
    have hb := hb.next_le
    have hy := hy.next_le
    have hs := hs.next_le
    simp only [Trail.tick_next] at hs
    omega
  | .function hp hb hs =>
    have hp := Trail.defineAll_next_le hp
    have hb := hb.next_le
    have hs := hs.next_le
    simp only [Trail.leave_next, Trail.tick_next] at hs ⊢
    omega

theorem Expr.Becomes.next_le {t t' : Trail} {e e' : Expr} (h : Expr.Becomes p rules t e e' t') :
    t.next ≤ t'.next := by
  match h with
  | .mk hr hf => exact hr.next_le.trans hf.next_le

theorem Expr.BecomeAll.next_le {t t' : Trail} {es es' : List Expr}
    (h : Expr.BecomeAll p rules t es es' t') : t.next ≤ t'.next := by
  match h with
  | .nil => exact le_refl _
  | .cons he hs => exact he.next_le.trans hs.next_le

theorem Binding.Becomes.next_le {kind : BlockKind} {t t' : Trail} {b : Binding}
    {out : List Binding} (h : Binding.Becomes p rules kind t b out t') : t.next ≤ t'.next := by
  match h with
  | .kept _ hy hd _ _ =>
    have hy := hy.next_le
    have hd := Trail.define_next_le hd
    simp only [Trail.record_next]
    omega
  | .changed _ hy hd _ hr _ =>
    have hy := hy.next_le
    have hd := Trail.define_next_le hd
    have hr := Trail.retype_next_le hr
    simp only [Trail.record_next, Trail.tick_next, Trail.replaceIfChanged_next]
    omega
  | .lowered _ _ hsh hf hpa hal hca hd hr =>
    have hsh := hsh.next_le
    have hf := hf.next_le
    have hpa := hpa.next_le
    have hal := hal.next_le
    have hca := hca.next_le
    have hd := Trail.define_next_le hd
    have hr := Trail.retype_next_le hr
    simp only [Trail.record_next, Trail.tick_next, Trail.replaceIfChanged_next] at hal hca ⊢
    omega
  | .keptCast hy hd _ _ => exact hy.next_le.trans (Trail.define_next_le hd)
  | .changedCast hy hd _ hr _ =>
    have hy := hy.next_le
    have hd := Trail.define_next_le hd
    have hr := Trail.retype_next_le hr
    simp only [Trail.tick_next, Trail.replaceIfChanged_next]
    omega

theorem Binding.BecomeAll.next_le {kind : BlockKind} {t t' : Trail} {bs outs : List Binding}
    (h : Binding.BecomeAll p rules kind t bs outs t') : t.next ≤ t'.next := by
  match h with
  | .nil => exact le_refl _
  | .cons hb hs => exact hb.next_le.trans hs.next_le

theorem Block.Becomes.next_le {t t' : Trail} {b b' : Block} (h : Block.Becomes p rules t b b' t') :
    t.next ≤ t'.next := by
  match h with
  | .kept hb _ | .changed hb _ => exact hb.next_le.trans (Nat.le_succ _)

theorem Block.BecomeAll.next_le {t t' : Trail} {bs bs' : List Block}
    (h : Block.BecomeAll p rules t bs bs' t') : t.next ≤ t'.next := by
  match h with
  | .nil => exact le_refl _
  | .cons hb hs => exact hb.next_le.trans hs.next_le

end

end DataflowIR
