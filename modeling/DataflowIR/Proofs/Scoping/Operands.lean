import DataflowIR.Proofs.Scoping.Replacements

namespace DataflowIR

open Scope (Op)

@[simp] theorem Expr.ops_withNode (n : Node) (e : Expr) (asBody : Bool) :
    (e.withNode n).ops asBody = e.ops asBody := by
  cases e <;> rfl

theorem Expr.ops_of_isNormal {e : Expr} (h : e.isNormal) (asBody : Bool) :
    e.ops asBody = e.mentions.map .mention := by
  cases e with
  | leaf | var | shape | prim | tuple => rfl
  | _ => cases h

theorem Expr.mentionsAll_append (es es' : List Expr) :
    Expr.mentionsAll (es ++ es') = Expr.mentionsAll es ++ Expr.mentionsAll es' := by
  induction es with
  | nil => rfl
  | cons e es ih => rw [List.cons_append, Expr.mentionsAll, Expr.mentionsAll, ih, List.append_assoc]

theorem Binding.opsAll_singleton (b : Binding) : Binding.opsAll [b] = b.ops :=
  List.append_nil _

theorem Binding.opsAll_append (bs bs' : List Binding) :
    Binding.opsAll (bs ++ bs') = Binding.opsAll bs ++ Binding.opsAll bs' := by
  induction bs with
  | nil => rfl
  | cons b bs ih => rw [List.cons_append, Binding.opsAll, Binding.opsAll, ih, List.append_assoc]

theorem Fills.asOp? {rules : Rules} {t t' : Trail} {e e' : Expr} (h : Fills rules t e e' t') :
    e'.asOp? = e.asOp? := by
  cases h with
  | kept => rfl
  | filled =>
    cases e with
    | leaf _ content => cases content <;> rfl
    | _ => rfl

theorem Expr.Becomes.asOp? {p : Pass} {rules : Rules} {t t' : Trail} {e e' : Expr}
    (h : Expr.Becomes p rules t e e' t') : e'.asOp? = e.asOp? := by
  cases h with
  | mk hr hf =>
    rw [hf.asOp?]
    cases hr with
    | leaf | var | shape | prim => rfl
    | tuple _ hs | item _ hs | ite _ _ _ hs | seq _ _ hs | function _ _ hs => cases hs <;> rfl
    | call _ _ hs hf =>
      cases hf with
      | kept => cases hs <;> rfl
      | fused => rfl

theorem Expr.Becomes.asVar? {p : Pass} {rules : Rules} {t t' : Trail} {e e' : Expr}
    (h : Expr.Becomes p rules t e e' t') (hk : t.KeepsIds) :
    e'.asVar?.map Var.id = e.asVar?.map Var.id := by
  cases h with
  | @mk _ _ _ _ e1 _ hr hf =>
    have hf : e'.asVar?.map Var.id = e1.asVar?.map Var.id := by
      cases hf with
      | kept => rfl
      | filled => cases e1 <;> rfl
    rw [hf]
    cases hr with
    | @var _ v =>
      cases hv : t.remap v.id with
      | none => rfl
      | some w => exact congrArg some (hk _ _ hv)
    | leaf | shape | prim => rfl
    | tuple _ hs | item _ hs | ite _ _ _ hs | seq _ _ hs | function _ _ hs => cases hs <;> rfl
    | call _ _ hs hf =>
      cases hf with
      | kept => cases hs <;> rfl
      | fused => rfl

theorem Expr.BecomeAll.length_eq {p : Pass} {rules : Rules} {t t' : Trail} {es es' : List Expr}
    (h : Expr.BecomeAll p rules t es es' t') : es'.length = es.length := by
  induction es generalizing t es' with
  | nil =>
    cases h
    rfl
  | cons e es ih =>
    cases h with
    | cons he hs => simp [ih hs]

theorem Expr.eq_leaf_of_asOp? {e : Expr} {name : String} (h : e.asOp? = some name) :
    ∃ node, e = .leaf node (.op name) := by
  cases e with
  | leaf node content =>
    cases content with
    | op n =>
      cases h
      exact ⟨node, rfl⟩
    | _ => cases h
  | _ => cases h

section Calls

variable {c c' : Call}

/-- The operands of a binary call are its arguments. -/
theorem Call.binaryOperands?_map {α : Type} (g : List Expr → α) (name : String) :
    ((c.binaryOperands? name).map fun (a, b) => g [a, b]) =
      if c.args.length = 2 ∧ c.isOp name then some (g c.args) else none := by
  unfold binaryOperands?
  split
  · next ha => cases h : c.isOp name <;> simp [ha]
  · next ha =>
    rw [if_neg, Option.map_none]
    rintro ⟨hl, -⟩
    obtain ⟨a, b, hab⟩ := List.length_eq_two.mp hl
    exact ha a b hab

theorem Call.summand?_eq : c.summand? =
    if c.args.length = 2 ∧ c.isOp "relax.add" then c.args.head?.bind Expr.asVar? else none := by
  have h : c.summand? = ((c.binaryOperands? "relax.add").map fun (a, b) =>
      [a, b].head?.bind Expr.asVar?).join := by
    unfold summand?
    cases c.binaryOperands? "relax.add" <;> rfl
  rw [h, Call.binaryOperands?_map fun es => es.head?.bind Expr.asVar?]
  split <;> rfl

/-- A rewritten call has its summand where it was. -/
theorem Call.summand?_becomes {p : Pass} {rules : Rules} {t t' : Trail}
    (hop : c'.callee.asOp? = c.callee.asOp?) (ha : Expr.BecomeAll p rules t c.args c'.args t')
    (hk : t.KeepsIds) : c'.summand?.map Var.id = c.summand?.map Var.id := by
  have hhead : (c'.args.head?.bind Expr.asVar?).map Var.id =
      (c.args.head?.bind Expr.asVar?).map Var.id := by
    generalize c.args = args at ha
    generalize c'.args = args' at ha
    cases ha with
    | nil => rfl
    | cons he hs => exact he.asVar? hk
  rw [Call.summand?_eq, Call.summand?_eq, ha.length_eq, isOp, isOp, hop]
  split
  · exact hhead
  · rfl

theorem Call.sinfoOp_congr (h : c'.summand?.map Var.id = c.summand?.map Var.id)
    (hs : c'.sinfoArgs = c.sinfoArgs) : c'.sinfoOp = c.sinfoOp := by
  unfold sinfoOp
  rw [hs]
  cases hc : c.summand? <;> cases hc' : c'.summand? <;> simp_all

end Calls

/-- A call is rebuilt from its parts, also where it comes back as the same node. -/
theorem Settles.eq_call {p : Pass} {base : Nat} {kind : Id → Bool} {t t1 t2 t3 : Trail}
    {node : Node} {callee callee' e1 : Expr} {args args' : List Expr} {attrs : Option Attrs}
    {sinfoArgs : List StructInfo}
    (hs : Settles t2 (Transformer.allSame Expr.sameAs args' args && callee'.sameAs callee)
      (.call node callee args attrs sinfoArgs) (.mkCall · callee' args' attrs sinfoArgs)
      node.span e1 t3)
    (hc : Expr.Becomes p .standard t callee callee' t1)
    (ha : Expr.BecomeAll p .standard t1 args args' t2) (hn : Expr.areNormal args)
    (hb : Below base (Expr.call node callee args attrs sinfoArgs).tags)
    (ht : t.Sound p base kind) (ht1 : t1.Sound p base kind) :
    ∃ node1, e1 = (Call.mk node1 callee' args' attrs sinfoArgs).toExpr := by
  cases hs with
  | same h =>
    rw [Bool.and_eq_true] at h
    rw [hc.eq_of_sameAs ht hb.cons.2.append.1 h.2,
      ha.eq_of_sameAs hn ht1 hb.cons.2.append.2 h.1]
    exact ⟨node, rfl⟩
  | changed => exact ⟨_, rfl⟩

end DataflowIR
