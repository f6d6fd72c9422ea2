import DataflowIR.Proofs.Normalize.Placements
import DataflowIR.Proofs.Rewrite.Trail

namespace DataflowIR

/-- The values of the variables bound so far. -/
abbrev Values := Id → Option Expr

/-- The pass does not replace the call where these values are bound. -/
def Pass.LeavesCall (p : Pass) (bound : Values) (e : Expr) : Prop :=
  p = .fusedMultiplyAdd → ∀ t : Trail, t.bound = bound → t.fusion? e = none

section Rest

variable (p : Pass)

mutual

/-- The pass finds nothing to do in the expression: every composite node has struct info, and no
call is replaced. The values bound before the expression come first, those bound after it last. -/
inductive Expr.Rests : Values → Expr → Values → Prop
  | leaf {t node content} : Expr.Rests t (.leaf node content) t
  | var {t v} : Expr.Rests t (.var v) t
  | shape {t node values} : Expr.Rests t (.shape node values) t
  | prim {t node value dtype} : Expr.Rests t (.prim node value dtype) t
  | tuple {t t' node fields} (hn : node.sinfo.isSome) (hf : Expr.RestAll t fields t') :
      Expr.Rests t (.tuple node fields) t'
  | item {t t' node whole index} (hn : node.sinfo.isSome) (hw : Expr.Rests t whole t') :
      Expr.Rests t (.item node whole index) t'
  | call {t t1 t' node callee args attrs sinfoArgs} (hn : node.sinfo.isSome)
      (hc : Expr.Rests t callee t1) (ha : Expr.RestAll t1 args t')
      (hl : p.LeavesCall t' (.call node callee args attrs sinfoArgs)) :
      Expr.Rests t (.call node callee args attrs sinfoArgs) t'
  | ite {t t1 t2 t' node cond onTrue onFalse} (hn : node.sinfo.isSome)
      (hc : Expr.Rests t cond t1) (ht : Expr.Rests t1 onTrue t2) (hf : Expr.Rests t2 onFalse t') :
      Expr.Rests t (.ite node cond onTrue onFalse) t'
  | seq {t t1 t' node blocks body} (hn : node.sinfo.isSome) (hb : Block.RestAll t blocks t1)
      (hy : Expr.Rests t1 body t') : Expr.Rests t (.seq node blocks body) t'
  | function {t t' node params body ret attrs} (hn : node.sinfo.isSome)
      (hb : Expr.Rests t body t') : Expr.Rests t (.function node params body ret attrs) t'

inductive Expr.RestAll : Values → List Expr → Values → Prop
  | nil {t} : Expr.RestAll t [] t
  | cons {t t1 t' e es} (he : Expr.Rests t e t1) (hs : Expr.RestAll t1 es t') :
      Expr.RestAll t (e :: es) t'

inductive Binding.Rests : Values → Binding → Values → Prop
  | bind {t t' mark v value} (hy : Expr.Rests t value t') :
      Binding.Rests t (.bind mark v value) (Function.update t' v.id (some value))
  | cast {t t' mark v value sinfo} (hy : Expr.Rests t value t') :
      Binding.Rests t (.cast mark v value sinfo) t'

inductive Binding.RestAll : Values → List Binding → Values → Prop
  | nil {t} : Binding.RestAll t [] t
  | cons {t t1 t' b bs} (hb : Binding.Rests t b t1) (hs : Binding.RestAll t1 bs t') :
      Binding.RestAll t (b :: bs) t'

inductive Block.Rests : Values → Block → Values → Prop
  | mk {t t' mark kind bindings} (hb : Binding.RestAll t bindings t') :
      Block.Rests t (.mk mark kind bindings) t'

inductive Block.RestAll : Values → List Block → Values → Prop
  | nil {t} : Block.RestAll t [] t
  | cons {t t1 t' b bs} (hb : Block.Rests t b t1) (hs : Block.RestAll t1 bs t') :
      Block.RestAll t (b :: bs) t'

end

end Rest

section Annotated

variable {p : Pass}

mutual

theorem Expr.Rests.isAnnotated {t t' : Values} {e : Expr} (h : Expr.Rests p t e t') :
    e.isAnnotated := by
  match h with
  | .leaf | .var | .shape | .prim => rfl
  | .tuple hn hf => exact Bool.and_eq_true_iff.mpr ⟨hn, hf.areAnnotated⟩
  | .item hn hw => exact Bool.and_eq_true_iff.mpr ⟨hn, hw.isAnnotated⟩
  | .call hn hc ha _ =>
    simp only [Expr.isAnnotated, hn, hc.isAnnotated, ha.areAnnotated, Bool.and_self]
  | .ite hn hc ht hf =>
    simp only [Expr.isAnnotated, hn, hc.isAnnotated, ht.isAnnotated, hf.isAnnotated, Bool.and_self]
  | .seq hn hb hy =>
    simp only [Expr.isAnnotated, hn, hb.areAnnotated, hy.isAnnotated, Bool.and_self]
  | .function hn hb => exact Bool.and_eq_true_iff.mpr ⟨hn, hb.isAnnotated⟩

theorem Expr.RestAll.areAnnotated {t t' : Values} {es : List Expr} (h : Expr.RestAll p t es t') :
    Expr.areAnnotated es := by
  match h with
  | .nil => rfl
  | .cons he hs => exact Bool.and_eq_true_iff.mpr ⟨he.isAnnotated, hs.areAnnotated⟩

theorem Binding.Rests.isAnnotated {t t' : Values} {b : Binding} (h : Binding.Rests p t b t') :
    b.isAnnotated := by
  match h with
  | .bind hy | .cast hy => exact hy.isAnnotated

theorem Binding.RestAll.areAnnotated {t t' : Values} {bs : List Binding}
    (h : Binding.RestAll p t bs t') : Binding.areAnnotated bs := by
  match h with
  | .nil => rfl
  | .cons hb hs => exact Bool.and_eq_true_iff.mpr ⟨hb.isAnnotated, hs.areAnnotated⟩

theorem Block.Rests.isAnnotated {t t' : Values} {b : Block} (h : Block.Rests p t b t') :
    b.isAnnotated := by
  cases h with
  | mk hb => exact hb.areAnnotated

theorem Block.RestAll.areAnnotated {t t' : Values} {bs : List Block} (h : Block.RestAll p t bs t') :
    Block.areAnnotated bs := by
  match h with
  | .nil => rfl
  | .cons hb hs => exact Bool.and_eq_true_iff.mpr ⟨hb.isAnnotated, hs.areAnnotated⟩

end

mutual

theorem Expr.rests_of_isAnnotated (hp : p ≠ .fusedMultiplyAdd) (t : Values) {e : Expr}
    (h : e.isAnnotated) : ∃ t', Expr.Rests p t e t' := by
  cases e with
  | leaf => exact ⟨t, .leaf⟩
  | var _ => exact ⟨t, .var⟩
  | shape => exact ⟨t, .shape⟩
  | prim => exact ⟨t, .prim⟩
  | tuple node fields =>
    obtain ⟨hn, hf⟩ := Bool.and_eq_true_iff.mp h
    obtain ⟨t', hf⟩ := Expr.restAll_of_areAnnotated hp t hf
    exact ⟨t', .tuple hn hf⟩
  | item node whole index =>
    obtain ⟨hn, hw⟩ := Bool.and_eq_true_iff.mp h
    obtain ⟨t', hw⟩ := Expr.rests_of_isAnnotated hp t hw
    exact ⟨t', .item hn hw⟩
  | call node callee args attrs sinfoArgs =>
    obtain ⟨h, ha⟩ := Bool.and_eq_true_iff.mp h
    obtain ⟨hn, hc⟩ := Bool.and_eq_true_iff.mp h
    obtain ⟨t1, hc⟩ := Expr.rests_of_isAnnotated hp t hc
    obtain ⟨t', ha⟩ := Expr.restAll_of_areAnnotated hp t1 ha
    exact ⟨t', .call hn hc ha fun h => absurd h hp⟩
  | ite node cond onTrue onFalse =>
    obtain ⟨h, hf⟩ := Bool.and_eq_true_iff.mp h
    obtain ⟨h, ht⟩ := Bool.and_eq_true_iff.mp h
    obtain ⟨hn, hc⟩ := Bool.and_eq_true_iff.mp h
    obtain ⟨t1, hc⟩ := Expr.rests_of_isAnnotated hp t hc
    obtain ⟨t2, ht⟩ := Expr.rests_of_isAnnotated hp t1 ht
    obtain ⟨t', hf⟩ := Expr.rests_of_isAnnotated hp t2 hf
    exact ⟨t', .ite hn hc ht hf⟩
  | seq node blocks body =>
    obtain ⟨h, hy⟩ := Bool.and_eq_true_iff.mp h
    obtain ⟨hn, hb⟩ := Bool.and_eq_true_iff.mp h
    obtain ⟨t1, hb⟩ := Block.restAll_of_areAnnotated hp t hb
    obtain ⟨t', hy⟩ := Expr.rests_of_isAnnotated hp t1 hy
    exact ⟨t', .seq hn hb hy⟩
  | function node params body ret attrs =>
    obtain ⟨hn, hb⟩ := Bool.and_eq_true_iff.mp h
    obtain ⟨t', hb⟩ := Expr.rests_of_isAnnotated hp t hb
    exact ⟨t', .function hn hb⟩

theorem Expr.restAll_of_areAnnotated (hp : p ≠ .fusedMultiplyAdd) (t : Values) {es : List Expr}
    (h : Expr.areAnnotated es) : ∃ t', Expr.RestAll p t es t' := by
  cases es with
  | nil => exact ⟨t, .nil⟩
  | cons e es =>
    obtain ⟨he, hs⟩ := Bool.and_eq_true_iff.mp h
    obtain ⟨t1, he⟩ := Expr.rests_of_isAnnotated hp t he
    obtain ⟨t', hs⟩ := Expr.restAll_of_areAnnotated hp t1 hs
    exact ⟨t', .cons he hs⟩

theorem Binding.rests_of_isAnnotated (hp : p ≠ .fusedMultiplyAdd) (t : Values) {b : Binding}
    (h : b.isAnnotated) : ∃ t', Binding.Rests p t b t' := by
  cases b with
  | bind mark v value =>
    obtain ⟨t', hy⟩ := Expr.rests_of_isAnnotated hp t h
    exact ⟨_, .bind hy⟩
  | cast mark v value sinfo =>
    obtain ⟨t', hy⟩ := Expr.rests_of_isAnnotated hp t h
    exact ⟨t', .cast hy⟩

theorem Binding.restAll_of_areAnnotated (hp : p ≠ .fusedMultiplyAdd) (t : Values)
    {bs : List Binding} (h : Binding.areAnnotated bs) : ∃ t', Binding.RestAll p t bs t' := by
  cases bs with
  | nil => exact ⟨t, .nil⟩
  | cons b bs =>
    obtain ⟨hb, hs⟩ := Bool.and_eq_true_iff.mp h
    obtain ⟨t1, hb⟩ := Binding.rests_of_isAnnotated hp t hb
    obtain ⟨t', hs⟩ := Binding.restAll_of_areAnnotated hp t1 hs
    exact ⟨t', .cons hb hs⟩

theorem Block.rests_of_isAnnotated (hp : p ≠ .fusedMultiplyAdd) (t : Values) {b : Block}
    (h : b.isAnnotated) : ∃ t', Block.Rests p t b t' := by
  cases b with
  | mk mark kind bindings =>
    obtain ⟨t', hb⟩ := Binding.restAll_of_areAnnotated hp t h
    exact ⟨t', .mk hb⟩

theorem Block.restAll_of_areAnnotated (hp : p ≠ .fusedMultiplyAdd) (t : Values) {bs : List Block}
    (h : Block.areAnnotated bs) : ∃ t', Block.RestAll p t bs t' := by
  cases bs with
  | nil => exact ⟨t, .nil⟩
  | cons b bs =>
    obtain ⟨hb, hs⟩ := Bool.and_eq_true_iff.mp h
    obtain ⟨t1, hb⟩ := Block.rests_of_isAnnotated hp t hb
    obtain ⟨t', hs⟩ := Block.restAll_of_areAnnotated hp t1 hs
    exact ⟨t', .cons hb hs⟩

end

mutual

/-- A normal expression is at rest wherever it stands, as it has no call and binds nothing. -/
private theorem Expr.rests_of_isNormal {t : Values} :
    ∀ {e : Expr}, e.isNormal → e.isAnnotated → Expr.Rests p t e t
  | .leaf .., _, _ => .leaf
  | .var _, _, _ => .var
  | .shape .., _, _ => .shape
  | .prim .., _, _ => .prim
  | .tuple node fields, hn, ha => by
    obtain ⟨hnode, hfields⟩ := Bool.and_eq_true_iff.mp ha
    exact .tuple hnode (Expr.restAll_of_areNormal hn hfields)

theorem Expr.restAll_of_areNormal {t : Values} {es : List Expr} (hn : Expr.areNormal es)
    (ha : Expr.areAnnotated es) : Expr.RestAll p t es t := by
  cases es with
  | nil => exact .nil
  | cons e es =>
    obtain ⟨hne, hns⟩ := Bool.and_eq_true_iff.mp hn
    obtain ⟨hae, has⟩ := Bool.and_eq_true_iff.mp ha
    exact .cons (Expr.rests_of_isNormal hne hae) (Expr.restAll_of_areNormal hns has)

end

mutual

theorem Expr.Rests.eq_of_isNormal {t t' : Values} {e : Expr} (hn : e.isNormal)
    (h : Expr.Rests p t e t') : t' = t := by
  cases h with
  | leaf | var | shape | prim => rfl
  | tuple _ hf => exact hf.eq_of_areNormal hn
  | item | call | ite | seq | function => cases hn

theorem Expr.RestAll.eq_of_areNormal {t t' : Values} {es : List Expr} (hn : Expr.areNormal es)
    (h : Expr.RestAll p t es t') : t' = t := by
  match h with
  | .nil => rfl
  | .cons he hs =>
    obtain ⟨hne, hns⟩ := Bool.and_eq_true_iff.mp hn
    rw [hs.eq_of_areNormal hns, he.eq_of_isNormal hne]

end

end Annotated

end DataflowIR
