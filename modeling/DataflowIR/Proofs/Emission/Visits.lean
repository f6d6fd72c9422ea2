import DataflowIR.Proofs.Scoping.Replacements
import DataflowIR.Traversal.Transformer

namespace DataflowIR

open Transformer (allSame)

/-- Before or after what is done at a place. -/
inductive Moment where
  | before (site : Site)
  | after (site : Site)

/-- What is emitted at the moments of a traversal, by whether the innermost block is a dataflow
block: the bindings in their order, and the next unused tag before and after them. -/
structure Emissions where
  emits : Moment → Bool → Nat → List Binding → Nat → Prop
  le : ∀ {m d n bs n'}, emits m d n bs n' → n ≤ n'

/-- What is emitted at moments one after the other. Tags may be used up meanwhile. -/
inductive Emissions.Row (E : Emissions) (d : Bool) :
    List Moment → Nat → List Binding → Nat → Prop
  | nil {n n'} (h : n ≤ n') : Row E d [] n [] n'
  | cons {m ms n n1 n2 n' x y} (h : n ≤ n1) (hm : E.emits m d n1 x n2) (hs : Row E d ms n2 y n') :
      Row E d (m :: ms) n (x ++ y) n'

namespace Emissions.Row

variable {E : Emissions} {d : Bool} {ms ms' : List Moment} {n n1 n' : Nat} {x y : List Binding}

theorem le (h : E.Row d ms n x n') : n ≤ n' := by
  induction h with
  | nil h => exact h
  | cons h hm _ ih => exact h.trans ((E.le hm).trans ih)

theorem one {m : Moment} (h : E.emits m d n x n') : E.Row d [m] n x n' := by
  simpa using Row.cons (le_refl n) h (.nil (le_refl n'))

theorem of_le (h : n ≤ n1) (k : E.Row d ms n1 x n') : E.Row d ms n x n' := by
  cases k with
  | nil h' => exact .nil (h.trans h')
  | cons h' hm hs => exact .cons (h.trans h') hm hs

theorem append (h : E.Row d ms n x n1) (k : E.Row d ms' n1 y n') :
    E.Row d (ms ++ ms') n (x ++ y) n' := by
  induction h with
  | nil h => exact k.of_le h
  | cons h hm _ ih =>
    rw [List.append_assoc]
    exact .cons h hm (ih k)

end Emissions.Row

def spanMoments : Option Span → List Moment
  | some s => [.before (.span s), .after (.span s)]
  | none => []

def Dim.moments (d : Dim) : List Moment :=
  [.before (.dim d), .after (.dim d)]

def StructInfo.moments (i : StructInfo) : List Moment :=
  [.before (.type i), .after (.type i)]

/-- The moments of the definition of a variable. -/
def Var.moments (v : Var) : List Moment :=
  [.before (.varDef v), .before (.varDefKind v)] ++
    (spanMoments v.span ++ (v.sinfo.elim [] StructInfo.moments ++
      [.after (.varDefKind v), .after (.varDef v)]))

/-- The moments before the parts of an expression are visited. -/
def Expr.entry (e : Expr) : List Moment :=
  [.before (.expr e), .before (.exprKind e)] ++ spanMoments e.span

def Expr.exit (e : Expr) : List Moment :=
  [.after (.exprKind e), .after (.expr e)]

def Expr.around (e : Expr) : List Moment :=
  e.entry ++ e.exit

namespace Binding

def entry (b : Binding) : List Moment :=
  [.before (.binding b), .before (.bindingKind b)]

def exit (b : Binding) : List Moment :=
  [.after (.bindingKind b), .after (.binding b)]

/-- The moments between the value of a binding and the binding itself. -/
def moments : Binding → List Moment
  | bind _ v _ => v.moments
  | cast _ v _ sinfo => sinfo.moments ++ v.moments

/-- The binding of another variable to another value. -/
def rebuilt (b : Binding) (mark : Mark) (v : Var) (value : Expr) : Binding :=
  match b with
  | bind .. => .bind mark v value
  | cast _ _ _ sinfo => .cast mark v value sinfo

theorem value_rebuilt (b : Binding) (mark : Mark) (v : Var) (value : Expr) :
    (b.rebuilt mark v value).value = value := by
  cases b <;> rfl

end Binding

namespace Block

def entry (b : Block) : List Moment :=
  [.before (.block b), .before (.blockKind b)]

def exit (b : Block) : List Moment :=
  [.after (.blockKind b), .after (.block b)]

def around (b : Block) : List Moment :=
  b.entry ++ b.exit

end Block

/-- A node of the parts visited: the old one where they are the same, or else a new one. -/
inductive Remakes {α : Type} (n : Nat) (same : Bool) (old : α) (new : Mark → α) : α → Prop
  | same (h : same = true) : Remakes n same old new old
  | changed {mark : Mark} (h : n ≤ mark.tag) : Remakes n same old new (new mark)

theorem Remakes.of_le {α : Type} {n n' : Nat} {same : Bool} {old e' : α} {new : Mark → α}
    (h : n ≤ n') (k : Remakes n' same old new e') : Remakes n same old new e' := by
  cases k with
  | same hs => exact .same hs
  | changed ht => exact .changed (h.trans ht)

/-- The node, or a copy with the struct info that it lacked. -/
inductive Refills (n : Nat) (e : Expr) : Expr → Prop
  | kept : Refills n e e
  | filled {tag : Nat} {sinfo : StructInfo} (h : n ≤ tag) : Refills n e (e.withSinfo tag sinfo)

theorem Remakes.eq_or_le {α : Type} {n : Nat} {same : Bool} {old e' : α} {new : Mark → α}
    (tag : α → Nat) (h : Remakes n same old new e') (ht : ∀ m, tag (new m) = m.tag) :
    e' = old ∨ n ≤ tag e' := by
  cases h with
  | same => exact .inl rfl
  | changed hm => exact .inr (hm.trans (ht _).ge)

/-- What is seen of a node made of the parts visited does not depend on whether it is a new one. -/
theorem Remakes.image {α β : Type} {n : Nat} {same : Bool} {old e' : α} {new : Mark → α} (f : α → β)
    (h : Remakes n same old new e') (hnew : ∀ m, f (new m) = f (new ⟨0, none⟩))
    (hold : same = true → f (new ⟨0, none⟩) = f old) : f e' = f (new ⟨0, none⟩) := by
  cases h with
  | same hs => exact (hold hs).symm
  | changed => exact hnew _

private theorem Expr.withSinfo_withSinfo (e : Expr) (tag tag' : Nat) (i i' : StructInfo) :
    (e.withSinfo tag i).withSinfo tag' i' = e.withSinfo tag' i' := by
  cases e <;> rfl

theorem Refills.trans {n n' : Nat} {e e1 e2 : Expr} (h : Refills n e e1) (hn : n ≤ n')
    (k : Refills n' e1 e2) : Refills n e e2 := by
  cases k with
  | kept => exact h
  | filled ht =>
    cases h with
    | kept => exact .filled (hn.trans ht)
    | filled =>
      rw [Expr.withSinfo_withSinfo]
      exact .filled (hn.trans ht)

section Relation

variable (E : Emissions) (V : Id → Var → Prop)

mutual

/-- An expression, with what is emitted into the block around it, and what is emitted in all. Where
the block is a dataflow block, the first argument is set; the supply of tags goes from `n` to `n'`.
-/
inductive Expr.Visits : Bool → Nat → Expr → List Binding → List Binding → Expr → Nat → Prop
  | mk {d n n1 n2 n' e e1 e' x g l y} (hb : E.Row d e.entry n x n1)
      (hw : Expr.Walks d n1 e g l e1 n2) (hf : Refills n2 e1 e') (ha : E.Row d e.exit n2 y n') :
      Expr.Visits d n e (x ++ (g ++ y)) (x ++ (l ++ y)) e' n'

/-- What is done between the entry of an expression and its exit. Uses of a variable may refer to
one that `V` allows. -/
inductive Expr.Walks : Bool → Nat → Expr → List Binding → List Binding → Expr → Nat → Prop
  | leaf {d n node content} : Expr.Walks d n (.leaf node content) [] [] (.leaf node content) n
  | var {d n v w} (h : w = v ∨ V v.id w) : Expr.Walks d n (.var v) [] [] (.var w) n
  | shape {d n n' node values x} (h : E.Row d (values.flatMap Dim.moments) n x n') :
      Expr.Walks d n (.shape node values) x x (.shape node values) n'
  | prim {d n n' node value dtype x} (h : E.Row d value.moments n x n') :
      Expr.Walks d n (.prim node value dtype) x x (.prim node value dtype) n'
  | tuple {d n n' node fields fields' g l e'} (hf : Expr.VisitAll d n fields g l fields' n')
      (hs : Remakes n' (allSame Expr.sameAs fields' fields) (.tuple node fields)
        (.mkTuple · fields') e') :
      Expr.Walks d n (.tuple node fields) g l e' n'
  | item {d n n' node whole whole' index g l e'} (hw : Expr.Visits d n whole g l whole' n')
      (hs : Remakes n' (whole'.sameAs whole) (.item node whole index) (.mkItem · whole' index) e') :
      Expr.Walks d n (.item node whole index) g l e' n'
  | call {d n n1 n2 n' node callee callee' args args' attrs sinfoArgs g l x g' l' e'}
      (hc : Expr.Visits d n callee g l callee' n1)
      (ht : E.Row d (sinfoArgs.flatMap StructInfo.moments) n1 x n2)
      (ha : Expr.VisitAll d n2 args g' l' args' n')
      (hs : Remakes n' (allSame Expr.sameAs args' args && callee'.sameAs callee)
        (.call node callee args attrs sinfoArgs) (.mkCall · callee' args' attrs sinfoArgs) e') :
      Expr.Walks d n (.call node callee args attrs sinfoArgs) (g ++ (x ++ g')) (l ++ (x ++ l')) e'
        n'
  | ite {d n n1 n2 n' node cond cond' onTrue onTrue' onFalse onFalse' g l l1 l2 e'}
      (hc : Expr.Visits d n cond g l cond' n1) (ht : Expr.Scoped n1 onTrue l1 onTrue' n2)
      (hf : Expr.Scoped n2 onFalse l2 onFalse' n')
      (hs : Remakes n' (cond'.sameAs cond && onTrue'.sameAs onTrue && onFalse'.sameAs onFalse)
        (.ite node cond onTrue onFalse) (.mkIte · cond' onTrue' onFalse') e') :
      Expr.Walks d n (.ite node cond onTrue onFalse) g (l ++ (l1 ++ l2)) e' n'
  | seq {d n n1 n' node blocks blocks' body body' mark g l g' l' e'}
      (hb : Block.VisitAll d n blocks g l blocks' n1)
      (hy : Expr.Visits false n1 body g' l' body' n')
      (hs : Remakes n' (allSame Block.sameAs blocks' blocks && g'.isEmpty && body'.sameAs body)
        (.seq node blocks body)
        (fun node' => .mkSeq node'
          ((blocks' ++ [Block.mk mark .plain g']).filter fun b => !b.bindings.isEmpty) body') e') :
      Expr.Walks d n (.seq node blocks body) g (l ++ l') e' n'
  | function {d n n1 n' node params body body' ret attrs x l e'}
      (hp : E.Row d (params.flatMap Var.moments ++ ret.moments) n x n1)
      (hb : Expr.Scoped n1 body l body' n')
      (hs : Remakes n' (body'.sameAs body) (.function node params body ret attrs)
        (.mkFunction · params body' (some ret) attrs) e') :
      Expr.Walks d n (.function node params body ret attrs) x (x ++ l) e' n'

inductive Expr.VisitAll :
    Bool → Nat → List Expr → List Binding → List Binding → List Expr → Nat → Prop
  | nil {d n} : Expr.VisitAll d n [] [] [] [] n
  | cons {d n n1 n' e e' es es' g l g' l'} (he : Expr.Visits d n e g l e' n1)
      (hs : Expr.VisitAll d n1 es g' l' es' n') :
      Expr.VisitAll d n (e :: es) (g ++ g') (l ++ l') (e' :: es') n'

/-- The body of a function or a branch. What is emitted around it comes to stand before it. -/
inductive Expr.Scoped : Nat → Expr → List Binding → Expr → Nat → Prop
  | bare {n n1 n' e l e'} (h : Expr.Visits false n e [] l e' n1) (hn : n1 ≤ n') :
      Expr.Scoped n e l e' n'
  | prefaced {n n1 n' e g l e' node mark} (h : Expr.Visits false n e g l e' n1) (hg : g ≠ [])
      (ht : n1 ≤ node.tag) (hn : n1 ≤ n') :
      Expr.Scoped n e l (.seq node [.mk mark .plain g] e') n'

/-- A binding, with what is emitted into its block. -/
inductive Binding.Visits : Bool → Nat → Binding → List Binding → List Binding → Nat → Prop
  | mk {d n n1 n2 n3 n' b b' v' value' x g l y z} (hb : E.Row d b.entry n x n1)
      (hv : Expr.Visits d n1 b.value g l value' n2) (hd : E.Row d b.moments n2 y n3)
      (hk : v'.id = b.var.id ∧ v'.dataflow = b.var.dataflow)
      (hs : Remakes n3 (value'.sameAs b.value) b (b.rebuilt · v' value') b')
      (ha : E.Row d b.exit n3 z n') :
      Binding.Visits d n b (x ++ (g ++ (y ++ b' :: z))) (x ++ (l ++ (y ++ b' :: z))) n'

inductive Binding.VisitAll : Bool → Nat → List Binding → List Binding → List Binding → Nat → Prop
  | nil {d n} : Binding.VisitAll d n [] [] [] n
  | cons {d n n1 n' b bs g l g' l'} (hb : Binding.Visits d n b g l n1)
      (hs : Binding.VisitAll d n1 bs g' l' n') :
      Binding.VisitAll d n (b :: bs) (g ++ g') (l ++ l') n'

/-- A block, with what is emitted into the block around it. -/
inductive Block.Visits : Bool → Nat → Block → List Binding → List Binding → Block → Nat → Prop
  | mk {d n n1 n2 n' b b' x out l y} (hb : E.Row d b.entry n x n1)
      (hv : Binding.VisitAll (b.kind == .dataflow) n1 b.bindings out l n2)
      (hs : Remakes n2 (allSame Binding.sameAs out b.bindings) b (.mk · b.kind out) b')
      (ha : E.Row d b.exit n2 y n') :
      Block.Visits d n b (x ++ y) (x ++ (l ++ y)) b' n'

inductive Block.VisitAll :
    Bool → Nat → List Block → List Binding → List Binding → List Block → Nat → Prop
  | nil {d n} : Block.VisitAll d n [] [] [] [] n
  | cons {d n n1 n' b b' bs bs' g l g' l'} (hb : Block.Visits d n b g l b' n1)
      (hs : Block.VisitAll d n1 bs g' l' bs' n') :
      Block.VisitAll d n (b :: bs) (g ++ g') (l ++ l') (b' :: bs') n'

end

end Relation

section Tags

variable {E : Emissions} {V : Id → Var → Prop}

mutual

theorem Expr.Visits.le {e e' : Expr} {g l : List Binding} {d : Bool} {n n' : Nat}
    (h : Expr.Visits E V d n e g l e' n') : n ≤ n' := by
  match h with
  | .mk hb hw _ ha => exact hb.le.trans (hw.le.trans ha.le)

theorem Expr.Walks.le {e e' : Expr} {g l : List Binding} {d : Bool} {n n' : Nat}
    (hwalks : Expr.Walks E V d n e g l e' n') : n ≤ n' := by
  match hwalks with
  | .leaf | .var _ => exact le_refl _
  | .shape h | .prim h => exact h.le
  | .tuple hf _ => exact hf.le
  | .item hw _ => exact hw.le
  | .call hc ht ha _ => exact hc.le.trans (ht.le.trans ha.le)
  | .ite hc ht hf _ => exact hc.le.trans (ht.le.trans hf.le)
  | .seq hb hy _ => exact hb.le.trans hy.le
  | .function hp hb _ => exact hp.le.trans hb.le

theorem Expr.VisitAll.le {es es' : List Expr} {g l : List Binding} {d : Bool} {n n' : Nat}
    (h : Expr.VisitAll E V d n es g l es' n') : n ≤ n' := by
  match h with
  | .nil => exact le_refl _
  | .cons he hs => exact he.le.trans hs.le

theorem Expr.Scoped.le {e e' : Expr} {l : List Binding} {n n' : Nat}
    (hscoped : Expr.Scoped E V n e l e' n') : n ≤ n' := by
  match hscoped with
  | .bare h hn => exact h.le.trans hn
  | .prefaced h _ _ hn => exact h.le.trans hn

theorem Binding.Visits.le {b : Binding} {g l : List Binding} {d : Bool} {n n' : Nat}
    (h : Binding.Visits E V d n b g l n') : n ≤ n' := by
  match h with
  | .mk hb hv hd _ _ ha => exact hb.le.trans (hv.le.trans (hd.le.trans ha.le))

theorem Binding.VisitAll.le {bs : List Binding} {g l : List Binding} {d : Bool} {n n' : Nat}
    (h : Binding.VisitAll E V d n bs g l n') : n ≤ n' := by
  match h with
  | .nil => exact le_refl _
  | .cons hb hs => exact hb.le.trans hs.le

theorem Block.Visits.le {b b' : Block} {g l : List Binding} {d : Bool} {n n' : Nat}
    (h : Block.Visits E V d n b g l b' n') : n ≤ n' := by
  match h with
  | .mk hb hv _ ha => exact hb.le.trans (hv.le.trans ha.le)

theorem Block.VisitAll.le {bs bs' : List Block} {g l : List Binding} {d : Bool} {n n' : Nat}
    (h : Block.VisitAll E V d n bs g l bs' n') : n ≤ n' := by
  match h with
  | .nil => exact le_refl _
  | .cons hb hs => exact hb.le.trans hs.le

end

theorem Below.mono {n n' : Nat} {tags : List Nat} (h : Below n tags) (hn : n ≤ n') :
    Below n' tags := by
  intro tag ht
  exact (h tag ht).trans_le hn

section Old

variable {d : Bool} {n n' : Nat} {g l : List Binding}

theorem Expr.Walks.eq_or_le {e e' : Expr} (h : Expr.Walks E V d n e g l e' n') :
    e' = e ∨ (∃ v w, e = .var v ∧ e' = .var w ∧ V v.id w) ∨ n ≤ e'.tag := by
  have hn := h.le
  cases h with
  | leaf | shape | prim => exact .inl rfl
  | var hv =>
    obtain rfl | hv := hv
    · exact .inl rfl
    · exact .inr (.inl ⟨_, _, rfl, rfl, hv⟩)
  | tuple _ hs | item _ hs | call _ _ _ hs | ite _ _ _ hs | seq _ _ hs | function _ _ hs =>
    exact ((Remakes.of_le hn hs).eq_or_le Expr.tag fun _ => rfl).imp_right .inr

/-- An expression that comes back with its tag is the old one, or a use of a replaced variable. -/
theorem Expr.Visits.eq_of_sameAs {e e' : Expr} (h : Expr.Visits E V d n e g l e' n')
    (ht : e.tag < n) (hs : e'.sameAs e) :
    e' = e ∨ ∃ v w, e = .var v ∧ e' = .var w ∧ V v.id w := by
  have htag : e'.tag = e.tag := beq_iff_eq.mp hs
  cases h with
  | mk hb hw hf ha =>
    have hn := hb.le
    cases hf with
    | kept =>
      obtain h | h | h := hw.eq_or_le
      · exact .inl h
      · exact .inr h
      · omega
    | filled hm =>
      have hw := hw.le
      rw [Expr.withSinfo, Expr.tag, Expr.node_withNode] at htag
      simp only at htag
      omega

theorem Block.Visits.eq_of_sameAs {b b' : Block} (h : Block.Visits E V d n b g l b' n')
    (ht : b.tag < n) (hs : b'.sameAs b) : b' = b := by
  have htag : b'.tag = b.tag := beq_iff_eq.mp hs
  cases h with
  | mk hb hv hr ha =>
    obtain h | h := hr.eq_or_le Block.tag fun _ => rfl
    · exact h
    · have := hb.le.trans hv.le
      omega

/-- Among what is emitted for a binding is the binding itself or a new one. -/
private theorem Binding.Visits.exists_eq_append {b : Binding}
    (h : Binding.Visits E V d n b g l n') :
    ∃ x b' z, g = x ++ b' :: z ∧ (b' = b ∨ n ≤ b'.tag) := by
  cases h with
  | @mk _ _ _ _ _ _ _ b' _ _ x g _ y z hb hv hd hk hr ha =>
    have hn := hb.le.trans (hv.le.trans hd.le)
    refine ⟨x ++ (g ++ y), b', z, by simp, (Remakes.of_le hn hr).eq_or_le Binding.tag ?_⟩
    intro m
    cases b <;> rfl

theorem Binding.VisitAll.length_le {bs : List Binding} (h : Binding.VisitAll E V d n bs g l n') :
    bs.length ≤ g.length := by
  induction bs generalizing n g l with
  | nil => exact Nat.zero_le _
  | cons b bs ih =>
    cases h with
    | cons hb hs =>
      have := ih hs
      obtain ⟨x, b', z, rfl, -⟩ := hb.exists_eq_append
      simp only [List.length_append, List.length_cons]
      omega

/-- A block that comes back with the old bindings got no others. -/
theorem Binding.VisitAll.eq_of_allSame {bs : List Binding}
    (h : Binding.VisitAll E V d n bs g l n') (ht : Below n (Binding.tagsAll bs))
    (hs : allSame Binding.sameAs g bs) : g = bs := by
  induction bs generalizing n g l with
  | nil =>
    cases h
    rfl
  | cons b bs ih =>
    cases h with
    | cons hb hbs =>
      obtain ⟨htb, hts⟩ := ht.append
      have hlen := hbs.length_le
      have hn := hb.le
      obtain ⟨x, b', z, rfl, hold⟩ := hb.exists_eq_append
      have hall := Transformer.length_of_allSame hs
      simp only [List.length_append, List.length_cons] at hall
      obtain rfl : x = [] := List.eq_nil_of_length_eq_zero (by omega)
      obtain rfl : z = [] := List.eq_nil_of_length_eq_zero (by omega)
      obtain ⟨hsame, hrest⟩ := Bool.and_eq_true_iff.mp hs
      have htag : b'.tag = b.tag := beq_iff_eq.mp hsame
      have hlt : b.tag < n := htb b.tag (by cases b <;> exact List.mem_cons_self ..)
      obtain rfl | hle := hold
      · exact congrArg _ (ih hbs (hts.mono hn) hrest)
      · omega

theorem Block.VisitAll.eq_of_allSame {bs bs' : List Block}
    (h : Block.VisitAll E V d n bs g l bs' n') (ht : Below n (Block.tagsAll bs))
    (hs : allSame Block.sameAs bs' bs) : bs' = bs := by
  induction bs generalizing n bs' g l with
  | nil =>
    cases h
    rfl
  | cons b bs ih =>
    cases h with
    | cons hb hbs =>
      obtain ⟨htb, hts⟩ := ht.append
      obtain ⟨hsb, hss⟩ := Bool.and_eq_true_iff.mp hs
      have htag : b.tag < n := htb _ (by cases b; exact List.mem_cons_self ..)
      rw [hb.eq_of_sameAs htag hsb, ih hbs (hts.mono hb.le) hss]

end Old

end Tags

end DataflowIR
