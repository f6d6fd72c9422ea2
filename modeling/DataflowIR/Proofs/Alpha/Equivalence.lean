import DataflowIR.Proofs.Alpha.Matching

namespace DataflowIR

/-- Wherever the comparison ends at a node that is in both expressions, it has one form in both. -/
def Expr.SharesFaithfully (a b : Expr) : Prop :=
  ∀ m ∈ Expr.meetings [] [] a b, m.Shared → m.Faithful

/-- A closed expression whose binders are distinct. -/
private theorem Expr.hygienic_of_closed {e : Expr} (hf : e.nameless.free = [])
    (hd : (e.bound.map Var.id).Nodup) : e.Hygienic (fun _ => True) [] := by
  refine e.hygienic_of_distinct ?_
  refine ⟨hd, fun _ _ => trivial, fun _ _ => List.not_mem_nil, ?_⟩
  intro _ hx
  exact absurd (hf ▸ hx) List.not_mem_nil

section Hygienic

variable {N : Id → Prop} {a b : Expr}

theorem Expr.alphaEq_iff (ha : a.Hygienic N []) (hb : b.Hygienic N []) :
    a.alphaEq b ↔
      Expr.Resembles a b ∧ ∀ m ∈ Expr.meetings [] [] a b, m.Shared ∨ m.Faithful := by
  constructor
  · intro h
    obtain ⟨r, hr⟩ := Option.isSome_iff_exists.mp h
    have hab := Expr.resembles_of_match? hr
    exact ⟨hab, (hab.isSome_iff ha hb (.empty N)).mp h⟩
  · rintro ⟨hab, hm⟩
    exact (hab.isSome_iff ha hb (.empty N)).mpr hm

theorem Expr.nameless_eq_iff (ha : a.Hygienic N []) (hb : b.Hygienic N []) (h : a.alphaEq b) :
    a.nameless = b.nameless ↔ a.SharesFaithfully b := by
  obtain ⟨hab, hm⟩ := (Expr.alphaEq_iff ha hb).mp h
  rw [Expr.nameless, Expr.nameless, hab.form_iff]
  exact ⟨fun hf m hmem _ => hf m hmem, fun hs m hmem => (hm m hmem).elim (hs m hmem) id⟩

theorem Expr.alphaEq_of_nameless (ha : a.Hygienic N []) (hb : b.Hygienic N [])
    (hab : Expr.Resembles a b) (h : a.nameless = b.nameless) : a.alphaEq b := by
  refine (Expr.alphaEq_iff ha hb).mpr ?_
  refine ⟨hab, ?_⟩
  intro m hm
  exact .inr (hab.form_iff.mp h m hm)

private theorem Meeting.swap_iff {m : Meeting} :
    m.swap.Shared ∨ m.swap.Faithful ↔ m.Shared ∨ m.Faithful := by
  exact or_congr ⟨Expr.sameAs_symm, Expr.sameAs_symm⟩ eq_comm

theorem Expr.alphaEq_symm (ha : a.Hygienic N []) (hb : b.Hygienic N []) (h : a.alphaEq b) :
    b.alphaEq a := by
  obtain ⟨hab, hm⟩ := (Expr.alphaEq_iff ha hb).mp h
  refine (Expr.alphaEq_iff hb ha).mpr ⟨hab.symm, ?_⟩
  rw [hab.meetings_swap, List.forall_mem_map]
  exact fun m hmem => Meeting.swap_iff.mpr (hm m hmem)

end Hygienic

/-- Closed expressions without a repeated binder that are equal have one nameless form exactly
where the variables of each node that is in both are those of the same binders. The comparison
does not see to that. -/
theorem alphaEq_nameless_iff {a b : Expr} (ha : a.nameless.free = []) (hb : b.nameless.free = [])
    (hda : (a.bound.map Var.id).Nodup) (hdb : (b.bound.map Var.id).Nodup) (h : a.alphaEq b) :
    a.nameless = b.nameless ↔ a.SharesFaithfully b := by
  have hhygienic := Expr.hygienic_of_closed ha hda
  have hhygienic' := Expr.hygienic_of_closed hb hdb
  exact Expr.nameless_eq_iff hhygienic hhygienic' h

namespace Alpha

def node (tag : Nat) : Node :=
  ⟨⟨tag, none⟩, none⟩

def var (index : Nat) (hint : String) : Var :=
  ⟨node index, ⟨index, hint⟩, false⟩

def x : Var := var 1 "x"

def y : Var := var 2 "y"

def z : Var := var 3 "z"

def neg : Expr :=
  .leaf (node 5) (.op "neg")

def function (tag : Nat) (params : List Var) (body : Expr) : Expr :=
  .function (node tag) params body .object .empty

/-- Functions of one operator node. -/
def negation (tag : Nat) (v : Var) : Expr :=
  function tag [v] (.call (node (tag + 1)) neg [.var v] none [])

theorem negation_sharesFaithfully {tag tag' : Nat} (ht : tag ≠ tag') {v w : Var}
    (hd : v.dataflow = w.dataflow) : (negation tag v).SharesFaithfully (negation tag' w) := by
  intro m hm _
  obtain rfl | rfl : m = ⟨neg, neg, [v.id], [w.id]⟩ ∨ m = ⟨.var v, .var w, [v.id], [w.id]⟩ := by
    simpa [negation, function, neg, node, Expr.meetings, Expr.meetingsAll, Expr.sameAs, Expr.tag,
      Expr.node, ht, Var.enter] using hm
  · rfl
  · simp [Meeting.Faithful, Expr.form, Label.use, hd]

/-- The first of two parameters, and the second: by the same node. -/
def first : Expr :=
  function 10 [x, y] (.var x)

def second : Expr :=
  function 11 [y, x] (.var x)

end Alpha

open Alpha in
theorem alphaEq_nameless_iff_negation :
    (negation 10 x).alphaEq (negation 20 y) ∧
      (negation 10 x).nameless = (negation 20 y).nameless := by
  have h : (negation 10 x).alphaEq (negation 20 y) := by decide +kernel
  have hs : (negation 10 x).SharesFaithfully (negation 20 y) :=
    negation_sharesFaithfully (by decide) rfl
  exact ⟨h, (alphaEq_nameless_iff rfl rfl (by decide) (by decide) h).mpr hs⟩

open Alpha in
/-- The body is the first parameter on one side and the second one on the other. -/
theorem alphaEq_not_nameless :
    first.nameless.free = [] ∧ second.nameless.free = [] ∧
      (first.bound.map Var.id).Nodup ∧ (second.bound.map Var.id).Nodup ∧
      first.alphaEq second ∧ first.nameless ≠ second.nameless := by
  refine ⟨rfl, rfl, by decide, by decide, by decide +kernel, ?_⟩
  simp [first, second, function, Expr.nameless, Expr.form, Label.use, Var.enter, x, y, var]

/-- Equality is symmetric and, where nodes are shared faithfully, transitive, among expressions of
one heap whose binders do not bind an identity that is bound around them or is free in one of the
expressions. -/
theorem alphaEq_symm_trans {heap : Nat → Expr} {N : Id → Prop} {a b c : Expr}
    (hsa : Stored heap a.nodes) (hsb : Stored heap b.nodes) (hsc : Stored heap c.nodes)
    (ha : a.Hygienic N []) (hb : b.Hygienic N []) (hc : c.Hygienic N []) :
    a.alphaEq b = b.alphaEq a ∧
      (a.SharesFaithfully b → b.SharesFaithfully c → a.alphaEq b → b.alphaEq c →
        a.alphaEq c) := by
  refine ⟨Bool.eq_iff_iff.mpr ⟨Expr.alphaEq_symm ha hb, Expr.alphaEq_symm hb ha⟩, ?_⟩
  intro hfab hfbc hab hbc
  have hr : Expr.Resembles a c :=
    ((Expr.alphaEq_iff ha hb).mp hab).1.trans hsa hsb hsc ((Expr.alphaEq_iff hb hc).mp hbc).1
  have hform : a.nameless = c.nameless :=
    ((Expr.nameless_eq_iff ha hb hab).mpr hfab).trans ((Expr.nameless_eq_iff hb hc hbc).mpr hfbc)
  exact Expr.alphaEq_of_nameless ha hc hr hform

namespace Alpha

/-- The nodes of three functions that share one. -/
def heap (tag : Nat) : Expr :=
  (((negation 10 x).nodes ++ (negation 20 y).nodes ++ (negation 30 z).nodes).find?
    (·.tag == tag)).getD default

theorem stored_negation : Stored heap (negation 10 x).nodes ∧ Stored heap (negation 20 y).nodes ∧
    Stored heap (negation 30 z).nodes := by
  refine ⟨?_, ?_, ?_⟩
  all_goals
    intro e he
    simp only [negation, function, neg, Expr.nodes, Expr.nodesAll, List.append_nil,
      List.cons_append, List.nil_append, List.mem_cons, List.not_mem_nil, or_false] at he
    obtain rfl | rfl | rfl | rfl := he <;> rfl

theorem negation_hygienic (tag : Nat) (v : Var) :
    (negation tag v).Hygienic (fun _ => True) [] := by
  simp [negation, function, neg, Expr.Hygienic, Expr.HygienicAll, Var.FreshAll, Var.Fresh,
    Var.enter]

/-- Its result is `y`, which is free here and bound in `bound`. -/
def free : Expr :=
  function 12 [x] (.var y)

def bound : Expr :=
  function 13 [y] (.var { y with node := node 6 })

/-- The second of two parameters. -/
def other : Expr :=
  function 14 [z, x] (.var { x with node := node 7 })

end Alpha

open Alpha in
theorem alphaEq_symm_trans_negation :
    (negation 10 x).alphaEq (negation 20 y) ∧ (negation 20 y).alphaEq (negation 10 x) ∧
      (negation 10 x).alphaEq (negation 30 z) := by
  have hxy : (negation 10 x).alphaEq (negation 20 y) := by decide +kernel
  have hyz : (negation 20 y).alphaEq (negation 30 z) := by decide +kernel
  have h := alphaEq_symm_trans stored_negation.1 stored_negation.2.1 stored_negation.2.2
    (negation_hygienic 10 x) (negation_hygienic 20 y) (negation_hygienic 30 z)
  exact ⟨hxy, h.1 ▸ hxy, h.2 (negation_sharesFaithfully (by decide) rfl)
    (negation_sharesFaithfully (by decide) rfl) hxy hyz⟩

open Alpha in
/-- Where an identity is free on one side and bound on the other, equality depends on the order.
Where a node is shared by two functions of which it is not the same parameter, it is not
transitive. -/
theorem alphaEq_not_symm_trans :
    (free.alphaEq bound = true ∧ bound.alphaEq free = false) ∧
      (first.alphaEq second = true ∧ second.alphaEq other = true ∧
        first.alphaEq other = false) := by
  decide +kernel

end DataflowIR
