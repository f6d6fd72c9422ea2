import DataflowIR.Proofs.Alpha.Forms

namespace DataflowIR

namespace Var

variable {bs : List Id}

theorem enter_singleton {v : Var} : enter bs [v] = v.id :: bs :=
  rfl

theorem enter_append {vs ws : List Var} : enter bs (vs ++ ws) = enter (enter bs vs) ws := by
  simp [enter]

theorem enter_cons {v : Var} {vs : List Var} : enter bs (v :: vs) = enter (enter bs [v]) vs := by
  simp [enter]

theorem mem_enter {vs : List Var} {x : Id} : x ∈ enter bs vs ↔ x ∈ vs.map Var.id ∨ x ∈ bs := by
  simp [enter]

end Var

section Hygiene

variable (N : Id → Prop)

def Var.Fresh (bs : List Id) (v : Var) : Prop :=
  N v.id ∧ v.id ∉ bs

def Var.FreshAll (bs : List Id) : List Var → Prop
  | [] => True
  | v :: vs => v.Fresh N bs ∧ Var.FreshAll (Var.enter bs [v]) vs

mutual

/-- Inside binders of `bs`, every binder binds an identity that is in `N` and not bound around it,
and an identity in `N` is used in the scope of a binder of it only. -/
def Expr.Hygienic (bs : List Id) : Expr → Prop
  | .leaf .. | .shape .. | .prim .. => True
  | .var v => v.id ∈ bs ∨ ¬ N v.id
  | .tuple _ fields => Expr.HygienicAll bs fields
  | .item _ whole _ => whole.Hygienic bs
  | .call _ callee args _ _ => callee.Hygienic bs ∧ Expr.HygienicAll bs args
  | .ite _ cond onTrue onFalse => cond.Hygienic bs ∧ onTrue.Hygienic bs ∧ onFalse.Hygienic bs
  | .seq _ blocks body =>
    Block.HygienicAll bs blocks ∧ body.Hygienic (Var.enter bs (blocks.flatMap Block.vars))
  | .function _ params body _ _ => Var.FreshAll N bs params ∧ body.Hygienic (Var.enter bs params)

def Expr.HygienicAll (bs : List Id) : List Expr → Prop
  | [] => True
  | e :: es => e.Hygienic bs ∧ Expr.HygienicAll bs es

def Binding.Hygienic (bs : List Id) : Binding → Prop
  | .bind _ v value | .cast _ v value _ => value.Hygienic bs ∧ v.Fresh N bs

def Binding.HygienicAll (bs : List Id) : List Binding → Prop
  | [] => True
  | c :: cs => c.Hygienic bs ∧ Binding.HygienicAll (Var.enter bs [c.var]) cs

def Block.Hygienic (bs : List Id) : Block → Prop
  | .mk _ _ bindings => Binding.HygienicAll bs bindings

def Block.HygienicAll (bs : List Id) : List Block → Prop
  | [] => True
  | b :: rest => b.Hygienic bs ∧ Block.HygienicAll (Var.enter bs b.vars) rest

end

end Hygiene

/-- The variables bound in a part inside binders of `bs` have identities that are distinct, in `N`
and not in `bs`. Those that it uses free are not in `N`. -/
structure DistinctBinders (N : Id → Prop) (bs : List Id) (bound : List Var) (free : List Id) :
    Prop where
  nodup : (bound.map Var.id).Nodup
  named : ∀ v ∈ bound, N v.id
  outside : ∀ v ∈ bound, v.id ∉ bs
  free : ∀ x ∈ free, ¬ N x

namespace DistinctBinders

variable {N : Id → Prop} {bs : List Id} {vs ws us : List Var} {xs ys : List Id}

theorem before (h : DistinctBinders N bs (vs ++ ws) xs) (hs : ys ⊆ xs) :
    DistinctBinders N bs vs ys := by
  have hd := List.nodup_append.mp (List.map_append ▸ h.nodup)
  exact ⟨hd.1, (List.forall_mem_append.mp h.named).1, (List.forall_mem_append.mp h.outside).1,
    fun x hx => h.free x (hs hx)⟩

theorem append (h : DistinctBinders N bs (vs ++ ws) (xs ++ ys)) :
    DistinctBinders N bs vs xs ∧ DistinctBinders N bs ws ys := by
  have hd := List.nodup_append.mp (List.map_append ▸ h.nodup)
  exact ⟨h.before (List.subset_append_left _ _), hd.2.1, (List.forall_mem_append.mp h.named).2,
    (List.forall_mem_append.mp h.outside).2, (List.forall_mem_append.mp h.free).2⟩

/-- What comes after variables that are in scope there. -/
theorem inner (h : DistinctBinders N bs (vs ++ ws) xs) (hu : us ⊆ vs) (hs : ys ⊆ xs) :
    DistinctBinders N (Var.enter bs us) ws ys := by
  have hd := List.nodup_append.mp (List.map_append ▸ h.nodup)
  refine ⟨hd.2.1, (List.forall_mem_append.mp h.named).2, fun v hv he => ?_,
    fun x hx => h.free x (hs hx)⟩
  obtain hmem | hmem := Var.mem_enter.mp he
  · exact hd.2.2 _ (List.map_subset Var.id hu hmem) _ (List.mem_map_of_mem hv) rfl
  · exact (List.forall_mem_append.mp h.outside).2 v hv hmem

theorem fresh {v : Var} (h : DistinctBinders N bs (v :: vs) xs) : v.Fresh N bs := by
  exact ⟨h.named v List.mem_cons_self, h.outside v List.mem_cons_self⟩

theorem tail {v : Var} (h : DistinctBinders N bs (v :: vs) xs) : DistinctBinders N bs vs xs := by
  obtain ⟨-, hnodup⟩ := List.nodup_cons.mp h.nodup
  obtain ⟨-, hnamed⟩ := List.forall_mem_cons.mp h.named
  obtain ⟨-, houtside⟩ := List.forall_mem_cons.mp h.outside
  exact ⟨hnodup, hnamed, houtside, h.free⟩

private theorem freshAll {bs : List Id} (h : DistinctBinders N bs vs xs) :
    Var.FreshAll N bs vs := by
  induction vs generalizing bs with
  | nil => trivial
  | cons v vs ih =>
    have hin : DistinctBinders N bs ([v] ++ vs) xs := h
    exact ⟨h.fresh, ih (hin.inner (List.Subset.refl _) (List.Subset.refl _))⟩

end DistinctBinders

theorem Label.free?_use (bs : List Id) (v : Var) :
    (Label.use bs v).free? = if v.id ∈ bs then none else some v.id := by
  unfold Label.use
  split <;> rfl

theorem Binding.var_mem_bound (b : Binding) : b.var ∈ b.bound := by
  cases b <;> exact List.mem_cons_self

theorem Binding.vars_subset_boundAll (bs : List Binding) :
    bs.map Binding.var ⊆ Binding.boundAll bs := by
  induction bs with
  | nil => exact List.nil_subset _
  | cons b bs ih =>
    rw [List.map_cons, Binding.boundAll, List.cons_subset]
    exact ⟨List.mem_append_left _ b.var_mem_bound,
      List.Subset.trans ih (List.subset_append_right _ _)⟩

theorem Block.vars_subset_bound (b : Block) : b.vars ⊆ b.bound := by
  obtain ⟨_, _, bindings⟩ := b
  exact Binding.vars_subset_boundAll bindings

theorem Block.vars_subset_boundAll (bs : List Block) :
    bs.flatMap Block.vars ⊆ Block.boundAll bs := by
  induction bs with
  | nil => exact List.nil_subset _
  | cons b bs ih =>
    rw [List.flatMap_cons, Block.boundAll]
    exact List.append_subset.mpr
      ⟨List.Subset.trans b.vars_subset_bound (List.subset_append_left _ _),
        List.Subset.trans ih (List.subset_append_right _ _)⟩

mutual

theorem Expr.hygienic_of_distinct {N : Id → Prop} {bs : List Id} (e : Expr)
    (h : DistinctBinders N bs e.bound (e.form bs).free) : e.Hygienic N bs := by
  cases e with
  | leaf | shape | prim => exact trivial
  | var v =>
    have hf := h.free
    simp only [Expr.form, Form.free, Label.free?_use, Form.freeAll, List.append_nil] at hf
    by_cases hv : v.id ∈ bs
    · exact .inl hv
    · exact .inr (hf v.id (by simp [hv]))
  | tuple _ fields => exact Expr.hygienicAll_of_distinct fields h
  | item _ whole _ =>
    rw [Expr.form, Form.free_node rfl, Form.freeAll_singleton] at h
    exact whole.hygienic_of_distinct h
  | call _ callee args _ _ =>
    rw [Expr.form, Form.free_node rfl] at h
    exact ⟨callee.hygienic_of_distinct h.append.1,
      Expr.hygienicAll_of_distinct args h.append.2⟩
  | ite _ cond onTrue onFalse =>
    rw [Expr.form, Form.free_node rfl, Form.freeAll, Form.freeAll, Form.freeAll_singleton] at h
    exact ⟨cond.hygienic_of_distinct h.append.1,
      onTrue.hygienic_of_distinct h.append.2.append.1,
      onFalse.hygienic_of_distinct h.append.2.append.2⟩
  | seq _ blocks body =>
    rw [Expr.form, Form.free_node rfl, Form.freeAll] at h
    exact ⟨Block.hygienicAll_of_distinct blocks (h.before (List.subset_append_right _ _)),
      body.hygienic_of_distinct
        (h.inner (Block.vars_subset_boundAll blocks) (List.subset_append_left _ _))⟩
  | function _ params body _ _ =>
    rw [Expr.form, Form.free_node rfl, Form.freeAll_singleton] at h
    exact ⟨(h.before (List.Subset.refl _)).freshAll,
      body.hygienic_of_distinct (h.inner (List.Subset.refl _) (List.Subset.refl _))⟩

theorem Expr.hygienicAll_of_distinct {N : Id → Prop} {bs : List Id} (es : List Expr)
    (h : DistinctBinders N bs (Expr.boundAll es) (Form.freeAll (Expr.formAll bs es))) :
    Expr.HygienicAll N bs es := by
  cases es with
  | nil => exact trivial
  | cons e es =>
    exact ⟨e.hygienic_of_distinct h.append.1, Expr.hygienicAll_of_distinct es h.append.2⟩

theorem Binding.hygienic_of_distinct {N : Id → Prop} {bs : List Id} (c : Binding)
    (h : DistinctBinders N bs c.bound (c.form bs).free) : c.Hygienic N bs := by
  cases c with
  | bind _ v value | cast _ v value _ =>
    rw [Binding.form, Form.free_node rfl, Form.freeAll_singleton] at h
    exact ⟨value.hygienic_of_distinct h.tail, h.fresh⟩

theorem Binding.hygienicAll_of_distinct {N : Id → Prop} {bs : List Id} (cs : List Binding)
    (h : DistinctBinders N bs (Binding.boundAll cs) (Form.freeAll (Binding.formAll bs cs))) :
    Binding.HygienicAll N bs cs := by
  cases cs with
  | nil => exact trivial
  | cons c cs =>
    have hv : [c.var] ⊆ c.bound := by simpa using c.var_mem_bound
    exact ⟨c.hygienic_of_distinct (h.before (List.subset_append_left _ _)),
      Binding.hygienicAll_of_distinct cs (h.inner hv (List.subset_append_right _ _))⟩

theorem Block.hygienic_of_distinct {N : Id → Prop} {bs : List Id} (b : Block)
    (h : DistinctBinders N bs b.bound (b.form bs).free) : b.Hygienic N bs := by
  cases b with
  | mk _ _ bindings => exact Binding.hygienicAll_of_distinct bindings h

theorem Block.hygienicAll_of_distinct {N : Id → Prop} {bs : List Id} (rest : List Block)
    (h : DistinctBinders N bs (Block.boundAll rest) (Form.freeAll (Block.formAll bs rest))) :
    Block.HygienicAll N bs rest := by
  cases rest with
  | nil => exact trivial
  | cons b rest =>
    constructor
    · exact b.hygienic_of_distinct (h.before (List.subset_append_left _ _))
    · exact Block.hygienicAll_of_distinct rest (h.inner b.vars_subset_bound
        (List.subset_append_right _ _))

end

end DataflowIR
