import DataflowIR.Proofs.Alpha.Equivalence
import Mathlib.Data.List.Forall2
import Mathlib.Data.List.Nodup

namespace DataflowIR

/-- The variable under the identity that `f` gives it. -/
def Var.Renamed (f : Id → Id) (v w : Var) : Prop :=
  w.id = f v.id ∧ w.signature = v.signature

section Copies

variable (f : Id → Id)

mutual

/-- A copy with the variables renamed. Its nodes may be others than those of the expression, or the
same. -/
inductive Expr.Renamed : Expr → Expr → Prop
  | leaf {node node' : Node} {content : Leaf} :
    Expr.Renamed (.leaf node content) (.leaf node' content)
  | var {v w : Var} : v.Renamed f w → Expr.Renamed (.var v) (.var w)
  | shape {node node' : Node} {values : List Dim} :
    Expr.Renamed (.shape node values) (.shape node' values)
  | prim {node node' : Node} {value : Dim} {dtype : DType} :
    Expr.Renamed (.prim node value dtype) (.prim node' value dtype)
  | tuple {node node' : Node} {fields fields' : List Expr} :
    Expr.RenamedAll fields fields' → Expr.Renamed (.tuple node fields) (.tuple node' fields')
  | item {node node' : Node} {whole whole' : Expr} {index : Nat} :
    Expr.Renamed whole whole' → Expr.Renamed (.item node whole index) (.item node' whole' index)
  | call {node node' : Node} {callee callee' : Expr} {args args' : List Expr}
      {attrs : Option Attrs} {sinfoArgs : List StructInfo} :
    Expr.Renamed callee callee' → Expr.RenamedAll args args' →
    Expr.Renamed (.call node callee args attrs sinfoArgs)
      (.call node' callee' args' attrs sinfoArgs)
  | ite {node node' : Node} {cond cond' onTrue onTrue' onFalse onFalse' : Expr} :
    Expr.Renamed cond cond' → Expr.Renamed onTrue onTrue' → Expr.Renamed onFalse onFalse' →
    Expr.Renamed (.ite node cond onTrue onFalse) (.ite node' cond' onTrue' onFalse')
  | seq {node node' : Node} {blocks blocks' : List Block} {body body' : Expr} :
    Block.RenamedAll blocks blocks' → Expr.Renamed body body' →
    Expr.Renamed (.seq node blocks body) (.seq node' blocks' body')
  | function {node node' : Node} {params params' : List Var} {body body' : Expr}
      {ret : StructInfo} {attrs : Attrs} :
    List.Forall₂ (Var.Renamed f) params params' → Expr.Renamed body body' →
    Expr.Renamed (.function node params body ret attrs) (.function node' params' body' ret attrs)

inductive Expr.RenamedAll : List Expr → List Expr → Prop
  | nil : Expr.RenamedAll [] []
  | cons {a b : Expr} {as bs : List Expr} :
    Expr.Renamed a b → Expr.RenamedAll as bs → Expr.RenamedAll (a :: as) (b :: bs)

inductive Binding.Renamed : Binding → Binding → Prop
  | bind {mark mark' : Mark} {v w : Var} {value value' : Expr} :
    v.Renamed f w → Expr.Renamed value value' →
    Binding.Renamed (.bind mark v value) (.bind mark' w value')
  | cast {mark mark' : Mark} {v w : Var} {value value' : Expr} {sinfo : StructInfo} :
    v.Renamed f w → Expr.Renamed value value' →
    Binding.Renamed (.cast mark v value sinfo) (.cast mark' w value' sinfo)

inductive Binding.RenamedAll : List Binding → List Binding → Prop
  | nil : Binding.RenamedAll [] []
  | cons {a b : Binding} {as bs : List Binding} :
    Binding.Renamed a b → Binding.RenamedAll as bs → Binding.RenamedAll (a :: as) (b :: bs)

inductive Block.Renamed : Block → Block → Prop
  | mk {mark mark' : Mark} {kind : BlockKind} {bindings bindings' : List Binding} :
    Binding.RenamedAll bindings bindings' →
    Block.Renamed (.mk mark kind bindings) (.mk mark' kind bindings')

inductive Block.RenamedAll : List Block → List Block → Prop
  | nil : Block.RenamedAll [] []
  | cons {a b : Block} {as bs : List Block} :
    Block.Renamed a b → Block.RenamedAll as bs → Block.RenamedAll (a :: as) (b :: bs)

end

end Copies

variable {f : Id → Id}

private theorem Var.map_id_of_renamed {vs ws : List Var} (h : List.Forall₂ (Var.Renamed f) vs ws) :
    ws.map Var.id = (vs.map Var.id).map f := by
  induction h with
  | nil => rfl
  | cons hv _ ih => simp only [List.map_cons, hv.1, ih]

private theorem Var.map_signature_of_renamed {vs ws : List Var}
    (h : List.Forall₂ (Var.Renamed f) vs ws) : ws.map Var.signature = vs.map Var.signature := by
  induction h with
  | nil => rfl
  | cons hv _ ih => simp only [List.map_cons, hv.2, ih]

theorem Var.enter_of_renamed {vs ws : List Var} (h : List.Forall₂ (Var.Renamed f) vs ws)
    (bs : List Id) : Var.enter (bs.map f) ws = (Var.enter bs vs).map f := by
  rw [Var.enter, Var.enter, Var.map_id_of_renamed h, List.map_append, List.map_reverse]

theorem Binding.Renamed.var {b c : Binding} (h : Binding.Renamed f b c) :
    b.var.Renamed f c.var := by
  cases h with
  | bind hv _ => exact hv
  | cast hv _ => exact hv

theorem Binding.RenamedAll.vars {bs cs : List Binding} (hrenamed : Binding.RenamedAll f bs cs) :
    List.Forall₂ (Var.Renamed f) (bs.map Binding.var) (cs.map Binding.var) := by
  match hrenamed with
  | .nil => exact .nil
  | .cons h hs => exact .cons h.var hs.vars

theorem Block.Renamed.vars {b c : Block} (h : Block.Renamed f b c) :
    List.Forall₂ (Var.Renamed f) b.vars c.vars := by
  cases h with
  | mk hs => exact hs.vars

theorem Block.RenamedAll.vars {bs cs : List Block} (hrenamed : Block.RenamedAll f bs cs) :
    List.Forall₂ (Var.Renamed f) (bs.flatMap Block.vars) (cs.flatMap Block.vars) := by
  match hrenamed with
  | .nil => exact .nil
  | .cons h hs => exact List.rel_append h.vars hs.vars

mutual

theorem Expr.Renamed.bound {e e' : Expr} (h : Expr.Renamed f e e') :
    List.Forall₂ (Var.Renamed f) e.bound e'.bound := by
  match h with
  | .leaf | .var _ | .shape | .prim => exact .nil
  | .tuple hf => exact hf.bound
  | .item hw => exact hw.bound
  | .call hc ha => exact List.rel_append hc.bound ha.bound
  | .ite hc ht hf => exact List.rel_append hc.bound (List.rel_append ht.bound hf.bound)
  | .seq hb hy => exact List.rel_append hb.bound hy.bound
  | .function hp hy => exact List.rel_append hp hy.bound

theorem Expr.RenamedAll.bound {es es' : List Expr} (hrenamed : Expr.RenamedAll f es es') :
    List.Forall₂ (Var.Renamed f) (Expr.boundAll es) (Expr.boundAll es') := by
  match hrenamed with
  | .nil => exact .nil
  | .cons h hs => exact List.rel_append h.bound hs.bound

theorem Binding.Renamed.bound {b c : Binding} (h : Binding.Renamed f b c) :
    List.Forall₂ (Var.Renamed f) b.bound c.bound := by
  match h with
  | .bind hv hy | .cast hv hy => exact .cons hv hy.bound

theorem Binding.RenamedAll.bound {bs cs : List Binding} (hrenamed : Binding.RenamedAll f bs cs) :
    List.Forall₂ (Var.Renamed f) (Binding.boundAll bs) (Binding.boundAll cs) := by
  match hrenamed with
  | .nil => exact .nil
  | .cons h hs => exact List.rel_append h.bound hs.bound

theorem Block.Renamed.bound {b c : Block} (hrenamed : Block.Renamed f b c) :
    List.Forall₂ (Var.Renamed f) b.bound c.bound := by
  match hrenamed with
  | .mk h => exact h.bound

theorem Block.RenamedAll.bound {bs cs : List Block} (hrenamed : Block.RenamedAll f bs cs) :
    List.Forall₂ (Var.Renamed f) (Block.boundAll bs) (Block.boundAll cs) := by
  match hrenamed with
  | .nil => exact .nil
  | .cons h hs => exact List.rel_append h.bound hs.bound

end

/-- In a part inside binders of `bs`, which binds `bound` and uses `free` outside the scope of their
binders: `f` keeps the identities in `B`, those of all binders, apart, and leaves the free ones,
which it gives to none in `B`. -/
structure Separates (f : Id → Id) (B bs : List Id) (bound : List Var) (free : List Id) : Prop where
  injective : ∀ x ∈ B, ∀ y ∈ B, f x = f y → x = y
  outer : bs ⊆ B
  bound : bound.map Var.id ⊆ B
  free : ∀ x ∈ free, f x = x ∧ ∀ y ∈ B, f y ≠ x

namespace Separates

variable {B bs : List Id} {vs ws us : List Var} {xs ys : List Id}

theorem mono (h : Separates f B bs vs xs) (hv : ws ⊆ vs) (hx : ys ⊆ xs) :
    Separates f B bs ws ys := by
  have hbound := List.Subset.trans (List.map_subset _ hv) h.bound
  exact ⟨h.injective, h.outer, hbound, fun x hmem => h.free x (hx hmem)⟩

theorem append (h : Separates f B bs (vs ++ ws) (xs ++ ys)) :
    Separates f B bs vs xs ∧ Separates f B bs ws ys := by
  constructor
  · exact h.mono (List.subset_append_left _ _) (List.subset_append_left _ _)
  · exact h.mono (List.subset_append_right _ _) (List.subset_append_right _ _)

/-- In the scope of variables that are bound in the part. -/
theorem inner (h : Separates f B bs vs xs) (hu : us ⊆ vs) :
    Separates f B (Var.enter bs us) vs xs := by
  refine ⟨h.injective, ?_, h.bound, h.free⟩
  intro x hx
  obtain hx | hx := Var.mem_enter.mp hx
  · exact h.bound (List.map_subset _ hu hx)
  · exact h.outer hx

end Separates

/-- Where no other element becomes what `x` becomes, its place stays. -/
private theorem idxOf_map_of_apart {bs : List Id} {x : Id} (h : ∀ y ∈ bs, f y = f x → y = x) :
    (bs.map f).idxOf (f x) = bs.idxOf x := by
  induction bs with
  | nil => rfl
  | cons b bs ih =>
    have hrest := ih fun y hy => h y (List.mem_cons_of_mem _ hy)
    by_cases hb : b = x
    · subst hb
      rw [List.map_cons, List.idxOf_cons_self, List.idxOf_cons_self]
    · have hf : f b ≠ f x := fun he => hb (h b List.mem_cons_self he)
      rw [List.map_cons, List.idxOf_cons_ne _ hf, List.idxOf_cons_ne _ hb, hrest]

private theorem Label.use_of_renamed {B bs : List Id} {v w : Var} (hw : v.Renamed f w)
    (h : Separates f B bs [] (Label.use bs v).free?.toList) :
    Label.use (bs.map f) w = Label.use bs v := by
  have hd : w.dataflow = v.dataflow := congrArg Prod.fst hw.2
  by_cases hv : v.id ∈ bs
  · have hmem : w.id ∈ bs.map f := hw.1 ▸ List.mem_map_of_mem hv
    have hidx : (bs.map f).idxOf w.id = bs.idxOf v.id := by
      rw [hw.1]
      exact idxOf_map_of_apart fun y hy => h.injective y (h.outer hy) v.id (h.outer hv)
    rw [Label.use, Label.use, if_pos hmem, if_pos hv, hidx, hd]
  · obtain ⟨hfix, hother⟩ := h.free v.id (by simp [Label.free?_use, hv])
    have hid : w.id = v.id := hw.1.trans hfix
    have hmem : w.id ∉ bs.map f := by
      rw [hid]
      intro hx
      obtain ⟨y, hy, hfy⟩ := List.mem_map.mp hx
      exact hother y (h.outer hy) hfy
    rw [Label.use, Label.use, if_neg hmem, if_neg hv, hid, hd]

mutual

/-- Renaming leaves the nameless form. -/
theorem Expr.Renamed.form_eq {B bs : List Id} {e e' : Expr} (hrenamed : Expr.Renamed f e e') :
    Separates f B bs e.bound (e.form bs).free → e'.form (bs.map f) = e.form bs := by
  match e, e', hrenamed with
  | _, _, .leaf | _, _, .shape | _, _, .prim =>
    intro _
    rfl
  | _, _, .var hv =>
    intro h
    rw [Expr.form, Form.free, Form.freeAll, List.append_nil] at h
    rw [Expr.form, Expr.form, Label.use_of_renamed hv h]
  | _, _, .tuple hf =>
    intro h
    rw [Expr.form, Form.free_node rfl] at h
    rw [Expr.form, Expr.form, hf.form_eq h]
  | _, _, .item hw =>
    intro h
    rw [Expr.form, Form.free_node rfl, Form.freeAll_singleton] at h
    rw [Expr.form, Expr.form, hw.form_eq h]
  | _, _, .call hc ha =>
    intro h
    rw [Expr.form, Form.free_node rfl] at h
    rw [Expr.form, Expr.form, hc.form_eq h.append.1, ha.form_eq h.append.2]
  | _, _, .ite hc ht hf =>
    intro h
    rw [Expr.form, Form.free_node rfl, Form.freeAll, Form.freeAll, Form.freeAll_singleton] at h
    rw [Expr.form, Expr.form, hc.form_eq h.append.1, ht.form_eq h.append.2.append.1,
      hf.form_eq h.append.2.append.2]
  | .seq node blocks body, _, .seq hb hy =>
    intro h
    rw [Expr.form, Form.free_node rfl, Form.freeAll] at h
    have hblocks := h.mono (List.subset_append_left _ _) (List.subset_append_right _ _)
    have hvars : blocks.flatMap Block.vars ⊆ Expr.bound (.seq node blocks body) :=
      List.Subset.trans (Block.vars_subset_boundAll blocks) (List.subset_append_left _ _)
    have hbody := (h.inner hvars).mono (List.subset_append_right _ _) (List.subset_append_left _ _)
    rw [Expr.form, Expr.form, Var.enter_of_renamed hb.vars, hy.form_eq hbody, hb.form_eq hblocks]
  | _, _, .function hp hy =>
    intro h
    rw [Expr.form, Form.free_node rfl, Form.freeAll_singleton] at h
    have hbody := (h.inner (List.subset_append_left _ _)).mono (List.subset_append_right _ _)
      (List.Subset.refl _)
    rw [Expr.form, Expr.form, Var.map_signature_of_renamed hp, Var.enter_of_renamed hp,
      hy.form_eq hbody]

theorem Expr.RenamedAll.form_eq {B bs : List Id} {es es' : List Expr}
    (hrenamed : Expr.RenamedAll f es es') :
    Separates f B bs (Expr.boundAll es) (Form.freeAll (Expr.formAll bs es)) →
      Expr.formAll (bs.map f) es' = Expr.formAll bs es := by
  match hrenamed with
  | .nil =>
    intro _
    rfl
  | .cons he hes =>
    intro h
    rw [Expr.formAll, Expr.formAll, he.form_eq h.append.1, hes.form_eq h.append.2]

theorem Binding.Renamed.form_eq {B bs : List Id} {b c : Binding}
    (hrenamed : Binding.Renamed f b c) :
    Separates f B bs b.bound (b.form bs).free → c.form (bs.map f) = b.form bs := by
  match hrenamed with
  | .bind hv hy | .cast hv hy =>
    intro h
    rw [Binding.form, Form.free_node rfl, Form.freeAll_singleton] at h
    have hs := Prod.mk.inj hv.2
    have hvalue := hy.form_eq (h.mono (List.subset_cons_self _ _) (List.Subset.refl _))
    rw [Binding.form, Binding.form, hvalue, hs.1, hs.2]

theorem Binding.RenamedAll.form_eq {B bs : List Id} {cs cs' : List Binding}
    (hrenamed : Binding.RenamedAll f cs cs') :
    Separates f B bs (Binding.boundAll cs) (Form.freeAll (Binding.formAll bs cs)) →
      Binding.formAll (bs.map f) cs' = Binding.formAll bs cs := by
  match cs, cs', hrenamed with
  | _, _, .nil =>
    intro _
    rfl
  | c :: cs, _, .cons hc hcs =>
    intro h
    have hhead := h.mono (List.subset_append_left _ _) (List.subset_append_left _ _)
    have hvar : [c.var] ⊆ Binding.boundAll (c :: cs) :=
      List.cons_subset.mpr ⟨List.mem_append_left _ c.var_mem_bound, List.nil_subset _⟩
    have htail := (h.inner hvar).mono (List.subset_append_right _ _) (List.subset_append_right _ _)
    rw [Binding.formAll, Binding.formAll, hc.form_eq hhead,
      Var.enter_of_renamed (.cons hc.var .nil), hcs.form_eq htail]

theorem Block.Renamed.form_eq {B bs : List Id} {b c : Block} (hrenamed : Block.Renamed f b c) :
    Separates f B bs b.bound (b.form bs).free → c.form (bs.map f) = b.form bs := by
  match hrenamed with
  | .mk hs =>
    intro h
    rw [Block.form, Form.free_node rfl] at h
    rw [Block.form, Block.form, hs.form_eq h]

theorem Block.RenamedAll.form_eq {B bs : List Id} {rest rest' : List Block}
    (hrenamed : Block.RenamedAll f rest rest') :
    Separates f B bs (Block.boundAll rest) (Form.freeAll (Block.formAll bs rest)) →
      Block.formAll (bs.map f) rest' = Block.formAll bs rest := by
  match rest, rest', hrenamed with
  | _, _, .nil =>
    intro _
    rfl
  | b :: rest, _, .cons hb hrest =>
    intro h
    have hhead := h.mono (List.subset_append_left _ _) (List.subset_append_left _ _)
    have hvars : b.vars ⊆ Block.boundAll (b :: rest) :=
      List.Subset.trans b.vars_subset_bound (List.subset_append_left _ _)
    have htail := (h.inner hvars).mono (List.subset_append_right _ _) (List.subset_append_right _ _)
    rw [Block.formAll, Block.formAll, hb.form_eq hhead, Var.enter_of_renamed hb.vars,
      hrest.form_eq htail]

end

theorem Literal.Proper.canonical {l : Literal} (h : l.Proper) : l.canonical.Proper := by
  cases l with
  | float value => exact (Binary64.isNaN_canonical value).trans h
  | bool | int => trivial

theorem AttrValue.Proper.canonical {a : AttrValue} (h : a.Proper) : a.canonical.Proper := by
  cases a with
  | float value => exact (Binary64.isNaN_canonical value).trans h
  | _ => trivial

private theorem Attrs.beq_self {a : Attrs} (h : Attrs.Proper a.entries) : a == a := by
  refine (Attrs.equates a a).mpr ?_
  refine ⟨rfl, ?_⟩
  exact List.forall_mem_map.mpr fun e he => (h e he).canonical

private theorem Leaf.equal_self {l : Leaf} (h : l.Proper) : l.equal l := by
  refine (Leaf.equates l l).mpr ⟨rfl, ?_⟩
  cases l with
  | constant values => exact List.forall_mem_map.mpr fun v hv => (h v hv).canonical
  | _ => trivial

/-- No constant and no attribute that the node itself holds is a NaN. -/
def Expr.HoldsNumbers : Expr → Prop
  | .leaf _ content => content.Proper
  | .call _ _ _ attrs _ => ∀ a ∈ attrs, Attrs.Proper a.entries
  | .function _ _ _ _ attrs => Attrs.Proper attrs.entries
  | _ => True

private theorem Attrs.option_beq_self {attrs : Option Attrs}
    (h : ∀ a ∈ attrs, Attrs.Proper a.entries) :
    attrs == attrs := by
  cases attrs with
  | none => rfl
  | some a => exact Attrs.beq_self (h a rfl)

mutual

theorem Expr.Renamed.resembles {e e' : Expr} (h : ∀ n ∈ e.nodes, n.HoldsNumbers)
    (hr : Expr.Renamed f e e') : Expr.Resembles e e' := by
  by_cases hs : e.sameAs e'
  · exact .same hs
  · match hr with
    | .leaf => exact .leaf hs (Leaf.equal_self (h _ (Expr.mem_nodes _)))
    | .var hv => exact .var hs (congrArg Prod.fst hv.2).symm
    | .shape => exact .shape hs
    | .prim => exact .prim hs
    | .tuple hf => exact .tuple hs (hf.resembles (List.forall_mem_cons.mp h).2)
    | .item hw => exact .item hs (hw.resembles (List.forall_mem_cons.mp h).2)
    | .call hc ha =>
      obtain ⟨hattrs, hparts⟩ := List.forall_mem_cons.mp h
      have hparts := List.forall_mem_append.mp hparts
      exact .call hs (Attrs.option_beq_self hattrs) (hc.resembles hparts.1) (ha.resembles hparts.2)
    | .ite hc ht hf =>
      have hparts := List.forall_mem_append.mp (List.forall_mem_cons.mp h).2
      have hbranches := List.forall_mem_append.mp hparts.2
      exact .ite hs (hc.resembles hparts.1) (ht.resembles hbranches.1) (hf.resembles hbranches.2)
    | .seq hb hy =>
      have hparts := List.forall_mem_append.mp (List.forall_mem_cons.mp h).2
      exact .seq hs (hb.resembles hparts.1) (hy.resembles hparts.2)
    | .function hp hy =>
      obtain ⟨hattrs, hbody⟩ := List.forall_mem_cons.mp h
      exact .function hs (Var.map_signature_of_renamed hp).symm (Attrs.beq_self hattrs)
        (hy.resembles hbody)

theorem Expr.RenamedAll.resembles {es es' : List Expr}
    (h : ∀ n ∈ Expr.nodesAll es, n.HoldsNumbers) (hrenamed : Expr.RenamedAll f es es') :
    Expr.ResembleAll es es' := by
  match hrenamed with
  | .nil => exact .nil
  | .cons he hes =>
    refine .cons ?_ ?_
    · exact he.resembles (List.forall_mem_append.mp h).1
    · exact hes.resembles (List.forall_mem_append.mp h).2

theorem Binding.Renamed.resembles {b c : Binding} (h : ∀ n ∈ b.nodes, n.HoldsNumbers)
    (hrenamed : Binding.Renamed f b c) : Binding.Resembles b c := by
  match hrenamed with
  | .bind hv hy => exact .bind hv.2.symm (hy.resembles h)
  | .cast hv hy => exact .cast hv.2.symm (hy.resembles h)

theorem Binding.RenamedAll.resembles {bs cs : List Binding}
    (h : ∀ n ∈ Binding.nodesAll bs, n.HoldsNumbers) (hrenamed : Binding.RenamedAll f bs cs) :
    Binding.ResembleAll bs cs := by
  match hrenamed with
  | .nil => exact .nil
  | .cons hb hbs =>
    refine .cons ?_ ?_
    · exact hb.resembles (List.forall_mem_append.mp h).1
    · exact hbs.resembles (List.forall_mem_append.mp h).2

theorem Block.Renamed.resembles {b c : Block} (h : ∀ n ∈ b.nodes, n.HoldsNumbers)
    (hrenamed : Block.Renamed f b c) : Block.Resembles b c := by
  match hrenamed with
  | .mk hs => exact .mk (hs.resembles h)

theorem Block.RenamedAll.resembles {bs cs : List Block}
    (h : ∀ n ∈ Block.nodesAll bs, n.HoldsNumbers) (hrenamed : Block.RenamedAll f bs cs) :
    Block.ResembleAll bs cs := by
  match hrenamed with
  | .nil => exact .nil
  | .cons hb hbs =>
    refine .cons ?_ ?_
    · exact hb.resembles (List.forall_mem_append.mp h).1
    · exact hbs.resembles (List.forall_mem_append.mp h).2

end

/-- `f` gives different identities to different ones that are bound in the expression, none that
is free in it, and leaves those that are. -/
structure Expr.RenamesBound (e : Expr) (f : Id → Id) : Prop where
  injective : ∀ v ∈ e.bound, ∀ w ∈ e.bound, f v.id = f w.id → v.id = w.id
  new : ∀ v ∈ e.bound, f v.id ∉ e.nameless.free
  others : ∀ x ∈ e.nameless.free, f x = x

private theorem Expr.RenamesBound.separates {e : Expr} (h : e.RenamesBound f) :
    Separates f (e.bound.map Var.id) [] e.bound e.nameless.free where
  injective x hx y hy hf := by
    obtain ⟨v, hv, rfl⟩ := List.mem_map.mp hx
    obtain ⟨w, hw, rfl⟩ := List.mem_map.mp hy
    exact h.injective v hv w hw hf
  outer := List.nil_subset _
  bound := List.Subset.refl _
  free x hx := by
    refine ⟨h.others x hx, ?_⟩
    intro y hy hf
    obtain ⟨v, hv, rfl⟩ := List.mem_map.mp hy
    exact h.new v hv (hf ▸ hx)

private theorem Expr.Renamed.nameless_eq {e e' : Expr} (hr : Expr.Renamed f e e')
    (h : e.RenamesBound f) : e'.nameless = e.nameless :=
  hr.form_eq h.separates

/-- An expression equals each of its copies in which the bound identities were renamed, in both
orders, if it binds none twice and none that is free in it, and no constant and no attribute in it
is a NaN. -/
theorem alphaEq_of_renamed {e e' : Expr} (hnum : ∀ n ∈ e.nodes, n.HoldsNumbers)
    (hd : (e.bound.map Var.id).Nodup) (hfree : ∀ v ∈ e.bound, v.id ∉ e.nameless.free)
    (hf : e.RenamesBound f) (hr : Expr.Renamed f e e') : e.alphaEq e' ∧ e'.alphaEq e := by
  -- The identities that either side binds: no use outside the scope of a binder is of one of them.
  let N : Id → Prop := fun x => x ∈ e.bound.map Var.id ∨ x ∈ e'.bound.map Var.id
  have hids : e'.bound.map Var.id = (e.bound.map Var.id).map f := Var.map_id_of_renamed hr.bound
  have hform : e'.nameless = e.nameless := hr.nameless_eq hf
  have hN : ∀ x ∈ e.nameless.free, ¬ N x := by
    rintro x hx (hb | hb)
    · obtain ⟨v, hv, rfl⟩ := List.mem_map.mp hb
      exact hfree v hv hx
    · rw [hids] at hb
      obtain ⟨y, hy, rfl⟩ := List.mem_map.mp hb
      obtain ⟨v, hv, rfl⟩ := List.mem_map.mp hy
      exact hf.new v hv hx
  have hd' : (e'.bound.map Var.id).Nodup := by
    rw [hids]
    exact List.Nodup.map_on hf.separates.injective hd
  have he : e.Hygienic N [] :=
    e.hygienic_of_distinct ⟨hd, fun v hv => .inl (List.mem_map_of_mem hv),
      fun _ _ => List.not_mem_nil, hN⟩
  have he' : e'.Hygienic N [] :=
    e'.hygienic_of_distinct ⟨hd', fun v hv => .inr (List.mem_map_of_mem hv),
      fun _ _ => List.not_mem_nil, fun x hx => hN x (hform ▸ hx)⟩
  have h : e.alphaEq e' := Expr.alphaEq_of_nameless he he' (hr.resembles hnum) hform.symm
  exact ⟨h, Expr.alphaEq_symm he he' h⟩

namespace Alpha

/-- A function that binds the value of a call on its parameter, and gives that with `z`, which is
free. -/
def pairing (tag : Nat) (v w : Var) : Expr :=
  function tag [v]
    (.seq (node (tag + 1))
      [.mk ⟨tag + 2, none⟩ .plain
        [.bind ⟨tag + 3, none⟩ w
          (.call (node (tag + 4)) neg [.var v] (some (.singleton "by" (.float ⟨0⟩))) [])]]
      (.tuple (node (tag + 5)) [.var w, .var z]))

/-- The parameter and the bound variable get identities of their own. -/
def renew (id : Id) : Id :=
  if id = x.id then ⟨8, "x"⟩ else if id = y.id then ⟨9, "y"⟩ else id

private theorem renamed_pairing (tag tag' : Nat) :
    Expr.Renamed renew (pairing tag x y) (pairing tag' (var 8 "x") (var 9 "y")) := by
  have hx : x.Renamed renew (var 8 "x") := ⟨by decide, rfl⟩
  have hy : y.Renamed renew (var 9 "y") := ⟨by decide, rfl⟩
  have hz : z.Renamed renew z := ⟨by decide, rfl⟩
  have hcall := Expr.RenamedAll.cons (Expr.Renamed.var hx) .nil
  have hpair := Expr.RenamedAll.cons (Expr.Renamed.var hy) (.cons (.var hz) .nil)
  exact .function (.cons hx .nil)
    (.seq (.cons (.mk (.cons (.bind hy (.call .leaf hcall)) .nil)) .nil) (.tuple hpair))

private theorem holdsNumbers_pairing : ∀ n ∈ (pairing 10 x y).nodes, n.HoldsNumbers := by
  have hzero : (⟨0⟩ : Binary64).isNaN = false := by decide
  simp [pairing, function, neg, Expr.nodes, Expr.nodesAll, Block.nodesAll, Block.nodes,
    Binding.nodesAll, Binding.nodes, Expr.HoldsNumbers, Leaf.Proper, Attrs.Proper,
    AttrValue.Proper, Dictionary.singleton, Dictionary.insert, Dictionary.insertEntry,
    Dictionary.empty, hzero]

end Alpha

open Alpha in
theorem alphaEq_of_renamed_pairing :
    (pairing 10 x y).alphaEq (pairing 20 (var 8 "x") (var 9 "y")) ∧
      (pairing 20 (var 8 "x") (var 9 "y")).alphaEq (pairing 10 x y) := by
  refine alphaEq_of_renamed holdsNumbers_pairing (by decide) (by decide) ?_ (renamed_pairing 10 20)
  exact ⟨by decide, by decide, by decide⟩

end DataflowIR
