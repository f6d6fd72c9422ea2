import DataflowIR.Proofs.Lowering.Forms
import DataflowIR.Proofs.Lowering.Scoping
import DataflowIR.Proofs.Normalize.Substitution
import Mathlib.Data.List.Forall2

namespace DataflowIR

mutual

/-- The variables that stay in scope after the expression, in the function or branch around it. -/
def Expr.declared : Expr → List Var
  | .leaf .. | .var _ | .shape .. | .prim .. | .function .. => []
  | .tuple _ fields => Expr.declaredAll fields
  | .item _ whole _ => whole.declared
  | .call _ callee args _ _ => callee.declared ++ Expr.declaredAll args
  | .ite _ cond _ _ => cond.declared
  | .seq _ blocks body => Block.declaredAll blocks ++ body.declared

def Expr.declaredAll : List Expr → List Var
  | [] => []
  | e :: es => e.declared ++ Expr.declaredAll es

def Binding.declared : Binding → List Var
  | .bind _ v value | .cast _ v value _ => value.declared ++ [v]

def Binding.declaredAll : List Binding → List Var
  | [] => []
  | b :: bs => b.declared ++ Binding.declaredAll bs

def Block.declared : Block → List Var
  | .mk _ _ bindings => Binding.declaredAll bindings

def Block.declaredAll : List Block → List Var
  | [] => []
  | b :: bs => b.declared ++ Block.declaredAll bs

end

/-- A use of a variable, with the definitions whose scope it is in: those that come earlier in the
functions and branches around it. -/
structure Use where
  scope : List Var
  var : Var

mutual

/-- The uses in an expression that stands in the scope of the definitions `ds`. -/
def Expr.usesIn (ds : List Var) : Expr → List Use
  | .leaf .. | .shape .. | .prim .. => []
  | .var v => [⟨ds, v⟩]
  | .tuple _ fields => Expr.usesInAll ds fields
  | .item _ whole _ => whole.usesIn ds
  | .call _ callee args _ _ => callee.usesIn ds ++ Expr.usesInAll (ds ++ callee.declared) args
  | .ite _ cond onTrue onFalse =>
    cond.usesIn ds ++
      (onTrue.usesIn (ds ++ cond.declared) ++ onFalse.usesIn (ds ++ cond.declared))
  | .seq _ blocks body => Block.usesInAll ds blocks ++ body.usesIn (ds ++ Block.declaredAll blocks)
  | .function _ params body _ _ => body.usesIn (ds ++ params)

def Expr.usesInAll (ds : List Var) : List Expr → List Use
  | [] => []
  | e :: es => e.usesIn ds ++ Expr.usesInAll (ds ++ e.declared) es

def Binding.usesIn (ds : List Var) : Binding → List Use
  | .bind _ _ value | .cast _ _ value _ => value.usesIn ds

def Binding.usesInAll (ds : List Var) : List Binding → List Use
  | [] => []
  | b :: bs => b.usesIn ds ++ Binding.usesInAll (ds ++ b.declared) bs

def Block.usesIn (ds : List Var) : Block → List Use
  | .mk _ _ bindings => Binding.usesInAll ds bindings

def Block.usesInAll (ds : List Var) : List Block → List Use
  | [] => []
  | b :: bs => b.usesIn ds ++ Block.usesInAll (ds ++ b.declared) bs

end

/-- A use keeps its identity, and one of a dataflow variable in the scope of its definition becomes
one of a regular variable. -/
structure Use.Regularized (u : Use) (v : Var) : Prop where
  id_eq : v.id = u.var.id
  regular : u.var.dataflow → (∃ d ∈ u.scope, d.dataflow ∧ d.id = u.var.id) → v.dataflow = false

mutual

/-- The scopes aside, the uses are those of the tree. -/
theorem Expr.map_var_usesIn (ds : List Var) (e : Expr) : (e.usesIn ds).map Use.var = e.uses := by
  cases e with
  | leaf | shape | prim | var _ => rfl
  | tuple _ fields => exact Expr.map_var_usesInAll ds fields
  | item _ whole _ => exact whole.map_var_usesIn ds
  | call _ callee args _ _ =>
    rw [Expr.usesIn, Expr.uses, List.map_append, callee.map_var_usesIn, Expr.map_var_usesInAll]
  | ite _ cond onTrue onFalse =>
    rw [Expr.usesIn, Expr.uses, List.map_append, List.map_append, cond.map_var_usesIn,
      onTrue.map_var_usesIn, onFalse.map_var_usesIn]
  | seq _ blocks body =>
    rw [Expr.usesIn, Expr.uses, List.map_append, Block.map_var_usesInAll, body.map_var_usesIn]
  | function _ params body _ _ => exact body.map_var_usesIn (ds ++ params)

theorem Expr.map_var_usesInAll (ds : List Var) (es : List Expr) :
    (Expr.usesInAll ds es).map Use.var = Expr.usesAll es := by
  cases es with
  | nil => rfl
  | cons e es =>
    rw [Expr.usesInAll, Expr.usesAll, List.map_append, e.map_var_usesIn, Expr.map_var_usesInAll]

theorem Binding.map_var_usesIn (ds : List Var) (b : Binding) :
    (b.usesIn ds).map Use.var = b.uses := by
  cases b with
  | bind _ _ value | cast _ _ value _ => exact value.map_var_usesIn ds

theorem Binding.map_var_usesInAll (ds : List Var) (bs : List Binding) :
    (Binding.usesInAll ds bs).map Use.var = Binding.usesAll bs := by
  cases bs with
  | nil => rfl
  | cons b bs =>
    rw [Binding.usesInAll, Binding.usesAll, List.map_append, b.map_var_usesIn,
      Binding.map_var_usesInAll]

theorem Block.map_var_usesInAll (ds : List Var) (bs : List Block) :
    (Block.usesInAll ds bs).map Use.var = Block.usesAll bs := by
  match bs with
  | [] => rfl
  | .mk _ _ bindings :: bs =>
    rw [Block.usesInAll, Block.usesAll, List.map_append, Block.map_var_usesInAll]
    exact congrArg (· ++ _) (Binding.map_var_usesInAll ds bindings)

end

/-- What is collected from a list is what is collected from each of its elements, in order. -/
structure Collects {α β : Type} (each : α → List β) (all : List α → List β) : Prop where
  nil : all [] = []
  cons (a : α) (as : List α) : all (a :: as) = each a ++ all as

namespace Collects

section

variable {α β : Type} {each : α → List β} {all : List α → List β}

theorem append (h : Collects each all) (as as' : List α) : all (as ++ as') = all as ++ all as' := by
  induction as with
  | nil => rw [List.nil_append, h.nil, List.nil_append]
  | cons a as ih => rw [List.cons_append, h.cons, h.cons, ih, List.append_assoc]

/-- Elements from which nothing is collected may be left out. -/
theorem filter (h : Collects each all) {keep : α → Bool}
    (hnil : ∀ a, keep a = false → each a = []) (as : List α) : all (as.filter keep) = all as := by
  induction as with
  | nil => rfl
  | cons a as ih =>
    rw [List.filter_cons, h.cons]
    split
    · rw [h.cons, ih]
    · next hk => rw [hnil a (eq_false_of_ne_true hk), ih, List.nil_append]

end

variable {β : Type}

theorem unpacked {each : Expr → List β} {all : List Expr → List β} (h : Collects each all)
    (htuple : ∀ node fields, each (.tuple node fields) = all fields) (e : Expr) :
    all e.unpacked = each e := by
  have hone : all [e] = each e := by
    rw [h.cons, h.nil, List.append_nil]
  cases e with
  | tuple node fields => exact (htuple node fields).symm
  | _ => exact hone

/-- The blocks of a sequence that is rebuilt, with or without those that have no bindings. -/
theorem kept {each : Block → List β} {all : List Block → List β} (h : Collects each all)
    (hempty : ∀ mark kind, each (.mk mark kind []) = []) {bs kept : List Block}
    (hk : kept = bs ∨ kept = bs.filter fun b => !b.bindings.isEmpty) : all kept = all bs := by
  obtain rfl | rfl := hk
  · rfl
  · refine h.filter (fun b hb => ?_) bs
    obtain ⟨mark, kind, bindings⟩ := b
    cases bindings with
    | nil => exact hempty mark kind
    | cons => cases hb

end Collects

theorem Expr.uses_collects : Collects Expr.uses Expr.usesAll := by
  exact ⟨rfl, fun _ _ => rfl⟩

theorem Expr.bound_collects : Collects Expr.bound Expr.boundAll := by
  exact ⟨rfl, fun _ _ => rfl⟩

theorem Expr.nestedBlocks_collects : Collects Expr.nestedBlocks Expr.nestedBlocksAll := by
  exact ⟨rfl, fun _ _ => rfl⟩

theorem Binding.uses_collects : Collects Binding.uses Binding.usesAll := by
  exact ⟨rfl, fun _ _ => rfl⟩

theorem Binding.bound_collects : Collects Binding.bound Binding.boundAll := by
  exact ⟨rfl, fun _ _ => rfl⟩

theorem Binding.nestedBlocks_collects : Collects Binding.nestedBlocks Binding.nestedBlocksAll := by
  exact ⟨rfl, fun _ _ => rfl⟩

theorem Block.uses_collects : Collects Block.uses Block.usesAll := by
  exact ⟨rfl, fun _ _ => rfl⟩

theorem Block.bound_collects : Collects Block.bound Block.boundAll := by
  exact ⟨rfl, fun _ _ => rfl⟩

private theorem Block.nestedBlocksAll_filter_subset (bs : List Block) :
    Block.nestedBlocksAll (bs.filter fun b => !b.bindings.isEmpty) ⊆ Block.nestedBlocksAll bs := by
  induction bs with
  | nil => exact List.Subset.refl _
  | cons b bs ih =>
    rw [List.filter_cons]
    split
    · exact List.append_subset.mpr
        ⟨List.subset_append_left _ _, List.Subset.trans ih (List.subset_append_right _ _)⟩
    · exact List.Subset.trans ih (List.subset_append_right _ _)

/-- The variables that were there before an index was used up. -/
def Var.older (base : Nat) (vs : List Var) : List Var :=
  vs.filter fun v => v.id.index < base

@[simp] theorem Var.older_append (base : Nat) (vs ws : List Var) :
    Var.older base (vs ++ ws) = Var.older base vs ++ Var.older base ws :=
  List.filter_append _ _

private theorem Var.older_singleton {base : Nat} {v : Var} (h : base ≤ v.id.index) :
    Var.older base [v] = [] := by
  rw [older, List.filter_singleton, decide_eq_false h.not_gt]
  rfl

variable {base : Nat} {r r' : Id → Option Var}

theorem Var.LoweredAll.regular {vs vs' : List Var} (h : Var.LoweredAll r vs vs' r') :
    ∀ v ∈ vs', v.dataflow = false := by
  induction h with
  | nil => exact nofun
  | cons hv _ ih => exact List.forall_mem_cons.mpr ⟨hv.regular, ih⟩

/-- Neither a dataflow block nor a definition of a dataflow variable. -/
structure NoDataflow (blocks : List Block) (bound : List Var) : Prop where
  blocks : ∀ b ∈ blocks, b.kind = .plain
  bound : ∀ v ∈ bound, v.dataflow = false

namespace NoDataflow

variable {blocks blocks' : List Block} {bound bound' : List Var}

theorem nil : NoDataflow [] [] := by
  exact ⟨nofun, nofun⟩

theorem append (h : NoDataflow blocks bound) (h' : NoDataflow blocks' bound') :
    NoDataflow (blocks ++ blocks') (bound ++ bound') := by
  have hblocks := List.forall_mem_append.mpr ⟨h.blocks, h'.blocks⟩
  exact ⟨hblocks, List.forall_mem_append.mpr ⟨h.bound, h'.bound⟩⟩

private theorem binds (h : NoDataflow blocks bound) {vs : List Var}
    (hv : ∀ v ∈ vs, v.dataflow = false) :
    NoDataflow blocks (vs ++ bound) := by
  exact ⟨h.blocks, List.forall_mem_append.mpr ⟨hv, h.bound⟩⟩

theorem binding (h : NoDataflow blocks bound) {v : Var} (hv : v.dataflow = false) :
    NoDataflow blocks (v :: bound) := by
  exact ⟨h.blocks, List.forall_mem_cons.mpr ⟨hv, h.bound⟩⟩

/-- The blocks of a sequence that is rebuilt, with or without those that have no bindings. -/
theorem kept {bs kept : List Block} (h : NoDataflow (Block.nestedBlocksAll bs) (Block.boundAll bs))
    (hk : kept = bs ∨ kept = bs.filter fun b => !b.bindings.isEmpty) :
    NoDataflow (Block.nestedBlocksAll kept) (Block.boundAll kept) := by
  obtain rfl | rfl := hk
  · exact h
  · refine ⟨fun b hm => h.blocks b (Block.nestedBlocksAll_filter_subset _ hm), ?_⟩
    rw [Block.bound_collects.kept (fun _ _ => rfl) (.inr rfl)]
    exact h.bound

/-- The arguments of the call that gets the allocation. -/
theorem args {packed : Expr} (h : NoDataflow packed.nestedBlocks packed.bound) (alloc : Var) :
    NoDataflow (Expr.nestedBlocksAll (packed.unpacked ++ [.var alloc]))
      (Expr.boundAll (packed.unpacked ++ [.var alloc])) := by
  rw [Expr.nestedBlocks_collects.append, Expr.bound_collects.append,
    Expr.nestedBlocks_collects.unpacked fun _ _ => rfl, Expr.bound_collects.unpacked fun _ _ => rfl]
  exact h.append .nil

end NoDataflow

mutual

theorem Expr.Lowered.noDataflow {r r' : Id → Option Var} {e e' : Expr}
    (h : Expr.Lowered base r e e' r') : NoDataflow e'.nestedBlocks e'.bound := by
  match h with
  | .leaf | .var | .shape | .prim => exact .nil
  | .tuple hf => exact hf.noDataflow
  | .item hw => exact hw.noDataflow
  | .call hc ha => exact hc.noDataflow.append ha.noDataflow
  | .ite hc ht hf => exact hc.noDataflow.append (ht.noDataflow.append hf.noDataflow)
  | .seq hb hk hy => exact (hb.noDataflow.kept hk).append hy.noDataflow
  | .function hp hb => exact hb.noDataflow.binds hp.regular

theorem Expr.LoweredAll.noDataflow {r r' : Id → Option Var} {es es' : List Expr}
    (h : Expr.LoweredAll base r es es' r') :
    NoDataflow (Expr.nestedBlocksAll es') (Expr.boundAll es') := by
  match h with
  | .nil => exact .nil
  | .cons he hs => exact he.noDataflow.append hs.noDataflow

theorem Binding.Lowered.noDataflow {r r' : Id → Option Var} {b : Binding} {out : List Binding}
    (h : Binding.Lowered base r b out r') :
    NoDataflow (Binding.nestedBlocksAll out) (Binding.boundAll out) := by
  match h with
  | .bind _ hy hd | .cast hy hd => exact (hy.noDataflow.binding hd.regular).append .nil
  | .call _ hs hf hp _ ha hc hd =>
    refine ((NoDataflow.append .nil (hs.noDataflow.append .nil)).binding ha).append ?_
    exact ((hf.noDataflow.append (hp.noDataflow.args _)).binding hc).append
      ((NoDataflow.nil.binding hd.regular).append .nil)

theorem Binding.LoweredAll.noDataflow {r r' : Id → Option Var} {bs out : List Binding}
    (h : Binding.LoweredAll base r bs out r') :
    NoDataflow (Binding.nestedBlocksAll out) (Binding.boundAll out) := by
  match h with
  | .nil => exact .nil
  | .cons hb hs =>
    rw [Binding.nestedBlocks_collects.append, Binding.bound_collects.append]
    exact hb.noDataflow.append hs.noDataflow

theorem Block.Lowered.noDataflow {r r' : Id → Option Var} {b b' : Block}
    (h : Block.Lowered base r b b' r') : NoDataflow b'.nestedBlocks b'.bound := by
  match h with
  | .mk hb => exact ⟨List.forall_mem_cons.mpr ⟨rfl, hb.noDataflow.blocks⟩, hb.noDataflow.bound⟩

theorem Block.LoweredAll.noDataflow {r r' : Id → Option Var} {bs bs' : List Block}
    (h : Block.LoweredAll base r bs bs' r') :
    NoDataflow (Block.nestedBlocksAll bs') (Block.boundAll bs') := by
  match h with
  | .nil => exact .nil
  | .cons hb hs => exact hb.noDataflow.append hs.noDataflow

end

/-- Replacements that keep identities, are regular, and include each dataflow variable in scope. -/
structure Regularizes (ds : List Var) (r : Id → Option Var) : Prop where
  regular : ∀ {id w}, r id = some w → w.id = id ∧ w.dataflow = false
  covers : ∀ d ∈ ds, d.dataflow → (r d.id).isSome

namespace Regularizes

variable {ds : List Var}

theorem use (h : Regularizes ds r) (v : Var) : Use.Regularized ⟨ds, v⟩ ((r v.id).getD v) := by
  cases hr : r v.id with
  | none =>
    refine ⟨rfl, ?_⟩
    rintro - ⟨d, hd, hk, hid⟩
    have hs := h.covers d hd hk
    rw [show d.id = v.id from hid, hr] at hs
    cases hs
  | some w => exact ⟨(h.regular hr).1, fun _ _ => (h.regular hr).2⟩

/-- After a definition the variable is covered where it is a dataflow variable. -/
theorem define (h : Regularizes ds r) {v v' : Var} (hd : Var.Lowered r v v' r') :
    Regularizes (ds ++ [v]) r' := by
  cases hd with
  | kept _ hv =>
    refine ⟨h.regular, List.forall_mem_append.mpr ⟨h.covers, List.forall_mem_singleton.mpr ?_⟩⟩
    intro hk
    rw [hv] at hk
    cases hk
  | replaced hid hv' =>
    refine ⟨?_, ?_⟩
    · intro id w hw
      rw [Function.update_apply] at hw
      split at hw
      · next he =>
        cases hw
        exact ⟨hid.trans he.symm, hv'⟩
      · exact h.regular hw
    · intro d hd hk
      rw [Function.update_apply]
      split
      · rfl
      · next hne =>
        obtain hd | hd := List.mem_append.mp hd
        · exact h.covers d hd hk
        · exact absurd (congrArg Var.id (List.mem_singleton.mp hd)) hne

theorem defineAll (h : Regularizes ds r) {vs vs' : List Var} (hd : Var.LoweredAll r vs vs' r') :
    Regularizes (ds ++ vs) r' := by
  induction hd generalizing ds with
  | nil => simpa using h
  | cons hv _ ih => simpa using ih (h.define hv)

theorem empty : Regularizes [] fun _ => none := by
  exact ⟨nofun, nofun⟩

end Regularizes

variable (base) in
/-- The old uses of a part after the pass, one for each use before it. -/
def UsesRegular (uses : List Use) (vs : List Var) : Prop :=
  List.Forall₂ Use.Regularized uses (Var.older base vs)

theorem UsesRegular.append {uses uses' : List Use} {vs vs' : List Var}
    (h : UsesRegular base uses vs) (h' : UsesRegular base uses' vs') :
    UsesRegular base (uses ++ uses') (vs ++ vs') := by
  rw [UsesRegular, Var.older_append]
  exact List.rel_append h h'

/-- A use of a variable that the pass makes is not counted. -/
private theorem UsesRegular.append_new {uses : List Use} {vs : List Var} {v : Var}
    (h : UsesRegular base uses vs) (hv : base ≤ v.id.index) :
    UsesRegular base uses (vs ++ [v]) := by
  rw [UsesRegular, Var.older_append, Var.older_singleton hv, List.append_nil]
  exact h

theorem UsesRegular.nil : UsesRegular base [] [] :=
  List.Forall₂.nil

mutual

theorem Expr.Lowered.usesRegular {r r' : Id → Option Var} {e e' : Expr} {ds : List Var}
    (hlowered : Expr.Lowered base r e e' r') :
    (∀ v ∈ e.uses, v.id.index < base) → Regularizes ds r → UsesRegular base (e.usesIn ds) e'.uses ∧
      Regularizes (ds ++ e.declared) r' := by
  match hlowered with
  | .leaf | .shape | .prim =>
    intro _ h
    refine ⟨.nil, ?_⟩
    simpa [Expr.declared] using h
  | @Expr.Lowered.var _ _ v =>
    intro hu h
    have hv := h.use v
    refine ⟨?_, by simpa [Expr.declared] using h⟩
    have hlt : ((r v.id).getD v).id.index < base := by
      rw [hv.id_eq]
      exact hu v List.mem_cons_self
    rw [UsesRegular, Expr.uses, Var.older, List.filter_singleton, decide_eq_true hlt]
    exact .cons hv .nil
  | .tuple hf =>
    intro hu h
    exact hf.usesRegular hu h
  | .item hw =>
    intro hu h
    exact hw.usesRegular hu h
  | .call hc ha =>
    intro hu h
    obtain ⟨huc, hua⟩ := List.forall_mem_append.mp hu
    obtain ⟨h1, k1⟩ := hc.usesRegular huc h
    obtain ⟨h2, k2⟩ := ha.usesRegular hua k1
    exact ⟨h1.append h2, by simpa [Expr.declared] using k2⟩
  | .ite hc ht hf =>
    intro hu h
    obtain ⟨huc, hu⟩ := List.forall_mem_append.mp hu
    obtain ⟨hut, huf⟩ := List.forall_mem_append.mp hu
    obtain ⟨h1, k1⟩ := hc.usesRegular huc h
    exact ⟨h1.append ((ht.usesRegular hut k1).1.append (hf.usesRegular huf k1).1), k1⟩
  | .seq hb hk hy =>
    intro hu h
    obtain ⟨hub, huy⟩ := List.forall_mem_append.mp hu
    obtain ⟨h1, k1⟩ := hb.usesRegular hub h
    obtain ⟨h2, k2⟩ := hy.usesRegular huy k1
    refine ⟨?_, by simpa [Expr.declared] using k2⟩
    rw [Expr.uses, Block.uses_collects.kept (fun _ _ => rfl) hk]
    exact h1.append h2
  | .function hp hb =>
    intro hu h
    refine ⟨(hb.usesRegular hu (h.defineAll hp)).1, ?_⟩
    simpa [Expr.declared] using h

theorem Expr.LoweredAll.usesRegular {r r' : Id → Option Var} {es es' : List Expr}
    {ds : List Var} (hlowered : Expr.LoweredAll base r es es' r') :
    (∀ v ∈ Expr.usesAll es, v.id.index < base) → Regularizes ds r →
      UsesRegular base (Expr.usesInAll ds es) (Expr.usesAll es') ∧
      Regularizes (ds ++ Expr.declaredAll es) r' := by
  match hlowered with
  | .nil =>
    intro _ h
    refine ⟨.nil, ?_⟩
    simpa [Expr.declaredAll] using h
  | .cons he hs =>
    intro hu h
    obtain ⟨hue, hus⟩ := List.forall_mem_append.mp hu
    obtain ⟨h1, k1⟩ := he.usesRegular hue h
    obtain ⟨h2, k2⟩ := hs.usesRegular hus k1
    exact ⟨h1.append h2, by simpa [Expr.declaredAll] using k2⟩

theorem Binding.Lowered.usesRegular {r r' : Id → Option Var} {b : Binding} {out : List Binding}
    {ds : List Var} (hlowered : Binding.Lowered base r b out r') :
    (∀ v ∈ b.uses, v.id.index < base) → Regularizes ds r →
      UsesRegular base (b.usesIn ds) (Binding.usesAll out) ∧ Regularizes (ds ++ b.declared) r' := by
  match hlowered with
  | .bind _ hy hd | .cast hy hd =>
    intro hu h
    obtain ⟨h1, k1⟩ := hy.usesRegular hu h
    refine ⟨?_, by simpa [Binding.declared] using k1.define hd⟩
    simpa [Binding.usesAll, Binding.uses, Binding.usesIn] using h1
  | .call hl hs hf hp hi _ _ hd =>
    intro hu h
    obtain ⟨_, _, _, _, rfl⟩ := Pass.lowered?_eq_call hl
    obtain ⟨hus, hu⟩ := List.forall_mem_append.mp (List.forall_mem_append.mp hu).2
    obtain ⟨huf, hu⟩ := List.forall_mem_append.mp hu
    obtain ⟨h1, k1⟩ := hs.usesRegular hus h
    obtain ⟨h2, k2⟩ := hf.usesRegular huf k1
    obtain ⟨h3, k3⟩ := hp.usesRegular (List.forall_mem_append.mp hu).1 k2
    have k := k3.define hd
    have huses := h1.append (h2.append ((h3.append_new hi).append_new hi))
    have hunpacked := Expr.uses_collects.unpacked fun _ _ => rfl
    simp only [Binding.usesAll, Binding.uses, Expr.uses, Expr.usesAll, Expr.uses_collects.append,
      hunpacked, Binding.usesIn, Expr.usesIn, Expr.usesInAll, Expr.mkOp, Expr.mkLeaf,
      Expr.declared, Binding.declared, Expr.declaredAll, List.append_nil, List.nil_append,
      List.append_assoc] at huses k ⊢
    exact ⟨huses, k⟩

theorem Binding.LoweredAll.usesRegular {r r' : Id → Option Var} {bs out : List Binding}
    {ds : List Var} (hlowered : Binding.LoweredAll base r bs out r') :
    (∀ v ∈ Binding.usesAll bs, v.id.index < base) → Regularizes ds r →
      UsesRegular base (Binding.usesInAll ds bs) (Binding.usesAll out) ∧
      Regularizes (ds ++ Binding.declaredAll bs) r' := by
  match hlowered with
  | .nil =>
    intro _ h
    refine ⟨.nil, ?_⟩
    simpa [Binding.declaredAll] using h
  | .cons hb hs =>
    intro hu h
    obtain ⟨hub, hus⟩ := List.forall_mem_append.mp hu
    obtain ⟨h1, k1⟩ := hb.usesRegular hub h
    obtain ⟨h2, k2⟩ := hs.usesRegular hus k1
    rw [Binding.uses_collects.append]
    exact ⟨h1.append h2, by simpa [Binding.declaredAll] using k2⟩

theorem Block.Lowered.usesRegular {r r' : Id → Option Var} {b b' : Block} {ds : List Var}
    (hlowered : Block.Lowered base r b b' r') :
    (∀ v ∈ b.uses, v.id.index < base) → Regularizes ds r → UsesRegular base (b.usesIn ds) b'.uses ∧
      Regularizes (ds ++ b.declared) r' := by
  match hlowered with
  | .mk hb =>
    intro hu h
    exact hb.usesRegular hu h

theorem Block.LoweredAll.usesRegular {r r' : Id → Option Var} {bs bs' : List Block}
    {ds : List Var} (hlowered : Block.LoweredAll base r bs bs' r') :
    (∀ v ∈ Block.usesAll bs, v.id.index < base) → Regularizes ds r →
      UsesRegular base (Block.usesInAll ds bs) (Block.usesAll bs') ∧
      Regularizes (ds ++ Block.declaredAll bs) r' := by
  match hlowered with
  | .nil =>
    intro _ h
    refine ⟨.nil, ?_⟩
    simpa [Block.declaredAll] using h
  | .cons hb hs =>
    intro hu h
    obtain ⟨hub, hus⟩ := List.forall_mem_append.mp hu
    obtain ⟨h1, k1⟩ := hb.usesRegular hub h
    obtain ⟨h2, k2⟩ := hs.usesRegular hus k1
    exact ⟨h1.append h2, by simpa [Block.declaredAll] using k2⟩

end

/-- The variables used in a module. -/
def Module.uses (m : Module) : List Var :=
  m.toList.flatMap fun e => e.2.toExpr.uses

/-- No block of the new function is a dataflow block and none of its variables is bound as a
dataflow variable. Its uses, those of variables made since apart, are those of the old function, and
where such a use was one of a dataflow variable in the scope of its definition it is regular. -/
structure Function.Regularized (base : Nat) (f f' : Function) : Prop where
  blocks : ∀ b ∈ f'.toExpr.nestedBlocks, b.kind = .plain
  bound : ∀ v ∈ f'.toExpr.bound, v.dataflow = false
  uses : List.Forall₂ Use.Regularized (f.toExpr.usesIn []) (Var.older base f'.toExpr.uses)

/-- Making memory explicit leaves no dataflow. -/
theorem lowering_leaves_no_dataflow {m : Module} {r : Option Module} {w w' : World}
    (hb : Below w.next m.tags) (hu : ∀ v ∈ m.uses, v.id.index < w.next)
    (h : (Pass.explicitMemory.apply m).exec w = (.ok r, w')) :
    List.Forall₂ (fun e e' => e'.1 = e.1 ∧ Function.Regularized w.next e.2 e'.2) m.toList
      (r.getD m).toList := by
  have hbec : Module.Becomes .explicitMemory w.next m (r.getD m) := Pass.apply_ok h
  have hentry : ∀ e ∈ m.functions.entries, Below w.next e.2.2.toExpr.tags ∧
      ∀ v ∈ e.2.2.toExpr.uses, v.id.index < w.next := by
    intro e he
    have hm : e.2 ∈ m.toList := List.mem_map_of_mem he
    exact ⟨fun tag ht => hb tag (List.mem_flatMap.mpr ⟨e.2, hm, ht⟩),
      fun v hv => hu v (List.mem_flatMap.mpr ⟨e.2, hm, hv⟩)⟩
  rw [Module.toList, Module.toList, List.forall₂_map_left_iff, List.forall₂_map_right_iff]
  refine ((List.forall₂_and_left _ _).mpr ⟨hentry, hbec⟩).imp ?_
  rintro e e' ⟨⟨htags, huses⟩, -, hg, hf⟩
  obtain ⟨r', hlow⟩ := hf.lowersTo htags
  exact ⟨hg, hlow.noDataflow.blocks, hlow.noDataflow.bound, (hlow.usesRegular huses .empty).1⟩

namespace Destinations

/-- A dataflow variable is defined in a branch, and used there and in a function in it. -/
def branching : Module :=
  module [.mk ⟨8, none⟩ .plain
    [.bind ⟨9, none⟩ first (.mkIte ⟨10, none⟩ (.var x)
      (.mkSeq ⟨11, none⟩ [.mk ⟨12, none⟩ .dataflow
        [.cast ⟨13, none⟩ inner (.var x) .object,
          .bind ⟨14, none⟩ second (.mkFunction ⟨15, none⟩ [] (.var inner) none .empty)]]
        (.var inner))
      (.var x))]] first

end Destinations

open Destinations in
theorem lowering_leaves_no_dataflow_branching : ∃ m' w',
    (Pass.explicitMemory.apply branching).exec world = (.ok (some m'), w') ∧
      (∀ e ∈ branching.toList, ∃ u ∈ e.2.toExpr.usesIn [], u.var.dataflow ∧ u.var ∈ u.scope) ∧
      List.Forall₂ (fun e e' => e'.1 = e.1 ∧ Function.Regularized world.next e.2 e'.2)
        branching.toList m'.toList := by
  have hs : (Pass.explicitMemory.changedModule? branching world).isSome := by decide +kernel
  obtain ⟨m', hm⟩ := Option.isSome_iff_exists.mp hs
  have h := Pass.apply_of_changedModule? hm
  have hb : Below world.next branching.tags := by decide +kernel
  have hu : ∀ v ∈ branching.uses, v.id.index < world.next := by decide +kernel
  exact ⟨m', _, h, by decide +kernel, lowering_leaves_no_dataflow hb hu h⟩

end DataflowIR
