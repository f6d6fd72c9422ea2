import DataflowIR.Build.Builder
import DataflowIR.Proofs.Scoping.Checks

namespace DataflowIR

mutual

/-- Whether every composite node has struct info. -/
def Expr.isAnnotated : Expr → Bool
  | .leaf .. | .var _ | .shape .. | .prim .. => true
  | .tuple node fields => node.sinfo.isSome && Expr.areAnnotated fields
  | .item node whole _ => node.sinfo.isSome && whole.isAnnotated
  | .call node callee args _ _ =>
    node.sinfo.isSome && callee.isAnnotated && Expr.areAnnotated args
  | .ite node cond onTrue onFalse =>
    node.sinfo.isSome && cond.isAnnotated && onTrue.isAnnotated && onFalse.isAnnotated
  | .seq node blocks body =>
    node.sinfo.isSome && Block.areAnnotated blocks && body.isAnnotated
  | .function node _ body _ _ => node.sinfo.isSome && body.isAnnotated

def Expr.areAnnotated : List Expr → Bool
  | [] => true
  | e :: es => e.isAnnotated && Expr.areAnnotated es

def Binding.isAnnotated : Binding → Bool
  | .bind _ _ value | .cast _ _ value _ => value.isAnnotated

def Binding.areAnnotated : List Binding → Bool
  | [] => true
  | b :: bs => b.isAnnotated && Binding.areAnnotated bs

def Block.isAnnotated : Block → Bool
  | .mk _ _ bindings => Binding.areAnnotated bindings

def Block.areAnnotated : List Block → Bool
  | [] => true
  | b :: bs => b.isAnnotated && Block.areAnnotated bs

end

def Module.isAnnotated (m : Module) : Bool :=
  m.toList.all fun e => e.2.toExpr.isAnnotated

/-- Nothing is to be inferred. -/
theorem Expr.missingSinfo_of_isAnnotated {e : Expr} (h : e.isAnnotated) (b : Builder) :
    b.missingSinfo e = .ok none := by
  have hn : (e.sinfo.isNone && Builder.isComposite e) = false := by
    cases e <;> simp_all [Expr.isAnnotated, Expr.sinfo, Expr.node, Builder.isComposite]
  rw [Builder.missingSinfo, hn]
  rfl

/-- A variable bound in a block, in functions with these parameters. -/
structure Placement where
  var : Var
  block : BlockKind
  params : List Var

namespace Placement

/-- How the builder rejects the binding. -/
def rejection? (p : Placement) : Option Fault :=
  if p.var.dataflow && p.block != .dataflow then some (.dataflowVarInPlainBlock p.var)
  else if p.params.any fun q => q.id == p.var.id then some (.parameterBoundAgain p.var)
  else none

/-- How the builder rejects the binding of a dataflow variable, or one in the place of a dataflow
variable. -/
def dataflowFault? (p : Placement) : Option Fault :=
  if p.var.dataflow && p.block != .dataflow then some (.dataflowVarInPlainBlock p.var)
  else if p.params.any fun q => (q.dataflow || p.var.dataflow) && q.id == p.var.id then
    some (.parameterBoundAgain p.var)
  else none

/-- A regular variable is not bound in the place of a regular parameter. -/
def Proper (p : Placement) : Prop :=
  p.var.dataflow = false → ∀ q ∈ p.params, q.dataflow = false → q.id ≠ p.var.id

theorem Proper.rejection?_eq {p : Placement} (h : p.Proper) :
    p.rejection? = p.dataflowFault? := by
  have hany : (p.params.any fun q => q.id == p.var.id) =
      p.params.any fun q => (q.dataflow || p.var.dataflow) && q.id == p.var.id := by
    rw [Bool.eq_iff_iff, List.any_eq_true, List.any_eq_true]
    refine exists_congr fun q => and_congr_right fun hq => ?_
    have hne : p.var.dataflow = false → q.dataflow = false → q.id ≠ p.var.id := fun hv => h hv q hq
    cases hv : p.var.dataflow <;> cases hd : q.dataflow <;> simp_all
  rw [rejection?, dataflowFault?, hany]

end Placement

mutual

/-- The placements of the bindings, in the order in which they are emitted. -/
def Expr.placements (params : List Var) : Expr → List Placement
  | .leaf .. | .var _ | .shape .. | .prim .. => []
  | .tuple _ fields => Expr.placementsAll params fields
  | .item _ whole _ => whole.placements params
  | .call _ callee args _ _ => callee.placements params ++ Expr.placementsAll params args
  | .ite _ cond onTrue onFalse =>
    cond.placements params ++ onTrue.placements params ++ onFalse.placements params
  | .seq _ blocks body => Block.placementsAll params blocks ++ body.placements params
  | .function _ own body _ _ => body.placements (own ++ params)

def Expr.placementsAll (params : List Var) : List Expr → List Placement
  | [] => []
  | e :: es => e.placements params ++ Expr.placementsAll params es

/-- Those in the value come before that of the binding. -/
def Binding.placements (block : BlockKind) (params : List Var) : Binding → List Placement
  | .bind _ v value | .cast _ v value _ => value.placements params ++ [⟨v, block, params⟩]

def Binding.placementsAll (block : BlockKind) (params : List Var) : List Binding → List Placement
  | [] => []
  | b :: bs => b.placements block params ++ Binding.placementsAll block params bs

def Block.placements (params : List Var) : Block → List Placement
  | .mk _ kind bindings => Binding.placementsAll kind params bindings

def Block.placementsAll (params : List Var) : List Block → List Placement
  | [] => []
  | b :: bs => b.placements params ++ Block.placementsAll params bs

end

def Module.placements (m : Module) : List Placement :=
  m.toList.flatMap fun e => e.2.toExpr.placements []

@[simp] theorem Expr.placements_withNode (n : Node) (e : Expr) (params : List Var) :
    (e.withNode n).placements params = e.placements params := by
  cases e <;> rfl

mutual

/-- Nothing is bound in a normal expression. -/
private theorem Expr.placements_of_isNormal (params : List Var) :
    ∀ {e : Expr}, e.isNormal → e.placements params = []
  | .leaf .., _ | .var _, _ | .shape .., _ | .prim .., _ => rfl
  | .tuple _ fields, h => by
    have hfields : Expr.areNormal fields := h
    exact Expr.placementsAll_of_areNormal params hfields

theorem Expr.placementsAll_of_areNormal (params : List Var) {es : List Expr}
    (h : Expr.areNormal es) : Expr.placementsAll params es = [] := by
  cases es with
  | nil => rfl
  | cons e es =>
    obtain ⟨he, hs⟩ := Bool.and_eq_true_iff.mp h
    rw [Expr.placementsAll, Expr.placements_of_isNormal params he,
      Expr.placementsAll_of_areNormal params hs, List.append_nil]

end

/-- Blocks without bindings have no placements, so leaving them out changes none. -/
theorem Block.placementsAll_filter (params : List Var) (bs : List Block) :
    Block.placementsAll params (bs.filter fun b => !b.bindings.isEmpty) =
      Block.placementsAll params bs := by
  induction bs with
  | nil => rfl
  | cons b bs ih =>
    rw [List.filter_cons, Block.placementsAll, ← ih]
    split
    · rfl
    · next h =>
      obtain ⟨mark, kind, bindings⟩ := b
      obtain rfl : bindings = [] := by simpa [Block.bindings] using h
      rfl

/-- The regular parameters are in scope. -/
def Scope.Covers (sc : Scope) (params : List Var) : Prop :=
  ∀ q ∈ params, q.dataflow = false → q.id ∈ sc.vars

namespace Scope

variable {sc sc' : Scope} {params : List Var}

theorem Covers.mono (h : sc.Covers params) (hs : sc.vars ⊆ sc'.vars) : sc'.Covers params := by
  intro q hq hd
  exact hs (h q hq hd)

theorem vars_subset_of_defineVar {v : Var} (h : sc.defineVar v = .ok sc') :
    sc.vars ⊆ sc'.vars := by
  rw [defineVar_ok h]
  split
  · exact List.Subset.refl _
  · exact List.subset_cons_self _ _

private theorem covers_of_defineVar {v : Var} (h : sc.defineVar v = .ok sc') : sc'.Covers [v] := by
  intro q hq hd
  obtain rfl := List.mem_singleton.mp hq
  rw [defineVar_ok h, hd]
  exact List.mem_cons_self

/-- A regular variable that is defined was not in scope. -/
private theorem proper_of_defineVar {v : Var} {block : BlockKind} (hc : sc.Covers params)
    (h : sc.defineVar v = .ok sc') : Placement.Proper ⟨v, block, params⟩ := by
  intro hv q hq hd heq
  change v.dataflow = false at hv
  rw [defineVar, hv, if_neg Bool.false_ne_true, if_pos (heq ▸ hc q hq hd)] at h
  cases h

private theorem defineParam_eq (sc : Scope) (v : Var) :
    ∃ syms, sc.defineParam v = { sc with syms := syms }.defineVar v := by
  unfold defineParam
  cases v.sinfo with
  | none => exact ⟨sc.syms, rfl⟩
  | some i => exact ⟨i.syms ++ sc.syms, rfl⟩

private theorem covers_of_defineParams {own : List Var} (hc : sc.Covers params)
    (h : sc.defineParams own = .ok sc') : sc'.Covers (own ++ params) ∧ sc.vars ⊆ sc'.vars := by
  induction own generalizing sc with
  | nil =>
    cases h
    exact ⟨hc, List.Subset.refl _⟩
  | cons v own ih =>
    simp only [defineParams, Except.bind_ok] at h
    obtain ⟨sc1, h1, h2⟩ := h
    obtain ⟨syms, hv⟩ := defineParam_eq sc v
    rw [hv] at h1
    have hs : { sc with syms := syms }.vars ⊆ sc1.vars := vars_subset_of_defineVar h1
    obtain ⟨hown, hs'⟩ := ih (hc.mono hs) h2
    have hcv := (covers_of_defineVar h1).mono hs'
    refine ⟨?_, fun id hid => hs' (hs hid)⟩
    intro q hq hd
    rcases List.mem_cons.mp hq with rfl | hq
    · exact hcv q List.mem_cons_self hd
    · exact hown q hq hd

end Scope

variable {known : String → Bool}

mutual

/-- What is checked with the regular parameters in scope is in its proper place, and leaves them in
scope. -/
theorem Expr.check_proper {params : List Var} {asBody : Bool} {sc sc' : Scope}
    (hc : sc.Covers params) {e : Expr} (h : e.check known asBody sc = .ok sc') :
    (∀ p ∈ e.placements params, p.Proper) ∧ sc.vars ⊆ sc'.vars := by
  cases e with
  | leaf =>
    obtain ⟨rfl, -⟩ := check_leaf.mp h
    exact ⟨nofun, List.Subset.refl _⟩
  | var v =>
    obtain ⟨rfl, -⟩ := Scope.useVar_ok.mp h
    exact ⟨nofun, List.Subset.refl _⟩
  | shape _ values =>
    obtain ⟨rfl, -⟩ := Scope.useDims_ok.mp h
    exact ⟨nofun, List.Subset.refl _⟩
  | prim _ value _ =>
    obtain ⟨rfl, -⟩ := Scope.useDim_ok.mp h
    exact ⟨nofun, List.Subset.refl _⟩
  | tuple _ fields => exact Expr.checkAll_proper hc (check_tuple.mp h).2
  | item _ whole _ =>
    obtain ⟨p1, s1⟩ := Expr.check_proper hc (check_item.mp h)
    exact ⟨p1, s1⟩
  | call _ callee args _ _ =>
    obtain ⟨-, sc1, h1, -, h2⟩ := check_call.mp h
    obtain ⟨p1, s1⟩ := Expr.check_proper hc h1
    obtain ⟨p2, s2⟩ := Expr.checkAll_proper (hc.mono s1) h2
    exact ⟨List.forall_mem_append.mpr ⟨p1, p2⟩, List.Subset.trans s1 s2⟩
  | ite _ cond onTrue onFalse =>
    obtain ⟨-, sc1, after, sc2, h1, h2, h3, rfl⟩ := check_ite.mp h
    obtain ⟨p1, s1⟩ := Expr.check_proper hc h1
    obtain ⟨p2, -⟩ := Expr.check_proper (hc.mono s1) h2
    have hfalse : { after with vars := sc1.vars }.Covers params := hc.mono s1
    obtain ⟨p3, -⟩ := Expr.check_proper hfalse h3
    exact ⟨List.forall_mem_append.mpr ⟨List.forall_mem_append.mpr ⟨p1, p2⟩, p3⟩, s1⟩
  | seq _ blocks body =>
    obtain ⟨-, sc1, h1, h2⟩ := check_seq.mp h
    obtain ⟨p1, s1⟩ := Block.checkAll_proper hc h1
    obtain ⟨p2, s2⟩ := Expr.check_proper (hc.mono s1) h2
    exact ⟨List.forall_mem_append.mpr ⟨p1, p2⟩, List.Subset.trans s1 s2⟩
  | function _ own body _ _ =>
    obtain ⟨sc1, sc2, h1, h2, -, rfl⟩ := check_function.mp h
    obtain ⟨hown, -⟩ := Scope.covers_of_defineParams hc h1
    obtain ⟨p2, -⟩ := Expr.check_proper hown h2
    exact ⟨p2, List.Subset.refl _⟩

theorem Expr.checkAll_proper {params : List Var} {sc sc' : Scope} (hc : sc.Covers params)
    {es : List Expr} (h : Expr.checkAll known sc es = .ok sc') :
    (∀ p ∈ Expr.placementsAll params es, p.Proper) ∧ sc.vars ⊆ sc'.vars := by
  cases es with
  | nil =>
    cases h
    exact ⟨nofun, List.Subset.refl _⟩
  | cons e es =>
    obtain ⟨sc1, h1, h2⟩ := checkAll_cons.mp h
    obtain ⟨p1, s1⟩ := Expr.check_proper hc h1
    obtain ⟨p2, s2⟩ := Expr.checkAll_proper (hc.mono s1) h2
    exact ⟨List.forall_mem_append.mpr ⟨p1, p2⟩, List.Subset.trans s1 s2⟩

theorem Binding.check_proper {params : List Var} {block : BlockKind} {sc sc' : Scope}
    (hc : sc.Covers params) {b : Binding} (h : b.check known sc = .ok sc') :
    (∀ p ∈ b.placements block params, p.Proper) ∧ sc.vars ⊆ sc'.vars := by
  cases b with
  | bind _ v value =>
    obtain ⟨sc1, h1, h2⟩ := check_bind.mp h
    obtain ⟨p1, s1⟩ := Expr.check_proper hc h1
    have p2 : Placement.Proper ⟨v, block, params⟩ := Scope.proper_of_defineVar (hc.mono s1) h2
    exact ⟨List.forall_mem_append.mpr ⟨p1, List.forall_mem_singleton.mpr p2⟩,
      List.Subset.trans s1 (Scope.vars_subset_of_defineVar h2)⟩
  | cast _ v value sinfo =>
    obtain ⟨sc1, h1, h2⟩ := check_cast.mp h
    obtain ⟨p1, s1⟩ := Expr.check_proper hc h1
    have hdefined : (sc1.defineSyms sinfo).Covers params := hc.mono s1
    have p2 : Placement.Proper ⟨v, block, params⟩ := Scope.proper_of_defineVar hdefined h2
    have s2 : (sc1.defineSyms sinfo).vars ⊆ sc'.vars := Scope.vars_subset_of_defineVar h2
    exact ⟨List.forall_mem_append.mpr ⟨p1, List.forall_mem_singleton.mpr p2⟩,
      List.Subset.trans s1 s2⟩

theorem Binding.checkAll_proper {params : List Var} {block : BlockKind} {sc sc' : Scope}
    (hc : sc.Covers params) {bs : List Binding} (h : Binding.checkAll known sc bs = .ok sc') :
    (∀ p ∈ Binding.placementsAll block params bs, p.Proper) ∧ sc.vars ⊆ sc'.vars := by
  cases bs with
  | nil =>
    cases h
    exact ⟨nofun, List.Subset.refl _⟩
  | cons b bs =>
    obtain ⟨sc1, h1, h2⟩ := binding_checkAll_cons.mp h
    obtain ⟨p1, s1⟩ := Binding.check_proper hc h1
    obtain ⟨p2, s2⟩ := Binding.checkAll_proper (hc.mono s1) h2
    exact ⟨List.forall_mem_append.mpr ⟨p1, p2⟩, List.Subset.trans s1 s2⟩

theorem Block.check_proper {params : List Var} {sc sc' : Scope} (hc : sc.Covers params)
    {b : Block} :
    b.check known sc = .ok sc' → (∀ p ∈ b.placements params, p.Proper) ∧ sc.vars ⊆ sc'.vars := by
  match b with
  | .mk _ .plain bindings =>
    intro h
    exact Binding.checkAll_proper hc h
  | .mk _ .dataflow bindings =>
    intro h
    obtain ⟨sc1, h1, rfl⟩ := check_dataflow.mp h
    have hinside : { sc with inDataflow := true }.Covers params := hc
    obtain ⟨p1, s1⟩ := Binding.checkAll_proper hinside h1
    exact ⟨p1, s1⟩

theorem Block.checkAll_proper {params : List Var} {sc sc' : Scope} (hc : sc.Covers params)
    {bs : List Block} (h : Block.checkAll known sc bs = .ok sc') :
    (∀ p ∈ Block.placementsAll params bs, p.Proper) ∧ sc.vars ⊆ sc'.vars := by
  cases bs with
  | nil =>
    cases h
    exact ⟨nofun, List.Subset.refl _⟩
  | cons b bs =>
    obtain ⟨sc1, h1, h2⟩ := block_checkAll_cons.mp h
    obtain ⟨p1, s1⟩ := Block.check_proper hc h1
    obtain ⟨p2, s2⟩ := Block.checkAll_proper (hc.mono s1) h2
    exact ⟨List.forall_mem_append.mpr ⟨p1, p2⟩, List.Subset.trans s1 s2⟩

end

theorem Module.placements_proper {m : Module} (h : m.wellFormed = .ok ()) :
    ∀ p ∈ m.placements, p.Proper := by
  intro p hp
  obtain ⟨e, he, hp⟩ := List.mem_flatMap.mp hp
  obtain ⟨sc, hsc⟩ := Module.wellFormed_ok.mp h e he
  have hcovers : Scope.empty.Covers [] := nofun
  exact (Expr.check_proper hcovers hsc).1 p hp

end DataflowIR
