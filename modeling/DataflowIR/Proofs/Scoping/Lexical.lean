import DataflowIR.Proofs.Scoping.Confinement
import Mathlib.Data.List.Nodup

namespace DataflowIR

/-- A parameter or a binding: its variable, and the symbolic variables of the struct info that the
parameter has or the match cast asserts. -/
structure Origin where
  var : Var
  syms : List SymVar
  deriving DecidableEq

def Var.origin (v : Var) : Origin :=
  ⟨v, v.sinfo.elim [] StructInfo.syms⟩

def Binding.origin : Binding → Origin
  | .bind _ v _ => ⟨v, []⟩
  | .cast _ v _ sinfo => ⟨v, sinfo.syms⟩

def Block.origins (b : Block) : List Origin :=
  b.bindings.map Binding.origin

/-- The bindings that are in scope at the end of a body. -/
def Expr.origins : Expr → List Origin
  | .seq _ blocks _ => blocks.flatMap Block.origins
  | _ => []

/-- The identity of a regular variable. -/
def Origin.regular? (o : Origin) : Option Id :=
  if o.var.dataflow then none else some o.var.id

/-- A place where variables are named or defined. -/
inductive Naming where
  | use (v : Var)
  /-- The symbolic variables of a shape, a number, the struct info arguments of a call or the struct
  info that a function returns. -/
  | symbols (ss : List SymVar)
  | define (o : Origin)

def Naming.origin? : Naming → Option Origin
  | .define o => some o
  | _ => none

/-- What stands before a place in its function. -/
structure Surroundings where
  /-- The parameters of the functions around it and what comes before it in the sequences around it,
  the latest first. -/
  scope : List Origin
  /-- All that the traversal has passed, in branches and functions that have ended too. -/
  passed : List Origin
  deriving DecidableEq

namespace Surroundings

def outermost : Surroundings :=
  ⟨[], []⟩

/-- After these places, of which nothing stays in scope. -/
def after (p : Surroundings) (ns : List (Surroundings × Naming)) : Surroundings :=
  { p with passed := p.passed ++ ns.filterMap fun n => n.2.origin? }

/-- With these in scope, the last of them as the latest. -/
def enter (p : Surroundings) (os : List Origin) : Surroundings :=
  { p with scope := os.reverse ++ p.scope }

@[simp] theorem after_nil (p : Surroundings) : p.after [] = p := by
  simp [after]

theorem after_append (p : Surroundings) (ns ns' : List (Surroundings × Naming)) :
    p.after (ns ++ ns') = (p.after ns).after ns' := by
  simp [after, List.filterMap_append]

@[simp] theorem enter_nil (p : Surroundings) : p.enter [] = p :=
  rfl

theorem enter_append (p : Surroundings) (os os' : List Origin) :
    p.enter (os ++ os') = (p.enter os).enter os' := by
  simp [enter]

theorem enter_cons (p : Surroundings) (o : Origin) (os : List Origin) :
    p.enter (o :: os) = (p.enter [o]).enter os :=
  p.enter_append [o] os

end Surroundings

def Var.namingsAll (p : Surroundings) : List Var → List (Surroundings × Naming)
  | [] => []
  | v :: vs =>
    let ns := [(p, .define v.origin)]
    ns ++ Var.namingsAll ((p.after ns).enter [v.origin]) vs

mutual

/-- The places of an expression with the surroundings `p` that name or define variables, in the
order of the check. -/
def Expr.namings (p : Surroundings) : Expr → List (Surroundings × Naming)
  | .leaf .. => []
  | .var v => [(p, .use v)]
  | .shape _ values => [(p, .symbols (values.flatMap Dim.syms))]
  | .prim _ value _ => [(p, .symbols value.syms)]
  | .tuple _ fields => Expr.namingsAll p fields
  | .item _ whole _ => whole.namings p
  | .call _ callee args _ sinfoArgs =>
    let ns := callee.namings p
    let ns := ns ++ [(p.after ns, .symbols (sinfoArgs.flatMap StructInfo.syms))]
    ns ++ Expr.namingsAll (p.after ns) args
  | .ite _ cond onTrue onFalse =>
    let ns := cond.namings p
    let ns := ns ++ onTrue.namings (p.after ns)
    ns ++ onFalse.namings (p.after ns)
  | .seq _ blocks body =>
    let ns := Block.namingsAll p blocks
    ns ++ body.namings ((p.after ns).enter (blocks.flatMap Block.origins))
  | .function _ params body ret _ =>
    let ns := Var.namingsAll p params
    let ns := ns ++ body.namings ((p.after ns).enter (params.map Var.origin))
    ns ++ [((p.after ns).enter (params.map Var.origin ++ body.origins), .symbols ret.syms)]

def Expr.namingsAll (p : Surroundings) : List Expr → List (Surroundings × Naming)
  | [] => []
  | e :: es =>
    let ns := e.namings p
    ns ++ Expr.namingsAll (p.after ns) es

/-- A variable is not in scope in its own value. -/
def Binding.namings (p : Surroundings) : Binding → List (Surroundings × Naming)
  | .bind mark v value =>
    let ns := value.namings p
    ns ++ [(p.after ns, .define (Binding.bind mark v value).origin)]
  | .cast mark v value sinfo =>
    let ns := value.namings p
    ns ++ [(p.after ns, .define (Binding.cast mark v value sinfo).origin)]

def Binding.namingsAll (p : Surroundings) : List Binding → List (Surroundings × Naming)
  | [] => []
  | b :: bs =>
    let ns := b.namings p
    ns ++ Binding.namingsAll ((p.after ns).enter [b.origin]) bs

def Block.namings (p : Surroundings) : Block → List (Surroundings × Naming)
  | .mk _ _ bindings => Binding.namingsAll p bindings

def Block.namingsAll (p : Surroundings) : List Block → List (Surroundings × Naming)
  | [] => []
  | b :: bs =>
    let ns := b.namings p
    ns ++ Block.namingsAll ((p.after ns).enter b.origins) bs

end

def Function.namings (f : Function) : List (Surroundings × Naming) :=
  f.toExpr.namings .outermost

namespace Surroundings

/-- The definitions in scope of a regular variable. -/
def definitions (p : Surroundings) (id : Id) : List Origin :=
  p.scope.filter fun o => o.regular? = some id

/-- A regular variable that is used has one definition in scope, one that is defined has none. -/
def Determines (p : Surroundings) : Naming → Prop
  | .use v => v.dataflow = false → (p.definitions v.id).length = 1
  | .define o => o.var.dataflow = false → p.definitions o.var.id = []
  | .symbols _ => True

/-- Something in scope introduces the symbolic variables. -/
def Introduces (p : Surroundings) : Naming → Prop
  | .symbols ss => ∀ s ∈ ss, ∃ o ∈ p.scope, s ∈ o.syms
  | .use _ | .define _ => True

/-- Something that the traversal has passed introduces the symbolic variables. -/
def Precedes (p : Surroundings) : Naming → Prop
  | .symbols ss => ∀ s ∈ ss, ∃ o ∈ p.passed, s ∈ o.syms
  | .use _ | .define _ => True

/-- Where something that the traversal has passed introduces a symbolic variable, something in scope
does too. -/
def Retains (p : Surroundings) : Naming → Prop
  | .symbols ss => ∀ s ∈ ss, (∃ o ∈ p.passed, s ∈ o.syms) → ∃ o ∈ p.scope, s ∈ o.syms
  | .use _ | .define _ => True

instance (p : Surroundings) : (n : Naming) → Decidable (p.Introduces n)
  | .symbols ss => inferInstanceAs (Decidable (∀ s ∈ ss, ∃ o ∈ p.scope, s ∈ o.syms))
  | .use _ | .define _ => inferInstanceAs (Decidable True)

instance (p : Surroundings) : (n : Naming) → Decidable (p.Retains n)
  | .symbols ss => inferInstanceAs (Decidable
      (∀ s ∈ ss, (∃ o ∈ p.passed, s ∈ o.syms) → ∃ o ∈ p.scope, s ∈ o.syms))
  | .use _ | .define _ => inferInstanceAs (Decidable True)

end Surroundings

/-- Every use of a regular variable is in the scope of exactly one definition of its identity, and
no regular variable is defined again in the scope of a definition. -/
def Function.Determined (f : Function) : Prop :=
  ∀ n ∈ f.namings, n.1.Determines n.2

/-- Every symbolic variable that the function names is introduced by something in scope. -/
def Function.Introduced (f : Function) : Prop :=
  ∀ n ∈ f.namings, n.1.Introduces n.2

/-- Every symbolic variable that the function names is introduced somewhere before that. -/
def Function.Preceded (f : Function) : Prop :=
  ∀ n ∈ f.namings, n.1.Precedes n.2

/-- Symbolic variables that a branch or a nested function has introduced are named after its end
only where something in scope introduces them too. -/
def Function.Retained (f : Function) : Prop :=
  ∀ n ∈ f.namings, n.1.Retains n.2

instance (f : Function) : Decidable f.Introduced :=
  inferInstanceAs (Decidable (∀ n ∈ f.namings, n.1.Introduces n.2))

instance (f : Function) : Decidable f.Retained :=
  inferInstanceAs (Decidable (∀ n ∈ f.namings, n.1.Retains n.2))

namespace Surroundings

private theorem length_definitions (p : Surroundings) (id : Id) :
    (p.definitions id).length = (p.scope.filterMap Origin.regular?).count id := by
  rw [definitions, ← List.countP_eq_length_filter, List.count, List.countP_filterMap]
  refine List.countP_congr fun o _ => ?_
  cases o.regular? <;> simp

/-- What the check has in scope: the regular variables in scope, each once, and only symbolic
variables that it has passed. -/
structure Agrees (p : Surroundings) (sc : Scope) : Prop where
  vars : sc.vars = p.scope.filterMap Origin.regular?
  nodup : sc.vars.Nodup
  syms : ∀ s ∈ sc.syms, ∃ o ∈ p.passed, s ∈ o.syms

/-- The check got through the places, to this scope. -/
structure Passes (p : Surroundings) (ns : List (Surroundings × Naming)) (sc : Scope) : Prop where
  determines : ∀ n ∈ ns, n.1.Determines n.2
  precedes : ∀ n ∈ ns, n.1.Precedes n.2
  syms : ∀ s ∈ sc.syms, ∃ o ∈ (p.after ns).passed, s ∈ o.syms

theorem Agrees.of_eq {p : Surroundings} {sc sc' : Scope} (h : p.Agrees sc)
    (hv : sc'.vars = sc.vars) (hs : sc'.syms = sc.syms) : p.Agrees sc' := by
  exact ⟨hv.trans h.vars, hv ▸ h.nodup, hs ▸ h.syms⟩

theorem Agrees.passes {p : Surroundings} {sc : Scope} (h : p.Agrees sc) : p.Passes [] sc := by
  exact ⟨nofun, nofun, p.after_nil.symm ▸ h.syms⟩

theorem Passes.append {p : Surroundings} {ns ns' : List (Surroundings × Naming)} {sc sc' : Scope}
    (h : p.Passes ns sc) (h' : (p.after ns).Passes ns' sc') : p.Passes (ns ++ ns') sc' := by
  have hsyms := h'.syms
  rw [← p.after_append ns ns'] at hsyms
  have hdetermines := List.forall_mem_append.mpr ⟨h.determines, h'.determines⟩
  have hprecedes := List.forall_mem_append.mpr ⟨h.precedes, h'.precedes⟩
  exact ⟨hdetermines, hprecedes, hsyms⟩

/-- What is in scope does not matter for what the traversal passes. -/
theorem Passes.of_enter {p : Surroundings} {os : List Origin} {ns : List (Surroundings × Naming)}
    {sc : Scope} (h : (p.enter os).Passes ns sc) : p.Passes ns sc := by
  exact ⟨h.determines, h.precedes, h.syms⟩

/-- Symbolic variables that the check knows have been passed, whatever is in scope. -/
theorem Passes.symbols {p : Surroundings} {ns : List (Surroundings × Naming)} {sc : Scope}
    {ss : List SymVar} (h : p.Passes ns sc) (hs : ∀ s ∈ ss, s ∈ sc.syms) (os : List Origin) :
    p.Passes (ns ++ [((p.after ns).enter os, .symbols ss)]) sc := by
  refine ⟨List.forall_mem_append.mpr ⟨h.determines, List.forall_mem_singleton.mpr trivial⟩,
    List.forall_mem_append.mpr ⟨h.precedes, List.forall_mem_singleton.mpr ?_⟩, ?_⟩
  · exact fun s hm => h.syms s (hs s hm)
  · simpa [after, List.filterMap_append, Naming.origin?] using h.syms

theorem Passes.of_syms {p : Surroundings} {ns : List (Surroundings × Naming)} {sc sc' : Scope}
    (h : p.Passes ns sc) (hs : sc'.syms = sc.syms) : p.Passes ns sc' := by
  exact ⟨h.determines, h.precedes, hs ▸ h.syms⟩

/-- Where no variables are left behind the scope is the same again. -/
theorem Agrees.after {p : Surroundings} {ns : List (Surroundings × Naming)} {sc sc' : Scope}
    (h : p.Agrees sc) (hn : p.Passes ns sc') (hv : sc'.vars = sc.vars) :
    (p.after ns).Agrees sc' := by
  exact ⟨hv.trans h.vars, hv ▸ h.nodup, hn.syms⟩

private theorem Agrees.passes_use {p : Surroundings} {sc : Scope} {v : Var} (h : p.Agrees sc)
    (hv : sc.Sees v) : p.Passes [(p, .use v)] sc := by
  refine ⟨List.forall_mem_singleton.mpr fun hd => ?_, List.forall_mem_singleton.mpr trivial, ?_⟩
  · rw [Scope.Sees, if_neg (by simp [hd])] at hv
    rw [length_definitions, ← h.vars]
    exact List.count_eq_one_of_mem h.nodup hv
  · simpa [Surroundings.after, Naming.origin?] using h.syms

/-- A definition brings its variable into scope and its symbolic variables into view. -/
theorem Agrees.define {p : Surroundings} {sc sc' : Scope} {o : Origin} {syms : List SymVar}
    (h : p.Agrees sc) (hs : ∀ s ∈ syms, s ∈ o.syms ∨ s ∈ sc.syms)
    (hd : { sc with syms := syms }.defineVar o.var = .ok sc') :
    p.Passes [(p, .define o)] sc' ∧ ((p.after [(p, .define o)]).enter [o]).Agrees sc' := by
  have hsc := Scope.defineVar_ok hd
  have hsyms : ∀ s ∈ sc'.syms, ∃ o' ∈ (p.after [(p, .define o)]).passed, s ∈ o'.syms := by
    intro s hm
    have hs' : sc'.syms = syms := by
      rw [hsc]
      split <;> rfl
    obtain ho | hsc := hs s (hs' ▸ hm)
    · exact ⟨o, by simp [Surroundings.after, Naming.origin?], ho⟩
    · obtain ⟨o', ho', hm⟩ := h.syms s hsc
      exact ⟨o', List.mem_append_left _ ho', hm⟩
  have hdet : p.Determines (.define o) := by
    intro hf
    rw [← List.length_eq_zero_iff, length_definitions, ← h.vars, List.count_eq_zero]
    intro hm
    simp [Scope.defineVar, hf, hm] at hd
  refine ⟨⟨List.forall_mem_singleton.mpr hdet, List.forall_mem_singleton.mpr trivial, hsyms⟩, ?_⟩
  cases hf : o.var.dataflow with
  | true =>
    rw [hf, if_pos rfl] at hsc
    have ho : o.regular? = none := by simp [Origin.regular?, hf]
    subst hsc
    refine ⟨?_, h.nodup, hsyms⟩
    simpa [Surroundings.after, enter, ho] using h.vars
  | false =>
    rw [hf, if_neg Bool.false_ne_true] at hsc
    have ho : o.regular? = some o.var.id := by simp [Origin.regular?, hf]
    have hnew : o.var.id ∉ sc.vars := by
      intro hm
      simp [Scope.defineVar, hf, hm] at hd
    subst hsc
    refine ⟨?_, List.nodup_cons.mpr ⟨hnew, h.nodup⟩, hsyms⟩
    simpa [Surroundings.after, enter, ho] using h.vars

theorem Agrees.defineParams {p : Surroundings} {sc sc' : Scope} {vs : List Var} (h : p.Agrees sc)
    (hd : sc.defineParams vs = .ok sc') : p.Passes (Var.namingsAll p vs) sc' ∧
      ((p.after (Var.namingsAll p vs)).enter (vs.map Var.origin)).Agrees sc' := by
  induction vs generalizing p sc with
  | nil =>
    cases hd
    exact ⟨h.passes, by simpa [Var.namingsAll] using h⟩
  | cons v vs ih =>
    simp only [Scope.defineParams, Except.bind_ok] at hd
    obtain ⟨sc1, h1, h2⟩ := hd
    obtain ⟨hn, ha⟩ : p.Passes [(p, .define v.origin)] sc1 ∧
        ((p.after [(p, .define v.origin)]).enter [v.origin]).Agrees sc1 := by
      unfold Scope.defineParam at h1
      unfold Var.origin
      cases hv : v.sinfo with
      | none =>
        rw [hv] at h1
        exact h.define (fun s hs => .inr hs) h1
      | some i =>
        rw [hv] at h1
        exact h.define (fun s hs => List.mem_append.mp hs) h1
    obtain ⟨hns, has⟩ := ih ha h2
    refine ⟨hn.append hns.of_enter, ?_⟩
    rw [Var.namingsAll, after_append, List.map_cons, enter_cons]
    exact has

end Surroundings

section Check

variable {known : String → Bool}

open Surroundings (Agrees Passes)

mutual

theorem Expr.check_namings {asBody : Bool} {p : Surroundings} {sc sc' : Scope} {e : Expr}
    (h : e.check known asBody sc = .ok sc') (hp : p.Agrees sc) : p.Passes (e.namings p) sc' := by
  cases e with
  | leaf =>
    obtain ⟨rfl, -⟩ := check_leaf.mp h
    exact hp.passes
  | var v =>
    obtain ⟨rfl, hv⟩ := Scope.useVar_ok.mp h
    exact hp.passes_use hv
  | shape _ values =>
    obtain ⟨rfl, hs⟩ := Scope.useDims_ok.mp h
    simpa [Expr.namings] using hp.passes.symbols (List.forall_mem_flatMap.mpr hs) []
  | prim _ value _ =>
    obtain ⟨rfl, hs⟩ := Scope.useDim_ok.mp h
    simpa [Expr.namings] using hp.passes.symbols hs []
  | tuple _ fields => exact Expr.checkAll_namings (check_tuple.mp h).2 hp
  | item _ whole _ =>
    rw [check_item] at h
    exact Expr.check_namings (e := whole) h hp
  | call _ callee args _ sinfoArgs =>
    obtain ⟨-, sc1, h1, hs, h2⟩ := check_call.mp h
    have hi := (Expr.check_namings h1 hp).symbols (List.forall_mem_flatMap.mpr hs) []
    exact hi.append (Expr.checkAll_namings h2 (hp.after hi (Expr.check_vars h1)))
  | ite _ cond onTrue onFalse =>
    obtain ⟨-, sc1, after, sc2, h1, h2, h3, rfl⟩ := check_ite.mp h
    have hc := Expr.check_namings h1 hp
    have ht := hc.append (Expr.check_namings h2 (hp.after hc (Expr.check_vars h1)))
    have hv := Expr.check_vars h1
    have hr : Passes _ _ { after with vars := sc1.vars } := ht.of_syms rfl
    exact (ht.append (Expr.check_namings h3 (hp.after hr hv))).of_syms rfl
  | seq _ blocks body =>
    obtain ⟨-, sc1, h1, h2⟩ := check_seq.mp h
    obtain ⟨hb, hq⟩ := Block.checkAll_namings h1 hp
    exact hb.append (Expr.check_namings h2 hq).of_enter
  | function _ params body ret _ =>
    obtain ⟨sc1, sc2, h1, h2, hs, rfl⟩ := check_function.mp h
    obtain ⟨hv, hq⟩ := hp.defineParams h1
    have hb := hv.append (Expr.check_namings h2 hq).of_enter
    exact (hb.symbols hs (params.map Var.origin ++ body.origins)).of_syms rfl

theorem Expr.checkAll_namings {p : Surroundings} {sc sc' : Scope} {es : List Expr}
    (h : Expr.checkAll known sc es = .ok sc') (hp : p.Agrees sc) :
    p.Passes (Expr.namingsAll p es) sc' := by
  cases es with
  | nil =>
    cases h
    exact hp.passes
  | cons e es =>
    obtain ⟨sc1, h1, h2⟩ := checkAll_cons.mp h
    have he := Expr.check_namings h1 hp
    exact he.append (Expr.checkAll_namings h2 (hp.after he (Expr.check_vars h1)))

theorem Binding.check_namings {p : Surroundings} {sc sc' : Scope} {b : Binding}
    (h : b.check known sc = .ok sc') (hp : p.Agrees sc) :
    p.Passes (b.namings p) sc' ∧ ((p.after (b.namings p)).enter [b.origin]).Agrees sc' := by
  cases b with
  | bind mark v value =>
    obtain ⟨sc1, h1, h2⟩ := check_bind.mp h
    have hv := Expr.check_namings h1 hp
    have hq := hp.after hv (Expr.check_vars h1)
    obtain ⟨hd, ha⟩ := hq.define (o := (Binding.bind mark v value).origin) (fun s hs => .inr hs) h2
    refine ⟨hv.append hd, ?_⟩
    rw [Binding.namings, Surroundings.after_append]
    exact ha
  | cast mark v value sinfo =>
    obtain ⟨sc1, h1, h2⟩ := check_cast.mp h
    have hv := Expr.check_namings h1 hp
    have hq := hp.after hv (Expr.check_vars h1)
    obtain ⟨hd, ha⟩ := hq.define (o := (Binding.cast mark v value sinfo).origin)
      (fun s hs => List.mem_append.mp hs) h2
    refine ⟨hv.append hd, ?_⟩
    rw [Binding.namings, Surroundings.after_append]
    exact ha

theorem Binding.checkAll_namings {p : Surroundings} {sc sc' : Scope} {bs : List Binding}
    (h : Binding.checkAll known sc bs = .ok sc') (hp : p.Agrees sc) :
    p.Passes (Binding.namingsAll p bs) sc' ∧
      ((p.after (Binding.namingsAll p bs)).enter (bs.map Binding.origin)).Agrees sc' := by
  cases bs with
  | nil =>
    cases h
    exact ⟨hp.passes, by simpa [Binding.namingsAll] using hp⟩
  | cons b bs =>
    obtain ⟨sc1, h1, h2⟩ := binding_checkAll_cons.mp h
    obtain ⟨hb, hq⟩ := Binding.check_namings h1 hp
    obtain ⟨hbs, ha⟩ := Binding.checkAll_namings h2 hq
    refine ⟨hb.append hbs.of_enter, ?_⟩
    rw [Binding.namingsAll, Surroundings.after_append, List.map_cons, Surroundings.enter_cons]
    exact ha

theorem Block.check_namings {p : Surroundings} {sc sc' : Scope} {b : Block} :
    b.check known sc = .ok sc' → p.Agrees sc → p.Passes (b.namings p) sc' ∧
      ((p.after (b.namings p)).enter b.origins).Agrees sc' := by
  match b with
  | .mk _ .plain bindings =>
    intro h hp
    exact Binding.checkAll_namings h hp
  | .mk _ .dataflow bindings =>
    intro h hp
    obtain ⟨sc1, h1, rfl⟩ := check_dataflow.mp h
    obtain ⟨hb, ha⟩ := Binding.checkAll_namings h1 (hp.of_eq rfl rfl)
    exact ⟨hb.of_syms rfl, ha.of_eq rfl rfl⟩

theorem Block.checkAll_namings {p : Surroundings} {sc sc' : Scope} {bs : List Block}
    (h : Block.checkAll known sc bs = .ok sc') (hp : p.Agrees sc) :
    p.Passes (Block.namingsAll p bs) sc' ∧
      ((p.after (Block.namingsAll p bs)).enter (bs.flatMap Block.origins)).Agrees sc' := by
  cases bs with
  | nil =>
    cases h
    exact ⟨hp.passes, by simpa [Block.namingsAll] using hp⟩
  | cons b bs =>
    obtain ⟨sc1, h1, h2⟩ := block_checkAll_cons.mp h
    obtain ⟨hb, hq⟩ := Block.check_namings h1 hp
    obtain ⟨hbs, ha⟩ := Block.checkAll_namings h2 hq
    refine ⟨hb.append hbs.of_enter, ?_⟩
    rw [Block.namingsAll, Surroundings.after_append, List.flatMap_cons, Surroundings.enter_append]
    exact ha

end

private theorem Function.passes_namings {f : Function} {sc : Scope}
    (h : f.toExpr.check known false .empty = .ok sc) :
    Surroundings.outermost.Passes f.namings sc := by
  exact Expr.check_namings h ⟨rfl, List.nodup_nil, nofun⟩

end Check

/-- Something before a place introduces what is named there: then so does something in scope, unless
it has ended. -/
private theorem Function.introduced_iff {f : Function} (h : f.Preceded) :
    f.Introduced ↔ f.Retained := by
  refine forall₂_congr fun n hn => ?_
  have hp := h n hn
  obtain ⟨p, n⟩ := n
  cases n with
  | symbols ss => exact forall₂_congr fun s hs => ⟨fun hi _ => hi, fun hr => hr (hp s hs)⟩
  | use | define => rfl

/-- In a function of a well-formed module, every use of a regular variable is in the scope of
exactly one definition of its identity: a parameter of a function around it, or an earlier binding
of a sequence around it. None is defined again in its scope. -/
theorem wellFormed_determined {m : Module} (h : m.wellFormed = .ok ()) {g : GlobalVar}
    {f : Function} (hf : (g, f) ∈ m.toList) : f.Determined := by
  obtain ⟨sc, hsc⟩ := Module.wellFormed_ok.mp h (g, f) hf
  exact (Function.passes_namings hsc).determines

namespace Lexical

open Confined (node var x y d l g r bind function plain dataflow main module)

def n : SymVar :=
  ⟨0, "n", .int64⟩

def shape : StructInfo :=
  .shapeOf [.sym n]

def use (tag : Nat) : Expr :=
  .shape (node tag) [.sym n]

/-- A parameter whose struct info introduces `n`. -/
def p : Var :=
  ⟨⟨⟨6, none⟩, some shape⟩, ⟨6, "p"⟩, false⟩

/-- A sequence that introduces `n` by a match cast. -/
def cast : Expr :=
  .seq (node 30) [plain [.cast ⟨31, none⟩ y (.var x) shape]] (.var y)

/-- The branches and the nested function bind `y` each, where `n` is in scope from the parameter. -/
def branches : Function :=
  function p [plain [bind 20 x (.var p)],
    plain [bind 21 g (.ite (node 22) (.var x) cast cast)],
    dataflow [bind 23 d (use 24), bind 25 r (function y [] y).toExpr]] r

/-- `n` is introduced by a parameter of a function that has ended. -/
def parameter : Function :=
  function x [plain [bind 20 g (function p [] p).toExpr, bind 21 r (use 22)]] r

/-- One branch introduces `n` and the other names it. -/
def branch : Function :=
  function x [plain [bind 20 r (.ite (node 21) (.var x) cast (use 22))]] r

/-- A function introduces `n` by a match cast, and it is named after its end. -/
def body : Function :=
  function x [plain [bind 20 g (Function.mk (node 21) [] cast shape .empty).toExpr,
    bind 22 r (use 23)]] r

end Lexical

open Lexical Confined in
theorem wellFormed_determined_branches :
    (module branches).wellFormed = .ok () ∧ (main, branches) ∈ (module branches).toList ∧
      branches.Determined := by
  have hw : (module branches).wellFormed = .ok () :=
    Module.wellFormed_of_isOk (by decide +kernel)
  exact ⟨hw, mem_module _, wellFormed_determined hw (mem_module _)⟩

/-- In a function of a well-formed module, every symbolic variable that is named is introduced
before that, by the struct info of a parameter or by a match cast. All of them are introduced in
scope exactly where no symbolic variable that a branch or a nested function introduces is named
after its end, unless something in scope introduces it too: the check does not see to that. -/
theorem wellFormed_introduced_iff {m : Module} (h : m.wellFormed = .ok ()) {g : GlobalVar}
    {f : Function} (hf : (g, f) ∈ m.toList) :
    f.Preceded ∧ (f.Introduced ↔ f.Retained) := by
  obtain ⟨sc, hsc⟩ := Module.wellFormed_ok.mp h (g, f) hf
  have hp : f.Preceded := (Function.passes_namings hsc).precedes
  exact ⟨hp, Function.introduced_iff hp⟩

open Lexical Confined in
theorem wellFormed_introduced_iff_branches :
    (module branches).wellFormed = .ok () ∧ (main, branches) ∈ (module branches).toList ∧
      branches.Introduced := by
  have hw : (module branches).wellFormed = .ok () :=
    Module.wellFormed_of_isOk (by decide +kernel)
  have hr : branches.Retained := by decide +kernel
  exact ⟨hw, mem_module _, (wellFormed_introduced_iff hw (mem_module _)).2.mpr hr⟩

open Lexical Confined in
/-- The check accepts a symbolic variable after the function whose parameter introduces it, in the
other branch than the match cast that does, and after the function that the match cast is in. -/
theorem wellFormed_not_introduced :
    ((module parameter).wellFormed = .ok () ∧ ¬ parameter.Introduced) ∧
    ((module branch).wellFormed = .ok () ∧ ¬ branch.Introduced) ∧
    ((module body).wellFormed = .ok () ∧ ¬ body.Introduced) := by
  refine ⟨⟨Module.wellFormed_of_isOk ?_, ?_⟩, ⟨Module.wellFormed_of_isOk ?_, ?_⟩,
    Module.wellFormed_of_isOk ?_, ?_⟩
  all_goals decide +kernel

end DataflowIR
