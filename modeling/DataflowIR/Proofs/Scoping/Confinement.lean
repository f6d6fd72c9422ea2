import DataflowIR.Proofs.Scoping.Checks

namespace DataflowIR

/-- A part of a function among its dataflow blocks. -/
structure Place where
  /-- A dataflow block is around it, that of a function around included. -/
  inside : Bool
  /-- Since the innermost of these blocks began a dataflow block has ended. -/
  ended : Bool
  /-- What these blocks have bound so far, of dataflow variables. -/
  bound : List Id
  deriving DecidableEq

/-- What the rules for dataflow blocks are about. -/
inductive Occurrence where
  | use (v : Var)
  | parameter (v : Var)
  /-- A binding in a block of the given kind. -/
  | binding (kind : BlockKind) (v : Var)
  | conditional
  /-- The end of a dataflow block. -/
  | ending

def Occurrence.isEnding : Occurrence → Bool
  | .ending => true
  | _ => false

/-- The identity of a dataflow variable that is a parameter. -/
def Occurrence.loose? : Occurrence → Option Id
  | .parameter v => if v.dataflow then some v.id else none
  | _ => none

namespace Place

def outermost : Place :=
  ⟨false, false, []⟩

/-- After these occurrences. -/
def after (p : Place) (os : List (Place × Occurrence)) : Place :=
  { p with ended := p.ended || os.any (·.2.isEnding) }

/-- At the beginning of a dataflow block. -/
def enter (p : Place) : Place :=
  { p with inside := true, ended := false }

/-- After a binding in a block of the given kind. -/
def bind (p : Place) (kind : BlockKind) (v : Var) : Place :=
  if kind = .dataflow ∧ v.dataflow then { p with bound := v.id :: p.bound } else p

@[simp] theorem after_nil (p : Place) : p.after [] = p := by
  simp [after]

theorem after_append (p : Place) (os os' : List (Place × Occurrence)) :
    p.after (os ++ os') = (p.after os).after os' := by
  simp [after, Bool.or_assoc]

theorem after_singleton (p q : Place) {o : Occurrence} (h : o.isEnding = false) :
    p.after [(q, o)] = p := by
  simp [after, h]

end Place

mutual

/-- The occurrences in an expression that stands at the place, in the order of the check. -/
def Expr.occurrences (p : Place) : Expr → List (Place × Occurrence)
  | .leaf .. | .shape .. | .prim .. => []
  | .var v => [(p, .use v)]
  | .tuple _ fields => Expr.occurrencesAll p fields
  | .item _ whole _ => whole.occurrences p
  | .call _ callee args _ _ =>
    let os := callee.occurrences p
    os ++ Expr.occurrencesAll (p.after os) args
  | .ite _ cond onTrue onFalse =>
    let os := (p, .conditional) :: cond.occurrences p
    let os := os ++ onTrue.occurrences (p.after os)
    os ++ onFalse.occurrences (p.after os)
  | .seq _ blocks body =>
    let os := Block.occurrencesAll p blocks
    os ++ body.occurrences (p.after os)
  | .function _ params body _ _ =>
    params.map (fun v => (p, .parameter v)) ++ body.occurrences p

def Expr.occurrencesAll (p : Place) : List Expr → List (Place × Occurrence)
  | [] => []
  | e :: es =>
    let os := e.occurrences p
    os ++ Expr.occurrencesAll (p.after os) es

def Binding.occurrences (kind : BlockKind) (p : Place) : Binding → List (Place × Occurrence)
  | .bind _ v value | .cast _ v value _ =>
    let os := value.occurrences p
    os ++ [(p.after os, .binding kind v)]

def Binding.occurrencesAll (kind : BlockKind) (p : Place) :
    List Binding → List (Place × Occurrence)
  | [] => []
  | b :: bs =>
    let os := b.occurrences kind p
    os ++ Binding.occurrencesAll kind ((p.after os).bind kind b.var) bs

def Block.occurrences (p : Place) : Block → List (Place × Occurrence)
  | .mk _ .plain bindings => Binding.occurrencesAll .plain p bindings
  | .mk _ .dataflow bindings =>
    Binding.occurrencesAll .dataflow p.enter bindings ++ [(p, .ending)]

def Block.occurrencesAll (p : Place) : List Block → List (Place × Occurrence)
  | [] => []
  | b :: bs =>
    let os := b.occurrences p
    os ++ Block.occurrencesAll (p.after os) bs

end

def Function.occurrences (f : Function) : List (Place × Occurrence) :=
  f.toExpr.occurrences .outermost

namespace Place

/-- Dataflow variables are bound by dataflow blocks, and used in the same block after that; no
dataflow block has a conditional in it. -/
def Confines (p : Place) : Occurrence → Prop
  | .use v => v.dataflow → v.id ∈ p.bound
  | .binding kind v => v.dataflow → kind = .dataflow
  | .conditional => p.inside = false
  | .parameter _ | .ending => True

/-- The rules where the check does not see to them: for plain blocks in functions inside a dataflow
block, for the identities `loose`, and once a dataflow block inside has ended. -/
def Guards (loose : List Id) (p : Place) : Occurrence → Prop
  | .use v => v.dataflow → v.id ∈ loose → v.id ∈ p.bound
  | .binding kind v => v.dataflow → p.inside → kind = .dataflow
  | .conditional => p.ended → p.inside = false
  | .parameter _ | .ending => True

instance (p : Place) : (o : Occurrence) → Decidable (p.Confines o)
  | .use v => inferInstanceAs (Decidable (v.dataflow → v.id ∈ p.bound))
  | .binding kind v => inferInstanceAs (Decidable (v.dataflow → kind = .dataflow))
  | .conditional => inferInstanceAs (Decidable (p.inside = false))
  | .parameter _ | .ending => inferInstanceAs (Decidable True)

instance (loose : List Id) (p : Place) : (o : Occurrence) → Decidable (p.Guards loose o)
  | .use v => inferInstanceAs (Decidable (v.dataflow → v.id ∈ loose → v.id ∈ p.bound))
  | .binding kind v => inferInstanceAs (Decidable (v.dataflow → p.inside → kind = .dataflow))
  | .conditional => inferInstanceAs (Decidable (p.ended → p.inside = false))
  | .parameter _ | .ending => inferInstanceAs (Decidable True)

end Place

/-- Every dataflow variable of the function stays in its dataflow block. -/
def Function.Confined (f : Function) : Prop :=
  ∀ o ∈ f.occurrences, o.1.Confines o.2

instance (f : Function) : Decidable f.Confined :=
  inferInstanceAs (Decidable (∀ o ∈ f.occurrences, o.1.Confines o.2))

/-- The identities of dataflow variables that are parameters in the function. -/
def Function.loose (f : Function) : List Id :=
  f.occurrences.filterMap fun o => o.2.loose?

/-- The function keeps the rules that the check does not see to. -/
def Function.Guarded (f : Function) : Prop :=
  ∀ o ∈ f.occurrences, o.1.Guards f.loose o.2

instance (f : Function) : Decidable f.Guarded :=
  inferInstanceAs (Decidable (∀ o ∈ f.occurrences, o.1.Guards f.loose o.2))

/-- The dataflow variable is bound where a dataflow block does not bind it. -/
def Occurrence.Strays (stray : Id → Prop) : Occurrence → Prop
  | .parameter v | .binding .plain v => v.dataflow → stray v.id
  | _ => True

namespace Place

variable {stray : Id → Prop}

/-- What the check takes the place for. -/
structure Agrees (stray : Id → Prop) (p : Place) (sc : Scope) : Prop where
  inDataflow : sc.inDataflow = (p.inside && !p.ended)
  dataflowVars : ∀ id ∈ sc.dataflowVars, id ∈ p.bound ∨ stray id

/-- What the check sees to. -/
def Allows (stray : Id → Prop) (p : Place) : Occurrence → Prop
  | .use v => v.dataflow → v.id ∈ p.bound ∨ stray v.id
  | .binding _ v => v.dataflow → p.inside
  | .conditional => p.inside → p.ended
  | .parameter _ | .ending => True

/-- The check got through the occurrences, from a scope that agrees with the place. -/
structure Passes (stray : Id → Prop) (p : Place) (os : List (Place × Occurrence)) (sc : Scope) :
    Prop where
  agrees : (p.after os).Agrees stray sc
  allows : ∀ o ∈ os, o.1.Allows stray o.2

theorem Passes.nil {p : Place} {sc : Scope} (h : p.Agrees stray sc) : p.Passes stray [] sc := by
  exact ⟨p.after_nil.symm ▸ h, nofun⟩

theorem Passes.append {p : Place} {os os' : List (Place × Occurrence)} {sc sc' : Scope}
    (h : p.Passes stray os sc) (h' : (p.after os).Passes stray os' sc') :
    p.Passes stray (os ++ os') sc' := by
  have hagrees := h'.agrees
  rw [← p.after_append os os'] at hagrees
  exact ⟨hagrees, List.forall_mem_append.mpr ⟨h.allows, h'.allows⟩⟩

theorem Passes.cons {p q : Place} {o : Occurrence} {os : List (Place × Occurrence)} {sc : Scope}
    (h : p.Passes stray os sc) (ho : o.isEnding = false) (ha : q.Allows stray o) :
    p.Passes stray ((q, o) :: os) sc := by
  refine ⟨?_, List.forall_mem_cons.mpr ⟨ha, h.allows⟩⟩
  have hp := p.after_append [(q, o)] os
  rw [List.singleton_append, p.after_singleton q ho] at hp
  exact hp ▸ h.agrees

private theorem Passes.parameters {p : Place} {os : List (Place × Occurrence)} {sc : Scope}
    (h : p.Passes stray os sc) (vs : List Var) :
    p.Passes stray (vs.map (fun v => (p, .parameter v)) ++ os) sc := by
  induction vs with
  | nil => exact h
  | cons v vs ih => exact ih.cons rfl trivial

/-- Regular variables and symbolic ones do not matter. -/
theorem Agrees.of_eq {p : Place} {sc sc' : Scope} (h : p.Agrees stray sc)
    (hd : sc'.inDataflow = sc.inDataflow) (hv : sc'.dataflowVars = sc.dataflowVars) :
    p.Agrees stray sc' := by
  exact ⟨hd.trans h.inDataflow, hv ▸ h.dataflowVars⟩

theorem Agrees.inside {p : Place} {sc : Scope} (h : p.Agrees stray sc) (hd : sc.inDataflow) :
    p.inside := by
  have hp := h.inDataflow
  rw [hd, eq_comm, Bool.and_eq_true] at hp
  exact hp.1

/-- A dataflow variable is bound by the block, or strays. -/
theorem Agrees.define {p : Place} {sc sc' : Scope} {v : Var} {kind : BlockKind}
    (h : p.Agrees stray sc) (hd : sc.defineVar v = .ok sc')
    (hs : (Occurrence.binding kind v).Strays stray) :
    (p.bind kind v).Agrees stray sc' ∧ p.Allows stray (.binding kind v) := by
  cases hv : v.dataflow with
  | false =>
    rw [Scope.defineVar_ok hd, hv, bind, if_neg (by simp [hv])]
    exact ⟨h.of_eq rfl rfl, fun ht => by simp [hv] at ht⟩
  | true =>
    have hin : sc.inDataflow := by
      cases hi : sc.inDataflow with
      | true => rfl
      | false => simp [Scope.defineVar, hv, hi] at hd
    rw [Scope.defineVar_ok hd, hv]
    refine ⟨?_, fun _ => h.inside hin⟩
    cases kind with
    | plain =>
      rw [bind, if_neg (by simp)]
      refine ⟨h.inDataflow, ?_⟩
      intro id hid
      obtain rfl | hid := List.mem_cons.mp hid
      · exact .inr (hs hv)
      · exact h.dataflowVars id hid
    | dataflow =>
      rw [bind, if_pos ⟨rfl, hv⟩]
      refine ⟨h.inDataflow, ?_⟩
      intro id hid
      obtain rfl | hid := List.mem_cons.mp hid
      · exact .inl List.mem_cons_self
      · exact (h.dataflowVars id hid).imp_left (List.mem_cons_of_mem _)

theorem Agrees.defineParams {p : Place} {sc sc' : Scope} {vs : List Var} (h : p.Agrees stray sc)
    (hd : sc.defineParams vs = .ok sc') (hs : ∀ v ∈ vs, v.dataflow → stray v.id) :
    p.Agrees stray sc' := by
  induction vs generalizing sc with
  | nil =>
    cases hd
    exact h
  | cons v vs ih =>
    simp only [Scope.defineParams, Except.bind_ok] at hd
    obtain ⟨sc1, h1, h2⟩ := hd
    obtain ⟨hv, hvs⟩ := List.forall_mem_cons.mp hs
    obtain ⟨syms, heq⟩ : ∃ syms, sc.defineParam v = { sc with syms := syms }.defineVar v := by
      unfold Scope.defineParam
      cases v.sinfo with
      | none => exact ⟨sc.syms, rfl⟩
      | some i => exact ⟨i.syms ++ sc.syms, rfl⟩
    have hq : p.Agrees stray { sc with syms := syms } := h.of_eq rfl rfl
    have h1 := (hq.define (heq ▸ h1) (show (Occurrence.binding .plain v).Strays stray from hv)).1
    rw [bind, if_neg (by simp)] at h1
    exact ih h1 h2 hvs

private theorem Agrees.allows_use {p : Place} {sc : Scope} {v : Var} (h : p.Agrees stray sc)
    (hv : sc.Sees v) : p.Allows stray (.use v) := by
  intro hd
  rw [Scope.Sees, if_pos hd] at hv
  exact h.dataflowVars _ hv.2

/-- A conditional stands outside dataflow blocks, or where the check takes it to. -/
private theorem Agrees.allows_conditional {p : Place} {sc : Scope} (h : p.Agrees stray sc)
    (hd : sc.inDataflow = false) : p.Allows stray .conditional := by
  intro hin
  have hp := h.inDataflow
  rw [hd, hin, Bool.true_and, eq_comm, Bool.not_eq_false'] at hp
  exact hp

theorem Agrees.enter {p : Place} {sc : Scope} (h : p.Agrees stray sc) :
    p.enter.Agrees stray { sc with inDataflow := true } := by
  exact ⟨rfl, h.dataflowVars⟩

/-- Nothing but the end of the block is left of it. -/
private theorem agrees_ending (p q : Place) (os : List (Place × Occurrence)) (sc : Scope) :
    (p.after (os ++ [(q, .ending)])).Agrees stray
      { sc with inDataflow := false, dataflowVars := [] } := by
  refine ⟨?_, nofun⟩
  simp [after, Occurrence.isEnding]

end Place

section Check

variable {known : String → Bool} {stray : Id → Prop}

open Place (Agrees Passes)

mutual

theorem Expr.check_passes {asBody : Bool} {p : Place} {sc sc' : Scope} {e : Expr}
    (h : e.check known asBody sc = .ok sc') (hp : p.Agrees stray sc)
    (hs : ∀ o ∈ e.occurrences p, o.2.Strays stray) : p.Passes stray (e.occurrences p) sc' := by
  cases e with
  | leaf =>
    obtain ⟨rfl, -⟩ := check_leaf.mp h
    exact .nil hp
  | var v =>
    obtain ⟨rfl, hv⟩ := Scope.useVar_ok.mp h
    exact (Passes.nil hp).cons rfl (hp.allows_use hv)
  | shape =>
    obtain ⟨rfl, -⟩ := Scope.useDims_ok.mp h
    exact .nil hp
  | prim =>
    obtain ⟨rfl, -⟩ := Scope.useDim_ok.mp h
    exact .nil hp
  | tuple _ fields => exact Expr.checkAll_passes (check_tuple.mp h).2 hp hs
  | item _ whole _ =>
    rw [check_item] at h
    exact Expr.check_passes (e := whole) h hp hs
  | call _ callee args _ _ =>
    obtain ⟨-, sc1, h1, -, h2⟩ := check_call.mp h
    obtain ⟨hs1, hs2⟩ := List.forall_mem_append.mp hs
    have hc := Expr.check_passes h1 hp hs1
    exact hc.append (Expr.checkAll_passes h2 hc.agrees hs2)
  | ite _ cond onTrue onFalse =>
    obtain ⟨hd, sc1, after, sc2, h1, h2, h3, rfl⟩ := check_ite.mp h
    obtain ⟨hs12, hs3⟩ := List.forall_mem_append.mp hs
    obtain ⟨hs1, hs2⟩ := List.forall_mem_append.mp hs12
    have hc := (Expr.check_passes h1 hp (List.forall_mem_cons.mp hs1).2).cons rfl
      (hp.allows_conditional hd)
    have ht := hc.append (Expr.check_passes h2 hc.agrees hs2)
    have hf := ht.append (Expr.check_passes h3 (ht.agrees.of_eq rfl rfl) hs3)
    exact ⟨hf.agrees.of_eq rfl rfl, hf.allows⟩
  | seq _ blocks body =>
    obtain ⟨-, sc1, h1, h2⟩ := check_seq.mp h
    obtain ⟨hs1, hs2⟩ := List.forall_mem_append.mp hs
    have hb := Block.checkAll_passes h1 hp hs1
    exact hb.append (Expr.check_passes h2 hb.agrees hs2)
  | function _ params body ret _ =>
    obtain ⟨sc1, sc2, h1, h2, -, rfl⟩ := check_function.mp h
    obtain ⟨hs1, hs2⟩ := List.forall_mem_append.mp hs
    have hq : p.Agrees stray sc1 := hp.defineParams h1 (List.forall_mem_map.mp hs1)
    have hb := Expr.check_passes h2 hq hs2
    have hf := hb.parameters params
    exact ⟨hf.agrees.of_eq rfl rfl, hf.allows⟩

theorem Expr.checkAll_passes {p : Place} {sc sc' : Scope} {es : List Expr}
    (h : Expr.checkAll known sc es = .ok sc') (hp : p.Agrees stray sc)
    (hs : ∀ o ∈ Expr.occurrencesAll p es, o.2.Strays stray) :
    p.Passes stray (Expr.occurrencesAll p es) sc' := by
  cases es with
  | nil =>
    cases h
    exact .nil hp
  | cons e es =>
    obtain ⟨sc1, h1, h2⟩ := checkAll_cons.mp h
    obtain ⟨hs1, hs2⟩ := List.forall_mem_append.mp hs
    have he := Expr.check_passes h1 hp hs1
    exact he.append (Expr.checkAll_passes h2 he.agrees hs2)

/-- What is bound in a dataflow block is of no account after it. -/
theorem Binding.checkAll_passes {kind : BlockKind} {p : Place} {sc sc' : Scope}
    {bs : List Binding} (h : Binding.checkAll known sc bs = .ok sc') (hp : p.Agrees stray sc)
    (hs : ∀ o ∈ Binding.occurrencesAll kind p bs, o.2.Strays stray) :
    (∀ o ∈ Binding.occurrencesAll kind p bs, o.1.Allows stray o.2) ∧
      (kind = .plain → (p.after (Binding.occurrencesAll kind p bs)).Agrees stray sc') := by
  cases bs with
  | nil =>
    cases h
    exact ⟨nofun, fun _ => p.after_nil.symm ▸ hp⟩
  | cons b bs =>
    obtain ⟨sc1, h1, h2⟩ := binding_checkAll_cons.mp h
    obtain ⟨hs1, hs2⟩ := List.forall_mem_append.mp hs
    obtain ⟨ha, hb⟩ := Binding.check_passes h1 hp hs1
    obtain ⟨has, hbs⟩ := Binding.checkAll_passes h2 hb hs2
    refine ⟨List.forall_mem_append.mpr ⟨ha, has⟩, ?_⟩
    rintro rfl
    have hq : ∀ q : Place, q.bind .plain b.var = q := fun q => if_neg (by simp)
    rw [Binding.occurrencesAll, Place.after_append, hq]
    rw [hq] at hbs
    exact hbs rfl

theorem Binding.check_passes {kind : BlockKind} {p : Place} {sc sc' : Scope} {b : Binding}
    (h : b.check known sc = .ok sc') (hp : p.Agrees stray sc)
    (hs : ∀ o ∈ b.occurrences kind p, o.2.Strays stray) :
    (∀ o ∈ b.occurrences kind p, o.1.Allows stray o.2) ∧
      ((p.after (b.occurrences kind p)).bind kind b.var).Agrees stray sc' := by
  cases b with
  | bind _ v value =>
    obtain ⟨sc1, h1, h2⟩ := check_bind.mp h
    obtain ⟨hs1, hs2⟩ := List.forall_mem_append.mp hs
    have hv := Expr.check_passes h1 hp hs1
    obtain ⟨hq, ha⟩ := hv.agrees.define h2 (hs2 _ (List.mem_singleton_self _))
    rw [Binding.occurrences, Place.after_append, Place.after_singleton _ _ rfl]
    exact ⟨List.forall_mem_append.mpr ⟨hv.allows, List.forall_mem_singleton.mpr ha⟩, hq⟩
  | cast _ v value sinfo =>
    obtain ⟨sc1, h1, h2⟩ := check_cast.mp h
    obtain ⟨hs1, hs2⟩ := List.forall_mem_append.mp hs
    have hv := Expr.check_passes h1 hp hs1
    have hi : Agrees stray _ (sc1.defineSyms sinfo) := hv.agrees.of_eq rfl rfl
    obtain ⟨hq, ha⟩ := hi.define h2 (hs2 _ (List.mem_singleton_self _))
    rw [Binding.occurrences, Place.after_append, Place.after_singleton _ _ rfl]
    exact ⟨List.forall_mem_append.mpr ⟨hv.allows, List.forall_mem_singleton.mpr ha⟩, hq⟩

theorem Block.check_passes {p : Place} {sc sc' : Scope} {b : Block} :
    b.check known sc = .ok sc' → p.Agrees stray sc → (∀ o ∈ b.occurrences p, o.2.Strays stray) →
      p.Passes stray (b.occurrences p) sc' := by
  match b with
  | .mk _ .plain bindings =>
    intro h hp hs
    have hb := Binding.checkAll_passes h hp hs
    exact ⟨hb.2 rfl, hb.1⟩
  | .mk _ .dataflow bindings =>
    intro h hp hs
    obtain ⟨sc1, h1, rfl⟩ := check_dataflow.mp h
    obtain ⟨hs1, -⟩ := List.forall_mem_append.mp hs
    have hb := (Binding.checkAll_passes h1 hp.enter hs1).1
    exact ⟨Place.agrees_ending .., List.forall_mem_append.mpr
      ⟨hb, List.forall_mem_singleton.mpr trivial⟩⟩

theorem Block.checkAll_passes {p : Place} {sc sc' : Scope} {bs : List Block}
    (h : Block.checkAll known sc bs = .ok sc') (hp : p.Agrees stray sc)
    (hs : ∀ o ∈ Block.occurrencesAll p bs, o.2.Strays stray) :
    p.Passes stray (Block.occurrencesAll p bs) sc' := by
  cases bs with
  | nil =>
    cases h
    exact .nil hp
  | cons b bs =>
    obtain ⟨sc1, h1, h2⟩ := block_checkAll_cons.mp h
    obtain ⟨hs1, hs2⟩ := List.forall_mem_append.mp hs
    have hb := Block.check_passes h1 hp hs1
    exact hb.append (Block.checkAll_passes h2 hb.agrees hs2)

end

/-- A function that passes the check keeps the rules exactly where it keeps those that the check
does not see to. -/
private theorem Function.confined_iff {f : Function} {sc : Scope}
    (h : f.toExpr.check known false .empty = .ok sc) : f.Confined ↔ f.Guarded := by
  have hp : ∀ stray : Id → Prop, Place.outermost.Agrees stray .empty := fun _ => ⟨rfl, nofun⟩
  constructor
  · intro hc o ho
    obtain ⟨p, o⟩ := o
    have hc := hc _ ho
    cases o with
    | use v => exact fun hv _ => hc hv
    | binding kind v => exact fun hv _ => hc hv
    | conditional => exact fun _ => hc
    | parameter | ending => trivial
  · intro hg
    have hs : ∀ o ∈ f.occurrences, o.2.Strays fun id => id ∈ f.loose ∨
        ∃ p v, (p, .binding .plain v) ∈ f.occurrences ∧ v.dataflow ∧ v.id = id := by
      rintro ⟨p, o⟩ ho
      cases o with
      | parameter v =>
        intro hv
        exact .inl (List.mem_filterMap.mpr ⟨_, ho, by simp [Occurrence.loose?, hv]⟩)
      | binding kind v =>
        cases kind with
        | plain => exact fun hv => .inr ⟨p, v, ho, hv, rfl⟩
        | dataflow => trivial
      | use | conditional | ending => trivial
    have ha := (Expr.check_passes h (hp _) hs).allows
    have hdirect : ∀ p kind v, (p, .binding kind v) ∈ f.occurrences → v.dataflow →
        kind = .dataflow :=
      fun _ _ _ ho hv => hg _ ho hv (ha _ ho hv)
    rintro ⟨p, o⟩ ho
    have hg := hg _ ho
    have ha := ha _ ho
    cases o with
    | use v =>
      intro hv
      obtain hb | hl | ⟨q, w, hw, hd, -⟩ := ha hv
      · exact hb
      · exact hg hv hl
      · cases hdirect q _ w hw hd
    | binding kind v => exact hdirect p kind v ho
    | conditional =>
      cases hin : p.inside with
      | false => exact hin
      | true => exact hg (ha hin)
    | parameter | ending => trivial

end Check

/-- In a function of a well-formed module, dataflow variables are bound by dataflow blocks only and
used in their block only, and no dataflow block has a conditional in it, exactly where three things
that the check does not see to are so: in functions inside a dataflow block no plain block binds a
dataflow variable, a dataflow variable with the identity of a parameter is used only where its block
has bound it, and no conditional follows the end of a dataflow block inside a dataflow block. -/
theorem wellFormed_confined_iff {m : Module} (h : m.wellFormed = .ok ()) {g : GlobalVar}
    {f : Function} (hf : (g, f) ∈ m.toList) : f.Confined ↔ f.Guarded := by
  obtain ⟨sc, hsc⟩ := Module.wellFormed_ok.mp h (g, f) hf
  exact Function.confined_iff hsc

theorem Module.wellFormed_of_isOk {m : Module} (h : m.wellFormed.isOk) : m.wellFormed = .ok () := by
  cases hw : m.wellFormed with
  | error =>
    rw [hw] at h
    cases h
  | ok => rfl

namespace Confined

def node (tag : Nat) : Node :=
  ⟨⟨tag, none⟩, some .object⟩

def var (tag : Nat) (hint : String) (dataflow : Bool) : Var :=
  ⟨node tag, ⟨tag, hint⟩, dataflow⟩

def x : Var := var 0 "x" false

def y : Var := var 1 "y" false

def d : Var := var 2 "d" true

def l : Var := var 3 "l" true

def g : Var := var 4 "g" false

def r : Var := var 5 "r" false

def bind (tag : Nat) (v : Var) (value : Expr) : Binding :=
  .bind ⟨tag, none⟩ v value

def function (param : Var) (blocks : List Block) (result : Var) : Function :=
  ⟨node 10, [param], .seq (node 11) blocks (.var result), .object, .empty⟩

def plain (bindings : List Binding) : Block :=
  .mk ⟨12, none⟩ .plain bindings

def dataflow (bindings : List Binding) : Block :=
  .mk ⟨13, none⟩ .dataflow bindings

def main : GlobalVar :=
  ⟨⟨⟨14, none⟩, none⟩, "main"⟩

def module (f : Function) : Module :=
  Module.empty.insert main f

theorem mem_module (f : Function) : (main, f) ∈ (module f).toList :=
  List.mem_singleton_self _

/-- A function with a dataflow block of its own inside a dataflow block, and a conditional after
them. -/
def regular : Function :=
  function x [
    dataflow [bind 20 d (.var x),
      bind 21 g (function y [dataflow [bind 22 l (.var d)]] y).toExpr],
    plain [bind 23 r (.ite (node 24) (.var x) (.var x) (.var x))]] r

/-- A plain block binds the dataflow variable `d`. -/
def bound : Function :=
  function x [dataflow [bind 20 g (function y [plain [bind 21 d (.var y)]] y).toExpr]] g

/-- The parameter `d` is used after its function. -/
def escaped : Function :=
  function x [dataflow [bind 20 g (function d [] d).toExpr, bind 21 r (.var d)]] r

/-- The inner dataflow block has ended where the conditional stands. -/
def conditional : Function :=
  function x [
    dataflow [bind 20 g (function y [dataflow [bind 21 l (.var y)]] y).toExpr,
      bind 22 r (.ite (node 23) (.var x) (.var x) (.var x))]] r

end Confined

open Confined in
theorem wellFormed_confined_iff_regular :
    (module regular).wellFormed = .ok () ∧ (main, regular) ∈ (module regular).toList ∧
      regular.Confined := by
  have hw : (module regular).wellFormed = .ok () :=
    Module.wellFormed_of_isOk (by decide +kernel)
  have hg : regular.Guarded := by decide +kernel
  exact ⟨hw, mem_module _, (wellFormed_confined_iff hw (mem_module _)).mpr hg⟩

open Confined in
/-- The check accepts a dataflow variable that a plain block binds, one that is used after the
function it is a parameter of, and a conditional in a dataflow block. -/
theorem wellFormed_not_confined :
    ((module bound).wellFormed = .ok () ∧ ¬ bound.Confined) ∧
    ((module escaped).wellFormed = .ok () ∧ ¬ escaped.Confined) ∧
    ((module conditional).wellFormed = .ok () ∧ ¬ conditional.Confined) := by
  refine ⟨⟨Module.wellFormed_of_isOk ?_, ?_⟩, ⟨Module.wellFormed_of_isOk ?_, ?_⟩,
    Module.wellFormed_of_isOk ?_, ?_⟩
  all_goals decide +kernel

end DataflowIR
