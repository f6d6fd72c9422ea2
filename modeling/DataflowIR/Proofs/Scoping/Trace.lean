import DataflowIR.Proofs.Scoping.Checks

namespace DataflowIR

namespace Scope

/-- What has to be in scope where it is mentioned. -/
inductive Mention where
  | var (id : Id) (dataflow : Bool)
  | syms (ss : List SymVar)
  | global (name : String)
  /-- An expression where it may not stand, or an argument that is not normal. -/
  | misplaced
  deriving DecidableEq

/-- An operation of the check. Sums and records are noted for the passes. -/
inductive Op where
  | mention (m : Mention)
  /-- The struct info arguments `ss` of a sum whose first operand, mentioned next, is a variable. -/
  | sum (ss : List SymVar) (id : Id)
  | define (id : Id) (dataflow : Bool)
  | introduce (ss : List SymVar)
  /-- A variable is bound to a value; where that is a product, with what its factors mention. -/
  | record (id : Id) (factors : Option (List Mention))
  | conditional
  | enter
  | leave
  | beginDataflow
  | endDataflow
  /-- A dataflow block without bindings. -/
  | hollow
  deriving DecidableEq

/-- The variable that the operation names. -/
def Op.var? : Op → Option (Id × Bool)
  | .mention (.var id dataflow) | .define id dataflow => some (id, dataflow)
  | _ => none

/-- The scope, and the variables to come back to at the end of each branch or function. -/
structure Walk where
  scope : Scope
  saved : List (List Id)

def Allows (known : String → Bool) (sc : Scope) : Mention → Prop
  | .var id dataflow => if dataflow then sc.inDataflow ∧ id ∈ sc.dataflowVars else id ∈ sc.vars
  | .syms ss => ∀ s ∈ ss, s ∈ sc.syms
  | .global name => known name
  | .misplaced => False

instance (known : String → Bool) (sc : Scope) : (m : Mention) → Decidable (sc.Allows known m)
  | .var id dataflow =>
    inferInstanceAs
      (Decidable (if dataflow then sc.inDataflow ∧ id ∈ sc.dataflowVars else id ∈ sc.vars))
  | .syms ss => inferInstanceAs (Decidable (∀ s ∈ ss, s ∈ sc.syms))
  | .global name => inferInstanceAs (Decidable (known name))
  | .misplaced => inferInstanceAs (Decidable False)

def require (known : String → Bool) (m : Mention) (w : Walk) : Option Walk :=
  if w.scope.Allows known m then some w else none

theorem require_eq {known : String → Bool} {m : Mention} {w w' : Walk}
    (h : require known m w = some w') : w' = w ∧ w.scope.Allows known m := by
  unfold require at h
  split at h
  · next ha =>
    cases h
    exact ⟨rfl, ha⟩
  · cases h

theorem require_of_allows {known : String → Bool} {m : Mention} {w : Walk}
    (h : w.scope.Allows known m) : require known m w = some w :=
  if_pos h

def define? (sc : Scope) (id : Id) (dataflow : Bool) : Option Scope :=
  if dataflow then
    if sc.inDataflow ∧ id ∉ sc.dataflowVars then
      some { sc with dataflowVars := id :: sc.dataflowVars }
    else none
  else if id ∉ sc.vars then some { sc with vars := id :: sc.vars }
  else none

def step (known : String → Bool) : Op → Walk → Option Walk
  | .mention m, w => require known m w
  | .sum ss _, w => require known (.syms ss) w
  | .define id dataflow, w => (w.scope.define? id dataflow).map (⟨·, w.saved⟩)
  | .introduce ss, w => some ⟨{ w.scope with syms := ss ++ w.scope.syms }, w.saved⟩
  | .record .., w => some w
  | .conditional, w => if w.scope.inDataflow then none else some w
  | .enter, w => some ⟨w.scope, w.scope.vars :: w.saved⟩
  | .leave, ⟨sc, vars :: saved⟩ => some ⟨{ sc with vars }, saved⟩
  | .leave, ⟨_, []⟩ => none
  | .beginDataflow, w => some ⟨{ w.scope with inDataflow := true }, w.saved⟩
  | .endDataflow, w => some ⟨{ w.scope with inDataflow := false, dataflowVars := [] }, w.saved⟩
  | .hollow, w => some ⟨{ w.scope with inDataflow := false, dataflowVars := [] }, w.saved⟩

def run (known : String → Bool) : List Op → Walk → Option Walk
  | [], w => some w
  | op :: ops, w => (step known op w).bind (run known ops)

theorem run_append (known : String → Bool) (ops ops' : List Op) (w : Walk) :
    run known (ops ++ ops') w = (run known ops w).bind (run known ops') := by
  induction ops generalizing w with
  | nil => rfl
  | cons op ops ih =>
    rw [List.cons_append, run, run, Option.bind_assoc]
    exact congrArg _ (funext ih)

theorem run_eq_none_of_misplaced {known : String → Bool} {ops : List Op}
    (h : .mention .misplaced ∈ ops) (w : Walk) : run known ops w = none := by
  induction ops generalizing w with
  | nil => cases h
  | cons op ops ih =>
    rw [run]
    obtain rfl | h := List.mem_cons.mp h
    · rfl
    · cases step known op w with
      | none => rfl
      | some w' => exact ih h w'

/-- Variables that are defined meanwhile are not in scope afterwards. -/
def nested (ops : List Op) : List Op :=
  .enter :: (ops ++ [.leave])

end Scope

open Scope (Mention Op Walk)

private theorem Expr.find?_of_not_normal {es : List Expr} (h : Expr.areNormal es = false) :
    ∃ e, es.find? (fun e => !e.isNormal) = some e := by
  rw [← Option.ne_none_iff_exists', ne_eq, Expr.find?_not_normal, ← Expr.areNormal_iff, h]
  exact Bool.false_ne_true

def Leaf.mentions : Leaf → List Mention
  | .globalVar name => [.global name]
  | _ => []

mutual

/-- What an argument or a field mentions. -/
def Expr.mentions : Expr → List Mention
  | .leaf _ content => content.mentions
  | .var v => [.var v.id v.dataflow]
  | .shape _ values => [.syms (values.flatMap Dim.syms)]
  | .prim _ value _ => [.syms value.syms]
  | .tuple _ fields => Expr.mentionsAll fields
  | .item .. | .call .. | .ite .. | .seq .. | .function .. => [.misplaced]

def Expr.mentionsAll : List Expr → List Mention
  | [] => []
  | e :: es => e.mentions ++ Expr.mentionsAll es

end

/-- What the factors of a product mention. -/
def Expr.factorMentions? (e : Expr) : Option (List Mention) :=
  (e.asCall?.bind (·.binaryOperands? "relax.multiply")).map fun (a, b) => Expr.mentionsAll [a, b]

/-- The variable that is the first operand of a sum. -/
def Call.summand? (c : Call) : Option Var :=
  (c.binaryOperands? "relax.add").bind fun operands => operands.1.asVar?

/-- What becomes of the struct info arguments of a call. -/
def Call.sinfoOp (c : Call) : Op :=
  match c.summand? with
  | some v => .sum (c.sinfoArgs.flatMap StructInfo.syms) v.id
  | none => .mention (.syms (c.sinfoArgs.flatMap StructInfo.syms))

def Var.paramOps (v : Var) : List Op :=
  [.introduce (v.sinfo.elim [] StructInfo.syms), .define v.id v.dataflow]

mutual

def Expr.ops (asBody : Bool) : Expr → List Op
  | .leaf _ content => content.mentions.map .mention
  | .var v => [.mention (.var v.id v.dataflow)]
  | .shape _ values => [.mention (.syms (values.flatMap Dim.syms))]
  | .prim _ value _ => [.mention (.syms value.syms)]
  | .tuple _ fields => (Expr.mentionsAll fields).map .mention
  | .item _ whole _ => whole.ops false
  | .call node callee args attrs sinfoArgs =>
    callee.ops false ++
      (Call.mk node callee args attrs sinfoArgs).sinfoOp :: (Expr.mentionsAll args).map .mention
  | .ite _ cond onTrue onFalse =>
    .conditional :: (cond.ops false ++ (Scope.nested (onTrue.ops true) ++
      Scope.nested (onFalse.ops true)))
  | .seq _ blocks body =>
    if asBody then Block.opsAll blocks ++ body.ops false else [.mention .misplaced]
  | .function _ params body ret _ =>
    Scope.nested (params.flatMap Var.paramOps ++ (body.ops true ++ [.mention (.syms ret.syms)]))

def Binding.ops : Binding → List Op
  | .bind _ v value =>
    value.ops false ++ [.define v.id v.dataflow, .record v.id value.factorMentions?]
  | .cast _ v value sinfo =>
    value.ops false ++ [.introduce sinfo.syms, .define v.id v.dataflow]

def Binding.opsAll : List Binding → List Op
  | [] => []
  | b :: bs => b.ops ++ Binding.opsAll bs

def Block.ops : Block → List Op
  | .mk _ .plain bindings => Binding.opsAll bindings
  | .mk _ .dataflow [] => [.hollow]
  | .mk _ .dataflow (b :: bs) =>
    .beginDataflow :: (b.ops ++ (Binding.opsAll bs ++ [.endDataflow]))

def Block.opsAll : List Block → List Op
  | [] => []
  | b :: bs => b.ops ++ Block.opsAll bs

end

namespace Scope

variable {known : String → Bool} {sc : Scope} {saved : List (List Id)}

/-- A run from the scope at the given depth gives what the check gives. -/
def Runs (known : String → Bool) (saved : List (List Id)) (sc : Scope) (ops : List Op)
    (r : Except Violation Scope) : Prop :=
  run known ops ⟨sc, saved⟩ = r.toOption.map (⟨·, saved⟩)

theorem Runs.append {ops ops' : List Op} {r : Except Violation Scope}
    {f : Scope → Except Violation Scope} (h : Runs known saved sc ops r)
    (k : ∀ sc', Runs known saved sc' ops' (f sc')) :
    Runs known saved sc (ops ++ ops') (r >>= f) := by
  rw [Runs, run_append, h]
  cases r with
  | error => rfl
  | ok sc' => exact k sc'

theorem Runs.of_ok {op : Op} {sc' : Scope} {ops : List Op} {r : Except Violation Scope}
    (h : step known op ⟨sc, saved⟩ = some ⟨sc', saved⟩) (k : Runs known saved sc' ops r) :
    Runs known saved sc (op :: ops) r := by
  rw [Runs, run, h]
  exact k

theorem Runs.nested {ops : List Op} {r : Except Violation Scope}
    (h : Runs known (sc.vars :: saved) sc ops r) :
    Runs known saved sc (nested ops) (r >>= fun sc' => return { sc' with vars := sc.vars }) := by
  rw [Scope.nested, Runs, run, step, Option.bind_some, run_append, h]
  cases r with
  | error => rfl
  | ok sc' => rfl

theorem runs_nil : Runs known saved sc [] (.ok sc) :=
  rfl

theorem runs_mention (m : Mention) {r : Except Violation Scope}
    (h : ∀ sc', r = .ok sc' ↔ sc' = sc ∧ sc.Allows known m) :
    Runs known saved sc [.mention m] r := by
  by_cases ha : sc.Allows known m
  · obtain rfl := (h sc).mpr ⟨rfl, ha⟩
    simp [Runs, run, step, require, ha, Except.toOption]
  · cases r with
    | error => simp [Runs, run, step, require, ha, Except.toOption]
    | ok sc' => exact absurd ((h sc').mp rfl).2 ha

private theorem runs_var (v : Var) :
    Runs known saved sc [.mention (.var v.id v.dataflow)] (sc.useVar v) :=
  runs_mention _ fun _ => useVar_ok

theorem runs_define (v : Var) : Runs known saved sc [.define v.id v.dataflow] (sc.defineVar v) := by
  obtain ⟨vars, dataflowVars, syms, inDataflow⟩ := sc
  cases hd : v.dataflow with
  | false =>
    by_cases hv : v.id ∈ vars <;>
      simp [Runs, run, step, define?, defineVar, hd, hv, Except.toOption]
  | true =>
    cases inDataflow <;> by_cases hv : v.id ∈ dataflowVars <;>
      simp [Runs, run, step, define?, defineVar, hd, hv, Except.toOption]

theorem runs_syms (ss : List SymVar) {r : Except Violation Scope}
    (h : ∀ sc', r = .ok sc' ↔ sc' = sc ∧ ∀ s ∈ ss, s ∈ sc.syms) :
    Runs known saved sc [.mention (.syms ss)] r :=
  runs_mention _ h

private theorem runs_defineParams (sc : Scope) (vs : List Var) :
    Runs known saved sc (vs.flatMap Var.paramOps) (sc.defineParams vs) := by
  induction vs generalizing sc with
  | nil => exact runs_nil
  | cons v vs ih =>
    refine Runs.append ?_ fun sc' => ih sc'
    rw [defineParam]
    cases hs : v.sinfo with
    | none =>
      rw [Var.paramOps, hs]
      exact Runs.of_ok rfl (runs_define v)
    | some s =>
      rw [Var.paramOps, hs]
      exact Runs.of_ok rfl (runs_define v)

theorem run_mentions {ms : List Mention} {w w' : Walk} :
    run known (ms.map .mention) w = some w' ↔ w' = w ∧ ∀ m ∈ ms, w.scope.Allows known m := by
  induction ms with
  | nil => simp [run, eq_comm]
  | cons m ms ih =>
    rw [List.map_cons, run, List.forall_mem_cons, step, require]
    split
    · next h => rw [Option.bind_some, ih, and_iff_right h]
    · next h => simp [h]

end Scope

section Check

open Scope

variable {known : String → Bool}

private theorem runs_sinfoOp {sc : Scope} {saved : List (List Id)} (c : Call) :
    Runs known saved sc [c.sinfoOp] (sc.useTypes c.sinfoArgs) := by
  have h : ∀ sc', sc.useTypes c.sinfoArgs = .ok sc' ↔
      sc' = sc ∧ ∀ s ∈ c.sinfoArgs.flatMap StructInfo.syms, s ∈ sc.syms := by
    intro sc'
    rw [useTypes_ok, List.forall_mem_flatMap]
  have hm : Runs known saved sc [.mention (.syms _)] _ := runs_syms _ h
  unfold Call.sinfoOp
  split
  · exact hm
  · exact hm

mutual

theorem Expr.runs_mentions (asBody : Bool) (sc : Scope) (saved : List (List Id)) (e : Expr)
    (hn : e.isNormal) :
    Runs known saved sc (e.mentions.map .mention) (e.check known asBody sc) := by
  cases e with
  | leaf _ content =>
    cases content with
    | globalVar name =>
      exact runs_mention _ fun sc' => check_leaf.trans
        ⟨fun h => ⟨h.1, h.2 name rfl⟩, fun h => ⟨h.1, fun _ hn => by cases hn; exact h.2⟩⟩
    | _ => exact runs_nil
  | var v => exact runs_var v
  | shape _ values =>
    refine runs_syms _ fun sc' => ?_
    rw [Expr.check, useDims_ok, List.forall_mem_flatMap]
  | prim _ value _ => exact runs_syms _ fun sc' => useDim_ok
  | tuple _ fields =>
    rw [Expr.mentions, Expr.check, Expr.find?_not_normal.mpr (Expr.areNormal_iff.mp hn)]
    exact Expr.runs_mentionsAll sc saved fields hn
  | item | call | ite | seq | function => cases hn

theorem Expr.runs_mentionsAll (sc : Scope) (saved : List (List Id)) (es : List Expr)
    (hn : Expr.areNormal es) :
    Runs known saved sc ((Expr.mentionsAll es).map .mention) (Expr.checkAll known sc es) := by
  cases es with
  | nil => exact runs_nil
  | cons e es =>
    rw [Expr.areNormal, Bool.and_eq_true] at hn
    rw [Expr.mentionsAll, List.map_append]
    exact (Expr.runs_mentions false sc saved e hn.1).append fun sc' =>
      Expr.runs_mentionsAll sc' saved es hn.2

end

mutual

private theorem Expr.misplaced_mem_mentions (e : Expr) (hn : e.isNormal = false) :
    .misplaced ∈ e.mentions := by
  cases e with
  | leaf | var _ | shape | prim => cases hn
  | tuple _ fields => exact Expr.misplaced_mem_mentionsAll fields hn
  | item | call | ite | seq | function => exact List.mem_singleton_self _

theorem Expr.misplaced_mem_mentionsAll (es : List Expr) (hn : Expr.areNormal es = false) :
    .misplaced ∈ Expr.mentionsAll es := by
  cases es with
  | nil => cases hn
  | cons e es =>
    rw [Expr.areNormal, Bool.and_eq_false_iff] at hn
    rw [Expr.mentionsAll, List.mem_append]
    exact hn.imp (Expr.misplaced_mem_mentions e) (Expr.misplaced_mem_mentionsAll es)

end

mutual

theorem Expr.runs_ops (asBody : Bool) (sc : Scope) (saved : List (List Id)) (e : Expr) :
    Runs known saved sc (e.ops asBody) (e.check known asBody sc) := by
  cases e with
  | leaf node content => exact Expr.runs_mentions asBody sc saved (.leaf node content) rfl
  | var v => exact Expr.runs_mentions asBody sc saved (.var v) rfl
  | shape node values => exact Expr.runs_mentions asBody sc saved (.shape node values) rfl
  | prim node value dtype => exact Expr.runs_mentions asBody sc saved (.prim node value dtype) rfl
  | tuple node fields =>
    cases hn : Expr.areNormal fields with
    | true => exact Expr.runs_mentions asBody sc saved (.tuple node fields) hn
    | false =>
      obtain ⟨e, he⟩ := Expr.find?_of_not_normal hn
      rw [Expr.ops, Expr.check, he]
      exact run_eq_none_of_misplaced (List.mem_map_of_mem (Expr.misplaced_mem_mentionsAll _ hn)) _
  | item _ whole _ =>
    rw [Expr.ops, Expr.check]
    exact Expr.runs_ops false sc saved whole
  | call _ callee args _ _ =>
    rw [Expr.ops, Expr.check]
    cases hn : Expr.areNormal args with
    | true =>
      rw [Expr.find?_not_normal.mpr (Expr.areNormal_iff.mp hn)]
      apply (Expr.runs_ops false sc saved callee).append
      intro sc1
      exact (runs_sinfoOp _).append fun sc2 => Expr.runs_mentionsAll sc2 saved args hn
    | false =>
      obtain ⟨e, he⟩ := Expr.find?_of_not_normal hn
      rw [he]
      refine run_eq_none_of_misplaced (List.mem_append_right _ (List.mem_cons_of_mem _ ?_)) _
      exact List.mem_map_of_mem (Expr.misplaced_mem_mentionsAll _ hn)
  | ite _ cond onTrue onFalse =>
    rw [Expr.ops, Expr.check]
    split
    · next h => simp [Runs, run, step, h, Except.toOption]
    · next h =>
      refine Runs.of_ok (if_neg h) ?_
      apply (Expr.runs_ops false sc saved cond).append
      intro sc1
      have ht := (Expr.runs_ops true sc1 (sc1.vars :: saved) onTrue).nested.append fun sc2 =>
        (Expr.runs_ops true sc2 (sc2.vars :: saved) onFalse).nested
      simpa only [bind_assoc, pure_bind] using ht
  | seq _ blocks body =>
    rw [Expr.ops, Expr.check]
    split
    · exact (Block.runs_opsAll sc saved blocks).append fun sc1 =>
        Expr.runs_ops false sc1 saved body
    · rfl
  | function _ params body ret _ =>
    rw [Expr.ops, Expr.check]
    have h := (runs_defineParams sc params).append fun sc1 =>
      (Expr.runs_ops true sc1 (sc.vars :: saved) body).append fun sc2 =>
        runs_syms ret.syms fun sc' => useType_ok
    simpa only [bind_assoc] using h.nested

theorem Binding.runs_ops (sc : Scope) (saved : List (List Id)) (b : Binding) :
    Runs known saved sc b.ops (b.check known sc) := by
  cases b with
  | bind _ v value =>
    apply (Expr.runs_ops false sc saved value).append
    intro sc'
    rw [← bind_pure (sc'.defineVar v)]
    exact (runs_define v).append fun sc2 => rfl
  | cast _ v value sinfo =>
    apply (Expr.runs_ops false sc saved value).append
    intro sc'
    exact Runs.of_ok rfl (runs_define v)

theorem Binding.runs_opsAll (sc : Scope) (saved : List (List Id)) (bs : List Binding) :
    Runs known saved sc (Binding.opsAll bs) (Binding.checkAll known sc bs) := by
  cases bs with
  | nil => exact runs_nil
  | cons b bs =>
    refine (Binding.runs_ops sc saved b).append ?_
    intro sc'
    exact Binding.runs_opsAll sc' saved bs

theorem Block.runs_ops (sc : Scope) (saved : List (List Id)) (b : Block) :
    Runs known saved sc b.ops (b.check known sc) := by
  match b with
  | .mk _ .plain bindings => exact Binding.runs_opsAll sc saved bindings
  | .mk _ .dataflow [] => rfl
  | .mk _ .dataflow (b :: bs) =>
    rw [Block.ops, Block.check, Binding.checkAll, bind_assoc]
    refine Runs.of_ok rfl ((Binding.runs_ops _ saved b).append ?_)
    intro sc1
    exact (Binding.runs_opsAll sc1 saved bs).append fun sc2 => rfl

theorem Block.runs_opsAll (sc : Scope) (saved : List (List Id)) (bs : List Block) :
    Runs known saved sc (Block.opsAll bs) (Block.checkAll known sc bs) := by
  cases bs with
  | nil => exact runs_nil
  | cons b bs =>
    refine (Block.runs_ops sc saved b).append ?_
    intro sc'
    exact Block.runs_opsAll sc' saved bs

end

end Check

namespace Scope

def Walk.start : Walk :=
  ⟨.empty, []⟩

end Scope

def Function.ops (f : Function) : List Op :=
  f.toExpr.ops false

/-- A module is well formed when the operations of each function succeed one after the other. -/
theorem Module.wellFormed_iff_run {m : Module} : m.wellFormed = .ok () ↔
    ∀ e ∈ m.toList, ∃ w, Scope.run m.contains e.2.ops .start = some w := by
  rw [Module.wellFormed_ok]
  apply forall₂_congr
  intro e _
  have h : Scope.Runs m.contains [] .empty (e.2.toExpr.ops false) _ :=
    Expr.runs_ops false .empty [] e.2.toExpr
  rw [Scope.Runs] at h
  rw [Function.ops, Scope.Walk.start, h]
  cases e.2.toExpr.check m.contains false .empty with
  | error => simp [Except.toOption]
  | ok sc => simp [Except.toOption]

end DataflowIR
