import DataflowIR.Proofs.Lowering.Dataflow

namespace DataflowIR

/-- A call of the operator on the three arguments that a lowering needs. -/
def Call.passesDestination (c : Call) : Bool :=
  c.isOp "relax.call_dps" && c.args.length == 3

private theorem Call.isSome_destinationPassing? (c : Call) :
    (Transformer.destinationPassing? c).isSome = c.passesDestination := by
  obtain ⟨node, callee, args, attrs, sinfoArgs⟩ := c
  unfold Transformer.destinationPassing? passesDestination
  match args with
  | [] | [_] | [_, _] | _ :: _ :: _ :: _ :: _ => simp
  | [_, _, _] =>
    dsimp only
    split
    · next h => simpa using h
    · next h => simpa using h

mutual

/-- The calls, at any depth. -/
def Expr.calls : Expr → List Call
  | .leaf .. | .var _ | .shape .. | .prim .. => []
  | .tuple _ fields => Expr.callsAll fields
  | .item _ whole _ => whole.calls
  | .call node callee args attrs sinfoArgs =>
    ⟨node, callee, args, attrs, sinfoArgs⟩ :: (callee.calls ++ Expr.callsAll args)
  | .ite _ cond onTrue onFalse => cond.calls ++ (onTrue.calls ++ onFalse.calls)
  | .seq _ blocks body => Block.callsAll blocks ++ body.calls
  | .function _ _ body _ _ => body.calls

def Expr.callsAll : List Expr → List Call
  | [] => []
  | e :: es => e.calls ++ Expr.callsAll es

def Binding.calls : Binding → List Call
  | .bind _ _ value | .cast _ _ value _ => value.calls

def Binding.callsAll : List Binding → List Call
  | [] => []
  | b :: bs => b.calls ++ Binding.callsAll bs

def Block.calls : Block → List Call
  | .mk _ _ bindings => Binding.callsAll bindings

def Block.callsAll : List Block → List Call
  | [] => []
  | b :: bs => b.calls ++ Block.callsAll bs

end

mutual

/-- The calls that are not the value of a variable binding. -/
def Expr.unboundCalls : Expr → List Call
  | .leaf .. | .var _ | .shape .. | .prim .. => []
  | .tuple _ fields => Expr.unboundCallsAll fields
  | .item _ whole _ => whole.unboundCalls
  | .call node callee args attrs sinfoArgs =>
    ⟨node, callee, args, attrs, sinfoArgs⟩ :: (callee.unboundCalls ++ Expr.unboundCallsAll args)
  | .ite _ cond onTrue onFalse =>
    cond.unboundCalls ++ (onTrue.unboundCalls ++ onFalse.unboundCalls)
  | .seq _ blocks body => Block.unboundCallsAll blocks ++ body.unboundCalls
  | .function _ _ body _ _ => body.unboundCalls

def Expr.unboundCallsAll : List Expr → List Call
  | [] => []
  | e :: es => e.unboundCalls ++ Expr.unboundCallsAll es

def Binding.unboundCalls : Binding → List Call
  | .bind _ _ (.call _ callee args _ _) => callee.unboundCalls ++ Expr.unboundCallsAll args
  | .bind _ _ value | .cast _ _ value _ => value.unboundCalls

def Binding.unboundCallsAll : List Binding → List Call
  | [] => []
  | b :: bs => b.unboundCalls ++ Binding.unboundCallsAll bs

def Block.unboundCalls : Block → List Call
  | .mk _ _ bindings => Binding.unboundCallsAll bindings

def Block.unboundCallsAll : List Block → List Call
  | [] => []
  | b :: bs => b.unboundCalls ++ Block.unboundCallsAll bs

end

/-- Where the operator is called, it is not itself an argument. -/
def Call.firstOrder (c : Call) : Bool :=
  !c.isOp "relax.call_dps" || c.args.all fun a => a.asOp? != some "relax.call_dps"

def Call.destinations (cs : List Call) : Nat :=
  cs.countP Call.passesDestination

@[simp] theorem Call.destinations_append (cs cs' : List Call) :
    Call.destinations (cs ++ cs') = Call.destinations cs + Call.destinations cs' :=
  List.countP_append

theorem Call.destinations_cons (c : Call) (cs : List Call) :
    Call.destinations (c :: cs) = Call.destinations cs + c.passesDestination.toNat := by
  rw [destinations, List.countP_cons]
  cases c.passesDestination <;> rfl

theorem Expr.calls_collects : Collects Expr.calls Expr.callsAll := by
  exact ⟨rfl, fun _ _ => rfl⟩

theorem Binding.calls_collects : Collects Binding.calls Binding.callsAll := by
  exact ⟨rfl, fun _ _ => rfl⟩

theorem Block.calls_collects : Collects Block.calls Block.callsAll := by
  exact ⟨rfl, fun _ _ => rfl⟩

variable {base : Nat} {r r' : Id → Option Var}

private theorem Expr.Lowered.asOp?_eq {e e' : Expr} (h : Expr.Lowered base r e e' r') :
    e'.asOp? = e.asOp? := by
  cases h <;> rfl

theorem Expr.LoweredAll.length_eq {es es' : List Expr} : {r r' : Id → Option Var} →
    Expr.LoweredAll base r es es' r' → es'.length = es.length := by
  induction es generalizing es' with
  | nil =>
    intro r r' h
    cases h
    rfl
  | cons e es ih =>
    intro r r' h
    cases h with
    | cons _ hs => exact congrArg (· + 1) (ih hs)

/-- A value that is not lowered is not counted, whether it is bound or not. -/
private theorem Binding.destinations_unboundCalls {mark : Mark} {v : Var} {value : Expr}
    (hl : Pass.explicitMemory.lowered? v value = none) :
    Call.destinations (Binding.bind mark v value).unboundCalls =
      Call.destinations value.unboundCalls := by
  cases value with
  | call node callee args attrs sinfoArgs =>
    have hd : Transformer.destinationPassing? ⟨node, callee, args, attrs, sinfoArgs⟩ = none := by
      simpa [Pass.lowered?, Expr.asCall?] using hl
    have hc := Call.isSome_destinationPassing? ⟨node, callee, args, attrs, sinfoArgs⟩
    rw [hd] at hc
    rw [Expr.unboundCalls, Call.destinations_cons, ← hc]
    rfl
  | _ => rfl

/-- The call that gets the allocation is not a destination-passing call. -/
private theorem Call.not_passesDestination_of_firstOrder {node opNode node' : Node}
    {shape f f' packed : Expr} {attrs attrs' : Option Attrs}
    {sinfoArgs sinfoArgs' : List StructInfo}
    {args : List Expr}
    (h : (Call.mk node (.leaf opNode (.op "relax.call_dps")) [shape, f, packed] attrs
      sinfoArgs).firstOrder) (hf : f'.asOp? = f.asOp?) :
    (Call.mk node' f' args attrs' sinfoArgs').passesDestination = false := by
  have hne : f'.asOp? ≠ some "relax.call_dps" := by
    have ho : (Call.mk node (.leaf opNode (.op "relax.call_dps")) [shape, f, packed] attrs
      sinfoArgs).isOp "relax.call_dps" := rfl
    simp only [firstOrder, ho, Bool.not_true, Bool.false_or, List.all_cons, Bool.and_eq_true,
      bne_iff_ne] at h
    rw [hf]
    exact h.2.1
  simp [passesDestination, isOp, hne]

mutual

/-- By induction on the tree: a part adds what its own parts leave. -/
theorem Expr.Lowered.destinations_eq {r r' : Id → Option Var} {e e' : Expr}
    (hlowered : Expr.Lowered base r e e' r') :
    (∀ c ∈ e.calls, c.firstOrder) → Call.destinations e'.calls =
      Call.destinations e.unboundCalls := by
  match hlowered with
  | .leaf | .var | .shape | .prim =>
    intro _
    rfl
  | .tuple hf =>
    intro h
    exact hf.destinations_eq h
  | .item hw =>
    intro h
    exact hw.destinations_eq h
  | .call hc ha =>
    intro h
    obtain ⟨hcalls, hargs⟩ := List.forall_mem_append.mp (List.forall_mem_cons.mp h).2
    simp only [Expr.calls, Expr.unboundCalls, Call.destinations_cons, Call.destinations_append,
      hc.destinations_eq hcalls, ha.destinations_eq hargs, Call.passesDestination, Call.isOp,
      hc.asOp?_eq, ha.length_eq]
  | .ite hc ht hf =>
    intro h
    obtain ⟨hcond, hbranches⟩ := List.forall_mem_append.mp h
    obtain ⟨htrue, hfalse⟩ := List.forall_mem_append.mp hbranches
    simp only [Expr.calls, Expr.unboundCalls, Call.destinations_append, hc.destinations_eq hcond,
      ht.destinations_eq htrue, hf.destinations_eq hfalse]
  | .seq hb hk hy =>
    intro h
    obtain ⟨hblocks, hbody⟩ := List.forall_mem_append.mp h
    simp only [Expr.calls, Expr.unboundCalls, Call.destinations_append,
      Block.calls_collects.kept (fun _ _ => rfl) hk, hb.destinations_eq hblocks,
      hy.destinations_eq hbody]
  | .function _ hb =>
    intro h
    exact hb.destinations_eq h

theorem Expr.LoweredAll.destinations_eq {r r' : Id → Option Var} {es es' : List Expr}
    (hlowered : Expr.LoweredAll base r es es' r') :
    (∀ c ∈ Expr.callsAll es, c.firstOrder) → Call.destinations (Expr.callsAll es') =
      Call.destinations (Expr.unboundCallsAll es) := by
  match hlowered with
  | .nil =>
    intro _
    rfl
  | .cons he hs =>
    intro h
    obtain ⟨hhead, htail⟩ := List.forall_mem_append.mp h
    simp only [Expr.callsAll, Expr.unboundCallsAll, Call.destinations_append,
      he.destinations_eq hhead, hs.destinations_eq htail]

theorem Binding.Lowered.destinations_eq {r r' : Id → Option Var} {b : Binding}
    {out : List Binding} (hlowered : Binding.Lowered base r b out r') :
    (∀ c ∈ b.calls, c.firstOrder) → Call.destinations (Binding.callsAll out) =
      Call.destinations b.unboundCalls := by
  match hlowered with
  | .bind hl hy _ =>
    intro h
    rw [Binding.destinations_unboundCalls hl, ← hy.destinations_eq h]
    exact congrArg _ (List.append_nil _)
  | .cast hy _ =>
    intro h
    rw [Binding.unboundCalls, ← hy.destinations_eq h]
    exact congrArg _ (List.append_nil _)
  | .call hl hs hf hp _ _ _ _ =>
    intro h
    obtain ⟨_, _, _, _, rfl⟩ := Pass.lowered?_eq_call hl
    obtain ⟨hfirst, hargs⟩ := List.forall_mem_cons.mp h
    obtain ⟨hshape, hargs⟩ := List.forall_mem_append.mp (List.forall_mem_append.mp hargs).2
    obtain ⟨hcallee, hargs⟩ := List.forall_mem_append.mp hargs
    obtain ⟨hpacked, -⟩ := List.forall_mem_append.mp hargs
    have hunpacked := Expr.calls_collects.unpacked fun _ _ => rfl
    simp only [Binding.callsAll, Binding.calls, Expr.calls, Expr.callsAll,
      Expr.calls_collects.append, hunpacked, Expr.mkOp, Expr.mkLeaf, Binding.unboundCalls,
      Expr.unboundCalls,
      Expr.unboundCallsAll, List.append_nil, List.nil_append, Call.destinations_append,
      Call.destinations_cons, hs.destinations_eq hshape, hf.destinations_eq hcallee,
      hp.destinations_eq hpacked, Call.not_passesDestination_of_firstOrder hfirst hf.asOp?_eq]
    simp [Call.passesDestination, Call.isOp, Expr.asOp?]

theorem Binding.LoweredAll.destinations_eq {r r' : Id → Option Var} {bs out : List Binding}
    (hlowered : Binding.LoweredAll base r bs out r') :
    (∀ c ∈ Binding.callsAll bs, c.firstOrder) → Call.destinations (Binding.callsAll out) =
      Call.destinations (Binding.unboundCallsAll bs) := by
  match hlowered with
  | .nil =>
    intro _
    rfl
  | .cons hb hs =>
    intro h
    obtain ⟨hhead, htail⟩ := List.forall_mem_append.mp h
    rw [Binding.calls_collects.append]
    simp only [Binding.unboundCallsAll, Call.destinations_append, hb.destinations_eq hhead,
      hs.destinations_eq htail]

theorem Block.Lowered.destinations_eq {r r' : Id → Option Var} {b b' : Block}
    (hlowered : Block.Lowered base r b b' r') :
    (∀ c ∈ b.calls, c.firstOrder) → Call.destinations b'.calls =
      Call.destinations b.unboundCalls := by
  match hlowered with
  | .mk hb =>
    intro h
    exact hb.destinations_eq h

theorem Block.LoweredAll.destinations_eq {r r' : Id → Option Var} {bs bs' : List Block}
    (hlowered : Block.LoweredAll base r bs bs' r') :
    (∀ c ∈ Block.callsAll bs, c.firstOrder) → Call.destinations (Block.callsAll bs') =
      Call.destinations (Block.unboundCallsAll bs) := by
  match hlowered with
  | .nil =>
    intro _
    rfl
  | .cons hb hs =>
    intro h
    obtain ⟨hhead, htail⟩ := List.forall_mem_append.mp h
    simp only [Block.callsAll, Block.unboundCallsAll, Call.destinations_append,
      hb.destinations_eq hhead, hs.destinations_eq htail]

end

def Module.calls (m : Module) : List Call :=
  m.toList.flatMap fun e => e.2.toExpr.calls

/-- In each function as many destination-passing calls are left as there were outside of variable
bindings. -/
theorem lowering_leaves_unbound_calls {m : Module} {r : Option Module} {w w' : World}
    (hb : Below w.next m.tags) (hc : ∀ c ∈ m.calls, c.firstOrder)
    (h : (Pass.explicitMemory.apply m).exec w = (.ok r, w')) :
    List.Forall₂ (fun e e' => e'.1 = e.1 ∧
        e'.2.toExpr.calls.countP Call.passesDestination =
          e.2.toExpr.unboundCalls.countP Call.passesDestination)
      m.toList (r.getD m).toList := by
  have hbec : Module.Becomes .explicitMemory w.next m (r.getD m) := Pass.apply_ok h
  have hentry : ∀ e ∈ m.functions.entries, Below w.next e.2.2.toExpr.tags ∧
      ∀ c ∈ e.2.2.toExpr.calls, c.firstOrder := by
    intro e he
    have hm : e.2 ∈ m.toList := List.mem_map_of_mem he
    exact ⟨fun tag ht => hb tag (List.mem_flatMap.mpr ⟨e.2, hm, ht⟩),
      fun c hcall => hc c (List.mem_flatMap.mpr ⟨e.2, hm, hcall⟩)⟩
  rw [Module.toList, Module.toList, List.forall₂_map_left_iff, List.forall₂_map_right_iff]
  refine ((List.forall₂_and_left _ _).mpr ⟨hentry, hbec⟩).imp ?_
  rintro e e' ⟨⟨htags, hcalls⟩, -, hg, hf⟩
  obtain ⟨r', hlow⟩ := hf.lowersTo htags
  exact ⟨hg, hlow.destinations_eq hcalls⟩

/-- The pass leaves a destination-passing call in a well-formed module. -/
def Module.RetainsCall (m : Module) (w : World) : Prop :=
  m.wellFormed = .ok () ∧ (∀ c ∈ m.calls, c.firstOrder) ∧
    ∃ m' w', (Pass.explicitMemory.apply m).exec w = (.ok (some m'), w') ∧
      ∃ c ∈ m'.calls, c.passesDestination

theorem Module.RetainsCall.of_changedModule? {m : Module} {w : World}
    (hwf : m.wellFormed = .ok ()) (hc : m.calls.all Call.firstOrder)
    (h : (Pass.explicitMemory.changedModule? m w).any fun m' =>
      m'.calls.any Call.passesDestination) : m.RetainsCall w := by
  obtain ⟨m', hm, hcall⟩ := (Option.any_eq_true _ _).mp h
  exact ⟨hwf, List.all_eq_true.mp hc, m', _, Pass.apply_of_changedModule? hm,
    List.any_eq_true.mp hcall⟩

namespace Destinations

/-- A second call, with tags of its own. -/
def rewritten : Expr :=
  .mkCall ⟨15, none⟩ (.mkOp 16 "relax.call_dps")
    [.shape ⟨⟨17, none⟩, none⟩ [.int 4], .leaf ⟨⟨18, none⟩, none⟩ (.externFunc "write"), .var x]
    none []

/-- The value of a match cast, after one that is bound. -/
def casted : Module :=
  module [.mk ⟨8, none⟩ .plain
    [.bind ⟨9, none⟩ first written, .cast ⟨10, none⟩ second rewritten .object]] second

/-- The body of a sequence that is the body of a function. -/
def returned : Module :=
  module [.mk ⟨8, none⟩ .plain
    [.bind ⟨9, none⟩ first (.mkFunction ⟨10, none⟩ [] (.mkSeq ⟨11, none⟩ [] written) none .empty)]]
    first

/-- The body of a function. -/
def unwrapped : Module :=
  module [.mk ⟨8, none⟩ .plain
    [.bind ⟨9, none⟩ first (.mkFunction ⟨10, none⟩ [] written none .empty)]] first

/-- The body of a branch. -/
def chosen : Module :=
  module [.mk ⟨8, none⟩ .plain
    [.bind ⟨9, none⟩ first (.mkIte ⟨10, none⟩ (.var x) written (.var x))]] first

end Destinations

open Destinations in
theorem lowering_leaves_unbound_calls_casted : ∃ m' w',
    (Pass.explicitMemory.apply casted).exec world = (.ok (some m'), w') ∧
      casted.calls.countP Call.passesDestination = 2 ∧
      List.Forall₂ (fun e e' => e'.1 = e.1 ∧
        e'.2.toExpr.calls.countP Call.passesDestination =
          e.2.toExpr.unboundCalls.countP Call.passesDestination) casted.toList m'.toList := by
  have hs : (Pass.explicitMemory.changedModule? casted world).isSome := by decide +kernel
  obtain ⟨m', hm⟩ := Option.isSome_iff_exists.mp hs
  have h := Pass.apply_of_changedModule? hm
  have hb : Below world.next casted.tags := by decide +kernel
  have hc : ∀ c ∈ casted.calls, c.firstOrder := by decide +kernel
  exact ⟨m', _, h, by decide +kernel, lowering_leaves_unbound_calls hb hc h⟩

open Destinations in
/-- A match cast, a sequence, a function and a branch each keep the call. -/
theorem lowering_retains_calls : casted.RetainsCall world ∧ returned.RetainsCall world ∧
    unwrapped.RetainsCall world ∧ chosen.RetainsCall world := by
  refine ⟨.of_changedModule? rfl ?_ ?_, .of_changedModule? rfl ?_ ?_,
    .of_changedModule? rfl ?_ ?_, .of_changedModule? rfl ?_ ?_⟩ <;> decide +kernel

end DataflowIR
