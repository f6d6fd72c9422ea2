import DataflowIR.Proofs.Lowering.Operations
import DataflowIR.Proofs.Scoping.Operands

namespace DataflowIR

open Scope (Mention Op)

def Var.regular (v : Var) : Var :=
  { v with dataflow := false }

/-- A destination-passing call gets the struct info of its destination as its only struct info
argument. -/
def Expr.withDestination (v : Var) : Expr → Expr
  | .call node callee args attrs sinfoArgs =>
    let c : Call := ⟨node, callee, args, attrs, sinfoArgs⟩
    if (Transformer.destinationPassing? c).isSome then
      .call node callee args attrs [Transformer.destinationSinfo c v]
    else .call node callee args attrs sinfoArgs
  | e => e

mutual

def Expr.regular : Expr → Expr
  | .leaf node content => .leaf node content
  | .var v => .var v.regular
  | .shape node values => .shape node values
  | .prim node value dtype => .prim node value dtype
  | .tuple node fields => .tuple node (Expr.regularAll fields)
  | .item node whole index => .item node whole.regular index
  | .call node callee args attrs sinfoArgs =>
    .call node callee.regular (Expr.regularAll args) attrs sinfoArgs
  | .ite node cond onTrue onFalse => .ite node cond.regular onTrue.regular onFalse.regular
  | .seq node blocks body => .seq node (Block.regularAll blocks) body.regular
  | .function node params body ret attrs =>
    .function node (params.map Var.regular) body.regular ret attrs

def Expr.regularAll : List Expr → List Expr
  | [] => []
  | e :: es => e.regular :: Expr.regularAll es

def Binding.regular : Binding → Binding
  | .bind mark v value => .bind mark v.regular (value.regular.withDestination v)
  | .cast mark v value sinfo => .cast mark v.regular value.regular sinfo

def Binding.regularAll : List Binding → List Binding
  | [] => []
  | b :: bs => b.regular :: Binding.regularAll bs

def Block.regular : Block → Block
  | .mk mark _ bindings => .mk mark .plain (Binding.regularAll bindings)

def Block.regularAll : List Block → List Block
  | [] => []
  | b :: bs => b.regular :: Block.regularAll bs

end

def Function.regular (f : Function) : Function :=
  { f with params := f.params.map Var.regular, body := f.body.regular }

/-- Every function changed in its place. -/
def Module.mapFunctions (g : Function → Function) (m : Module) : Module where
  functions := ⟨m.functions.entries.map fun e => (e.1, e.2.1, g e.2.2),
    List.pairwise_map.mpr m.functions.sorted⟩
  named := by
    simp only [List.forall_mem_map]
    exact m.named

theorem Module.toList_mapFunctions (g : Function → Function) (m : Module) :
    (m.mapFunctions g).toList = m.toList.map fun e => (e.1, g e.2) := by
  simp [mapFunctions, toList, Function.comp_def]

theorem Module.contains_mapFunctions (g : Function → Function) (m : Module) :
    (m.mapFunctions g).contains = m.contains := by
  funext name
  simp [mapFunctions, contains, Dictionary.contains, Function.comp_def]

def Module.regular (m : Module) : Module :=
  m.mapFunctions Function.regular

mutual

private theorem Expr.mentions_regular (e : Expr) :
    e.regular.mentions = e.mentions.map Mention.regular := by
  cases e with
  | leaf _ content => cases content <;> rfl
  | var _ | shape | prim | item | call | ite | seq | function => rfl
  | tuple _ fields => exact Expr.mentionsAll_regularAll fields

theorem Expr.mentionsAll_regularAll (es : List Expr) :
    Expr.mentionsAll (Expr.regularAll es) = (Expr.mentionsAll es).map Mention.regular := by
  cases es with
  | nil => rfl
  | cons e es =>
    rw [Expr.regularAll, Expr.mentionsAll, Expr.mentionsAll, List.map_append,
      Expr.mentions_regular e, Expr.mentionsAll_regularAll es]

end

private theorem Expr.asOp?_regular (e : Expr) : e.regular.asOp? = e.asOp? := by
  cases e <;> rfl

private theorem Expr.asVar?_regular (e : Expr) :
    e.regular.asVar?.map Var.id = e.asVar?.map Var.id := by
  cases e <;> rfl

private theorem Expr.regularAll_eq_map (es : List Expr) :
    Expr.regularAll es = es.map Expr.regular := by
  induction es with
  | nil => rfl
  | cons e es ih => rw [Expr.regularAll, List.map_cons, ih]

/-- A call of the same operator on the same variables as before. -/
theorem Call.sinfoOp_regular (c : Call) :
    (Call.mk c.node c.callee.regular (Expr.regularAll c.args) c.attrs c.sinfoArgs).sinfoOp =
      c.sinfoOp := by
  refine Call.sinfoOp_congr ?_ rfl
  rw [Call.summand?_eq, Call.summand?_eq, isOp, isOp, Expr.asOp?_regular, Expr.regularAll_eq_map,
    List.length_map]
  split
  · cases c.args with
    | nil => rfl
    | cons e es => exact e.asVar?_regular
  · rfl

private theorem Expr.isSome_destinationPassing?_regular (c : Call) :
    (Transformer.destinationPassing? ⟨c.node, c.callee.regular, Expr.regularAll c.args, c.attrs,
      c.sinfoArgs⟩).isSome = (Transformer.destinationPassing? c).isSome := by
  obtain ⟨node, callee, args, attrs, sinfoArgs⟩ := c
  unfold Transformer.destinationPassing? Call.isOp
  rw [Expr.asOp?_regular, Expr.regularAll_eq_map]
  match args with
  | [] | [_] | [_, _] | _ :: _ :: _ :: _ :: _ => rfl
  | [_, _, _] =>
    simp only [List.map_cons, List.map_nil]
    split <;> rfl

/-- A value that is not lowered keeps its struct info arguments. -/
theorem Expr.withDestination_of_lowered?_eq_none {v : Var} {value : Expr}
    (h : Pass.explicitMemory.lowered? v value = none) :
    value.regular.withDestination v = value.regular := by
  cases value with
  | call node callee args attrs sinfoArgs =>
    have hd : Transformer.destinationPassing? ⟨node, callee, args, attrs, sinfoArgs⟩ = none := by
      simpa [Pass.lowered?, Expr.asCall?] using h
    have hr := Expr.isSome_destinationPassing?_regular ⟨node, callee, args, attrs, sinfoArgs⟩
    rw [hd] at hr
    rw [Expr.regular, Expr.withDestination, hr]
    rfl
  | _ => rfl

/-- A value that is lowered mentions the symbolic variables of its destination. -/
theorem Expr.ops_withDestination {v : Var} {node opNode : Node} {shape f packed : Expr}
    {attrs : Option Attrs} {sinfoArgs : List StructInfo} :
    (((Expr.call node (.leaf opNode (.op "relax.call_dps")) [shape, f, packed] attrs
        sinfoArgs).regular).withDestination v).ops false =
      ((.syms ([Transformer.destinationSinfo ⟨node, .leaf opNode (.op "relax.call_dps"),
        [shape, f, packed], attrs, sinfoArgs⟩ v].flatMap StructInfo.syms) ::
          (shape.mentions ++ (f.mentions ++ packed.mentions))).map Mention.regular).map
            .mention := by
  have hd : ((Expr.call node (.leaf opNode (.op "relax.call_dps")) [shape, f, packed] attrs
      sinfoArgs).regular).withDestination v =
      .call node (.leaf opNode (.op "relax.call_dps")) (Expr.regularAll [shape, f, packed]) attrs
        [Transformer.destinationSinfo ⟨node, .leaf opNode (.op "relax.call_dps"),
          [shape, f, packed], attrs, sinfoArgs⟩ v] := by
    rw [Expr.regular, Expr.withDestination]
    exact if_pos rfl
  rw [hd, Expr.ops, Expr.mentionsAll_regularAll, Expr.mentionsAll, Expr.mentionsAll,
    Expr.mentionsAll, Expr.mentionsAll, List.append_nil]
  rfl

/-- The identities of the variables that the operations name. -/
def Scope.ids (ops : List Op) : List Id :=
  ops.filterMap fun op => op.var?.map Prod.fst

namespace Scope

@[simp] theorem ids_append (ops ops' : List Op) : ids (ops ++ ops') = ids ops ++ ids ops' :=
  List.filterMap_append

@[simp] theorem ids_cons (op : Op) (ops : List Op) :
    ids (op :: ops) = (op.var?.map Prod.fst).toList ++ ids ops := by
  unfold ids
  cases h : op.var? <;> simp [h]

@[simp] theorem ids_nested (ops : List Op) : ids (nested ops) = ids ops := by
  simp [nested, Op.var?]
  rfl

private theorem ids_mentions_regular (ms : List Mention) :
    ids ((ms.map Mention.regular).map .mention) = ids (ms.map .mention) := by
  induction ms with
  | nil => rfl
  | cons m ms ih =>
    rw [List.map_cons, List.map_cons, List.map_cons, ids_cons, ids_cons, ih]
    cases m <;> rfl

end Scope

open Scope (ids)

theorem Call.var?_sinfoOp (c : Call) : c.sinfoOp.var? = none := by
  unfold sinfoOp
  split <;> rfl

private theorem Expr.ids_withDestination (v : Var) (e : Expr) (asBody : Bool) :
    ids ((e.withDestination v).ops asBody) = ids (e.ops asBody) := by
  cases e with
  | call =>
    rw [withDestination]
    split
    · simp [Expr.ops, Call.var?_sinfoOp]
    · rfl
  | _ => rfl

theorem Var.ids_regular (vs : List Var) :
    ids ((vs.map Var.regular).flatMap Var.paramOps) = ids (vs.flatMap Var.paramOps) := by
  induction vs with
  | nil => rfl
  | cons v vs ih => simp [ih, Var.paramOps, Scope.Op.var?, Var.regular]

mutual

theorem Expr.ids_regular (asBody : Bool) (e : Expr) :
    ids (e.regular.ops asBody) = ids (e.ops asBody) := by
  cases e with
  | leaf | var _ | shape | prim => rfl
  | tuple _ fields =>
    rw [Expr.regular, Expr.ops, Expr.ops, Expr.mentionsAll_regularAll, Scope.ids_mentions_regular]
  | item _ whole _ => exact whole.ids_regular false
  | call _ callee args _ _ =>
    rw [Expr.regular, Expr.ops, Expr.ops, Scope.ids_append, Scope.ids_append, Scope.ids_cons,
      Scope.ids_cons, callee.ids_regular false, Call.var?_sinfoOp, Call.var?_sinfoOp,
      Expr.mentionsAll_regularAll, Scope.ids_mentions_regular]
  | ite _ cond onTrue onFalse =>
    simp [Expr.regular, Expr.ops, cond.ids_regular false, onTrue.ids_regular true,
      onFalse.ids_regular true]
  | seq _ blocks body =>
    rw [Expr.regular, Expr.ops, Expr.ops]
    split
    · simp [Block.ids_regular blocks, body.ids_regular false]
    · rfl
  | function _ params body _ _ =>
    simp [Expr.regular, Expr.ops, Var.ids_regular params, body.ids_regular true]

theorem Binding.ids_regular (b : Binding) : ids b.regular.ops = ids b.ops := by
  cases b with
  | bind _ v value =>
    simp [Binding.regular, Binding.ops, Expr.ids_withDestination, value.ids_regular false,
      Scope.Op.var?, Var.regular]
  | cast _ v value sinfo =>
    simp [Binding.regular, Binding.ops, value.ids_regular false, Scope.Op.var?, Var.regular]

private theorem Binding.ids_regularAll (bs : List Binding) :
    ids (Binding.opsAll (Binding.regularAll bs)) = ids (Binding.opsAll bs) := by
  cases bs with
  | nil => rfl
  | cons b bs => simp [Binding.regularAll, Binding.opsAll, b.ids_regular, Binding.ids_regularAll bs]

theorem Block.ids_regular (bs : List Block) :
    ids (Block.opsAll (Block.regularAll bs)) = ids (Block.opsAll bs) := by
  match bs with
  | [] => rfl
  | .mk _ kind bindings :: bs =>
    have h := Binding.ids_regularAll bindings
    rw [Block.regularAll, Block.opsAll, Block.opsAll, Scope.ids_append, Scope.ids_append,
      Block.ids_regular bs, Block.regular, Block.ops, h]
    cases kind with
    | plain => rfl
    | dataflow =>
      cases bindings with
      | nil => rfl
      | cons b bindings => simp [Block.ops, Binding.opsAll, Scope.Op.var?]; rfl

end

end DataflowIR
