import DataflowIR.Module
import Mathlib.Logic.Function.Basic

namespace DataflowIR

universe u

variable {V : Type u}

/-- An interpretation in values `V`. A call, a field or a condition may have no value. Nothing is
asked of `apply` on closures, so the meaning of calls of functions is free. -/
structure Semantics (V : Type u) where
  leaf : Leaf → V
  shape : List Dim → V
  prim : Dim → DType → V
  tuple : List V → V
  item : V → Nat → Option V
  branch : V → Option Bool
  apply : V → List V → Option V
  closure : (List V → Option V) → V

/-- A call of the operator. -/
def Semantics.applyOp (S : Semantics V) (name : String) (args : List V) : Option V :=
  S.apply (S.leaf (.op name)) args

/-- A fused call is a product followed by a sum. -/
def Semantics.Fuses (S : Semantics V) : Prop :=
  ∀ a b c, S.applyOp "relax.ewise_fma" [a, b, c] =
    (S.applyOp "relax.multiply" [a, b]).bind fun p => S.applyOp "relax.add" [p, c]

abbrev Env (V : Type u) := Id → Option V

namespace Env

def empty : Env V := fun _ => none

def bind (env : Env V) (v : Var) (x : V) : Env V :=
  Function.update env v.id (some x)

/-- The parameters stand for the arguments, of which there are as many. -/
def bindAll (env : Env V) : List Var → List V → Option (Env V)
  | [], [] => some env
  | v :: vs, x :: xs => (env.bind v x).bindAll vs xs
  | _, _ => none

end Env

variable (S : Semantics V)

mutual

def Expr.eval : Expr → Env V → Option V
  | .leaf _ content, _ => some (S.leaf content)
  | .var v, env => env v.id
  | .shape _ values, _ => some (S.shape values)
  | .prim _ value dtype, _ => some (S.prim value dtype)
  | .tuple _ fields, env => (Expr.evalAll fields env).map S.tuple
  | .item _ whole index, env => (whole.eval env).bind (S.item · index)
  | .call _ callee args _ _, env =>
    (callee.eval env).bind fun f => (Expr.evalAll args env).bind (S.apply f)
  | .ite _ cond onTrue onFalse, env =>
    ((cond.eval env).bind S.branch).bind fun b => if b then onTrue.eval env else onFalse.eval env
  | .seq _ blocks body, env => (Block.evalAll blocks env).bind fun env => body.eval env
  | .function _ params body _ _, env =>
    some (S.closure fun args => (env.bindAll params args).bind fun env => body.eval env)

def Expr.evalAll : List Expr → Env V → Option (List V)
  | [], _ => some []
  | e :: es, env => (e.eval env).bind fun x => (Expr.evalAll es env).map (x :: ·)

/-- The environment after the binding. -/
def Binding.eval : Binding → Env V → Option (Env V)
  | .bind _ v value, env => (value.eval env).map (env.bind v)
  | .cast _ v value _, env => (value.eval env).map (env.bind v)

def Binding.evalAll : List Binding → Env V → Option (Env V)
  | [], env => some env
  | b :: bs, env => (b.eval env).bind fun env => Binding.evalAll bs env

def Block.eval : Block → Env V → Option (Env V)
  | .mk _ _ bindings, env => Binding.evalAll bindings env

def Block.evalAll : List Block → Env V → Option (Env V)
  | [], env => some env
  | b :: bs, env => (b.eval env).bind fun env => Block.evalAll bs env

end

/-- The value of the function at the arguments. -/
def Function.call (f : Function) (args : List V) : Option V :=
  (Env.empty.bindAll f.params args).bind fun env => f.body.eval S env

def Module.call (m : Module) (name : String) (args : List V) : Option V :=
  (m.get? name).bind fun f => f.call S args

/-- How a variable is defined. Only a bound variable has a value of its own on record. -/
inductive Role where
  | parameter
  | bound
  | cast
  deriving DecidableEq, Inhabited

mutual

/-- The definitions in the expression, in their order. -/
def Expr.definitions : Expr → List (Role × Id)
  | .leaf .. | .var _ | .shape .. | .prim .. => []
  | .tuple _ fields => Expr.definitionsAll fields
  | .item _ whole _ => whole.definitions
  | .call _ callee args _ _ => callee.definitions ++ Expr.definitionsAll args
  | .ite _ cond onTrue onFalse => cond.definitions ++ (onTrue.definitions ++ onFalse.definitions)
  | .seq _ blocks body => Block.definitionsAll blocks ++ body.definitions
  | .function _ params body _ _ => params.map (fun v => (.parameter, v.id)) ++ body.definitions

def Expr.definitionsAll : List Expr → List (Role × Id)
  | [] => []
  | e :: es => e.definitions ++ Expr.definitionsAll es

def Binding.definitions : Binding → List (Role × Id)
  | .bind _ v value => value.definitions ++ [(.bound, v.id)]
  | .cast _ v value _ => value.definitions ++ [(.cast, v.id)]

def Binding.definitionsAll : List Binding → List (Role × Id)
  | [] => []
  | b :: bs => b.definitions ++ Binding.definitionsAll bs

def Block.definitions : Block → List (Role × Id)
  | .mk _ _ bindings => Binding.definitionsAll bindings

def Block.definitionsAll : List Block → List (Role × Id)
  | [] => []
  | b :: bs => b.definitions ++ Block.definitionsAll bs

end

/-- The identities that the module binds, each as often as it is bound. -/
def Module.binders (m : Module) : List Id :=
  (m.toList.flatMap fun e => e.2.toExpr.definitions).map Prod.snd

end DataflowIR
