import DataflowIR.Expr.Make

namespace DataflowIR

/-- Variables of the left side with the variables of the right side that they stand for. -/
abbrev Renaming := IdTable Id

namespace Renaming

/-- Let the two variables stand for each other, if they are of one kind and struct info. -/
def define (r : Renaming) (v w : Var) : Option Renaming :=
  if v.dataflow = w.dataflow ∧ v.sinfo = w.sinfo then some (r.insert v.id w.id) else none

def defineAll (r : Renaming) : List Var → List Var → Option Renaming
  | [], [] => some r
  | v :: vs, w :: ws => (r.define v w).bind fun r => r.defineAll vs ws
  | _, _ => none

/-- Whether a use of `v` corresponds to a use of `w`. -/
def agrees (r : Renaming) (v w : Var) : Bool :=
  v.dataflow == w.dataflow && (r.get? v.id).getD v.id == w.id

end Renaming

def Leaf.equal : Leaf → Leaf → Bool
  | constant values dims elem, constant values' dims' elem' =>
    values == values' && dims == dims' && elem == elem'
  | runtimeShape, runtimeShape => true
  | externFunc symbol, externFunc symbol' => symbol == symbol'
  | globalVar name, globalVar name' => name == name'
  | op name, op name' => name == name'
  | str value, str value' => value == value'
  | dtype value, dtype value' => value == value'
  | _, _ => false

/-- Go on with the renaming if the test holds. -/
def Renaming.given (r : Renaming) (test : Bool) : Option Renaming :=
  if test then some r else none

mutual

/-- The renaming after both sides were compared, if they are equal. One node is equal to itself,
whatever its parts. -/
def Expr.match? (r : Renaming) (a b : Expr) : Option Renaming :=
  if a.sameAs b then some r else
  match a, b with
  | .leaf _ l, .leaf _ l' => r.given (l.equal l')
  | .var v, .var w => r.given (r.agrees v w)
  | .shape _ values, .shape _ values' => r.given (values == values')
  | .prim _ value dtype, .prim _ value' dtype' => r.given (value == value' && dtype == dtype')
  | .tuple _ fields, .tuple _ fields' => Expr.matchAll? r fields fields'
  | .item _ whole index, .item _ whole' index' =>
    if index == index' then Expr.match? r whole whole' else none
  | .call _ callee args attrs sinfoArgs, .call _ callee' args' attrs' sinfoArgs' =>
    if attrs == attrs' && sinfoArgs == sinfoArgs' then
      (Expr.match? r callee callee').bind fun r => Expr.matchAll? r args args'
    else none
  | .ite _ cond onTrue onFalse, .ite _ cond' onTrue' onFalse' =>
    (Expr.match? r cond cond').bind fun r =>
      (Expr.match? r onTrue onTrue').bind fun r => Expr.match? r onFalse onFalse'
  | .seq _ blocks body, .seq _ blocks' body' =>
    (Block.matchAll? r blocks blocks').bind fun r => Expr.match? r body body'
  | .function _ params body ret attrs, .function _ params' body' ret' attrs' =>
    (r.defineAll params params').bind fun r =>
      if ret == ret' && attrs == attrs' then Expr.match? r body body' else none
  | _, _ => none

def Expr.matchAll? (r : Renaming) : List Expr → List Expr → Option Renaming
  | [], [] => some r
  | a :: as, b :: bs => (Expr.match? r a b).bind fun r => Expr.matchAll? r as bs
  | _, _ => none

def Binding.match? (r : Renaming) : Binding → Binding → Option Renaming
  | .bind _ v value, .bind _ w value' => (Expr.match? r value value').bind fun r => r.define v w
  | .cast _ v value sinfo, .cast _ w value' sinfo' =>
    if sinfo == sinfo' then (Expr.match? r value value').bind fun r => r.define v w else none
  | _, _ => none

def Binding.matchAll? (r : Renaming) : List Binding → List Binding → Option Renaming
  | [], [] => some r
  | a :: as, b :: bs => (Binding.match? r a b).bind fun r => Binding.matchAll? r as bs
  | _, _ => none

def Block.match? (r : Renaming) : Block → Block → Option Renaming
  | .mk _ kind bindings, .mk _ kind' bindings' =>
    if kind == kind' then Binding.matchAll? r bindings bindings' else none

def Block.matchAll? (r : Renaming) : List Block → List Block → Option Renaming
  | [], [] => some r
  | a :: as, b :: bs => (Block.match? r a b).bind fun r => Block.matchAll? r as bs
  | _, _ => none

end

/-- Whether the expressions are equal up to the identity of bound variables. Variables match when they
are defined at the same position, with equal struct info; a free variable matches only itself. -/
def Expr.alphaEq (a b : Expr) : Bool :=
  (Expr.match? .empty a b).isSome

end DataflowIR
