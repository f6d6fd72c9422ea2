import DataflowIR.Proofs.Rewrite.Apply

namespace DataflowIR

inductive Part where
  | field (i : Nat)
  | whole
  | callee
  | arg (i : Nat)
  | cond
  | onTrue
  | onFalse
  | value (block binding : Nat)
  | result
  | body
  deriving DecidableEq, Inhabited

/-- The blocks that have bindings. -/
def Block.filled (blocks : List Block) : List Block :=
  blocks.filter fun b => !b.bindings.isEmpty

@[simp] theorem Block.filled_filled (blocks : List Block) :
    Block.filled (Block.filled blocks) = Block.filled blocks := by
  simp [Block.filled]

namespace Expr

def blocks : Expr → List Block
  | seq _ blocks _ => blocks
  | _ => []

def bindingAt? (e : Expr) (block binding : Nat) : Option Binding :=
  (Block.filled e.blocks)[block]?.bind (·.bindings[binding]?)

def part? (e : Expr) : Part → Option Expr
  | .field i => match e with | tuple _ fields => fields[i]? | _ => none
  | .whole => match e with | item _ whole _ => some whole | _ => none
  | .callee => match e with | call _ callee _ _ _ => some callee | _ => none
  | .arg i => match e with | call _ _ args _ _ => args[i]? | _ => none
  | .cond => match e with | ite _ cond _ _ => some cond | _ => none
  | .onTrue => match e with | ite _ _ onTrue _ => some onTrue | _ => none
  | .onFalse => match e with | ite _ _ _ onFalse => some onFalse | _ => none
  | .value i j => (e.bindingAt? i j).map Binding.value
  | .result => match e with | seq _ _ body => some body | _ => none
  | .body => match e with | function _ _ body _ _ => some body | _ => none

def at? (e : Expr) : List Part → Option Expr
  | [] => some e
  | part :: path => (e.part? part).bind (·.at? path)

def params : Expr → List Var
  | function _ params _ _ _ => params
  | _ => []

/-- The struct info that the parts of a node alone determine. -/
def ownSinfo? : Expr → Option StructInfo
  | tuple _ fields => (sinfos? fields).map .tuple
  | item _ whole index => itemSinfo? whole index
  | seq _ _ body => body.sinfo
  | function _ params _ ret _ => some (functionSinfo params ret)
  | _ => none

/-- The struct info of the node is what its parts determine, or else what is inferred. -/
def Derived (e : Expr) : Prop :=
  ∃ s, e.sinfo = some s ∧
    (e.ownSinfo? = some s ∨ e.ownSinfo? = none ∧ Rules.standard.infer e = .ok s)

/-- At one of the parts there is another node now. -/
def PartReplaced (e e' : Expr) : Prop :=
  ∃ part a a', e.part? part = some a ∧ e'.part? part = some a' ∧ a'.sameAs a = false

@[simp] theorem part?_withNode (n : Node) (e : Expr) : (e.withNode n).part? = e.part? := by
  funext part
  cases e <;> cases part <;> rfl

@[simp] theorem bindingAt?_withNode (n : Node) (e : Expr) :
    (e.withNode n).bindingAt? = e.bindingAt? := by
  cases e <;> rfl

@[simp] theorem params_withNode (n : Node) (e : Expr) : (e.withNode n).params = e.params := by
  cases e <;> rfl

@[simp] theorem kind_withNode (n : Node) (e : Expr) : (e.withNode n).kind = e.kind := by
  cases e <;> rfl

@[simp] theorem ownSinfo?_withNode (n : Node) (e : Expr) :
    (e.withNode n).ownSinfo? = e.ownSinfo? := by
  cases e <;> rfl

end Expr

section Lists

variable {α : Type} {R : α → α → Prop} {l l' : List α}

theorem exists_getElem?_of_forall₂ (h : List.Forall₂ R l l') {i : Nat} {a : α}
    (ha : l[i]? = some a) : ∃ a', l'[i]? = some a' ∧ R a a' := by
  induction h generalizing i with
  | nil => simp at ha
  | cons hr _ ih =>
    cases i with
    | zero =>
      cases ha
      exact ⟨_, rfl, hr⟩
    | succ i => exact ih ha

/-- Where two lists do not hold the same nodes, they differ at some place. -/
theorem exists_replaced (h : List.Forall₂ R l l') {same : α → α → Bool}
    (hs : Transformer.allSame same l' l = false) :
    ∃ (i : Nat) (a a' : α), l[i]? = some a ∧ l'[i]? = some a' ∧ same a' a = false ∧ R a a' := by
  induction h with
  | nil => simp [Transformer.allSame] at hs
  | @cons a a' as as' hr _ ih =>
    cases ha : same a' a with
    | false => exact ⟨0, a, a', rfl, rfl, ha, hr⟩
    | true =>
      rw [Transformer.allSame, ha, Bool.true_and] at hs
      obtain ⟨i, b, b', hb, hb', hbs, hbr⟩ := ih hs
      exact ⟨i + 1, b, b', hb, hb', hbs, hbr⟩

/-- Dropping elements that are the same node in both lists leaves the others different. -/
theorem allSame_filter (h : List.Forall₂ R l l') {same : α → α → Bool} (keep : α → Bool)
    (hk : ∀ a a', R a a' → same a' a = false → keep a)
    (hr : ∀ a a', R a a' → keep a' = keep a)
    (hs : Transformer.allSame same l' l = false) :
    Transformer.allSame same (l'.filter keep) (l.filter keep) = false := by
  induction h with
  | nil => simp [Transformer.allSame] at hs
  | @cons a a' as as' ha _ ih =>
    cases hsame : same a' a with
    | false =>
      have hka := hk a a' ha hsame
      rw [List.filter_cons_of_pos hka, List.filter_cons_of_pos ((hr a a' ha).trans hka),
        Transformer.allSame, hsame, Bool.false_and]
    | true =>
      rw [Transformer.allSame, hsame, Bool.true_and] at hs
      have ih := ih hs
      cases hka : keep a with
      | false =>
        have hka' : keep a' = false := (hr a a' ha).trans hka
        rwa [List.filter_cons_of_neg (by simp [hka']), List.filter_cons_of_neg (by simp [hka])]
      | true =>
        have hka' : keep a' = true := (hr a a' ha).trans hka
        rwa [List.filter_cons_of_pos hka, List.filter_cons_of_pos hka', Transformer.allSame, hsame,
          Bool.true_and]

end Lists

end DataflowIR
