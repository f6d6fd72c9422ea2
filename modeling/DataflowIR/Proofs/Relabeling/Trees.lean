import DataflowIR.Build.Builder
import DataflowIR.Traversal.Fuel
import DataflowIR.Traversal.Transformer
import Mathlib.Logic.Equiv.Defs

namespace DataflowIR

variable (σ τ : Equiv.Perm Nat)

def Mark.relabel (m : Mark) : Mark :=
  ⟨σ m.tag, m.span⟩

def Node.relabel (n : Node) : Node :=
  ⟨n.toMark.relabel σ, n.sinfo⟩

def Id.relabel (id : Id) : Id :=
  ⟨σ id.index, id.hint⟩

def Var.relabel (v : Var) : Var :=
  ⟨v.node.relabel σ, v.id.relabel σ, v.dataflow⟩

mutual

def Expr.relabel : Expr → Expr
  | .leaf node content => .leaf (node.relabel σ) content
  | .var v => .var (v.relabel σ)
  | .shape node values => .shape (node.relabel σ) values
  | .prim node value dtype => .prim (node.relabel σ) value dtype
  | .tuple node fields => .tuple (node.relabel σ) (Expr.relabelAll fields)
  | .item node whole index => .item (node.relabel σ) whole.relabel index
  | .call node callee args attrs sinfoArgs =>
    .call (node.relabel σ) callee.relabel (Expr.relabelAll args) attrs sinfoArgs
  | .ite node cond onTrue onFalse =>
    .ite (node.relabel σ) cond.relabel onTrue.relabel onFalse.relabel
  | .seq node blocks body => .seq (node.relabel σ) (Block.relabelAll blocks) body.relabel
  | .function node params body ret attrs =>
    .function (node.relabel σ) (params.map (Var.relabel σ)) body.relabel ret attrs

def Expr.relabelAll : List Expr → List Expr
  | [] => []
  | e :: es => e.relabel :: Expr.relabelAll es

def Binding.relabel : Binding → Binding
  | .bind mark v value => .bind (mark.relabel σ) (v.relabel σ) value.relabel
  | .cast mark v value sinfo => .cast (mark.relabel σ) (v.relabel σ) value.relabel sinfo

def Binding.relabelAll : List Binding → List Binding
  | [] => []
  | b :: bs => b.relabel :: Binding.relabelAll bs

def Block.relabel : Block → Block
  | .mk mark kind bindings => .mk (mark.relabel σ) kind (Binding.relabelAll bindings)

def Block.relabelAll : List Block → List Block
  | [] => []
  | b :: bs => b.relabel :: Block.relabelAll bs

end

def Function.relabel (f : Function) : Function :=
  ⟨f.node.relabel σ, f.params.map (Var.relabel σ), f.body.relabel σ, f.ret, f.attrs⟩

def Call.relabel (c : Call) : Call :=
  ⟨c.node.relabel σ, c.callee.relabel σ, Expr.relabelAll σ c.args, c.attrs, c.sinfoArgs⟩

@[simp] theorem Expr.relabelAll_eq_map (es : List Expr) :
    Expr.relabelAll σ es = es.map (Expr.relabel σ) := by
  induction es with
  | nil => rfl
  | cons e es ih => exact congrArg (e.relabel σ :: ·) ih

@[simp] theorem Binding.relabelAll_eq_map (bs : List Binding) :
    Binding.relabelAll σ bs = bs.map (Binding.relabel σ) := by
  induction bs with
  | nil => rfl
  | cons b bs ih => exact congrArg (b.relabel σ :: ·) ih

@[simp] theorem Block.relabelAll_eq_map (bs : List Block) :
    Block.relabelAll σ bs = bs.map (Block.relabel σ) := by
  induction bs with
  | nil => rfl
  | cons b bs ih => exact congrArg (b.relabel σ :: ·) ih

@[simp] theorem Id.relabel_inj {id id' : Id} : id.relabel σ = id'.relabel σ ↔ id = id' := by
  cases id
  cases id'
  simp [Id.relabel]

theorem beq_relabel (m n : Nat) : (σ m == σ n) = (m == n) := by
  rw [Bool.eq_iff_iff, beq_iff_eq, beq_iff_eq, σ.apply_eq_iff_eq]

@[simp] theorem Id.relabel_beq (id id' : Id) : (id.relabel σ == id'.relabel σ) = (id == id') := by
  rw [Bool.eq_iff_iff, beq_iff_eq, beq_iff_eq, Id.relabel_inj]

namespace Var

@[simp] theorem id_relabel (v : Var) : (v.relabel σ).id = v.id.relabel σ := rfl

@[simp] theorem dataflow_relabel (v : Var) : (v.relabel σ).dataflow = v.dataflow := rfl

@[simp] theorem sinfo_relabel (v : Var) : (v.relabel σ).sinfo = v.sinfo := rfl

@[simp] theorem span_relabel (v : Var) : (v.relabel σ).span = v.span := rfl

@[simp] theorem sameAs_relabel (v w : Var) : (v.relabel σ).sameAs (w.relabel σ) = v.sameAs w :=
  beq_relabel σ v.tag w.tag

theorem relabel_withSinfo (v : Var) (tag : Nat) (i : StructInfo) :
    (v.withSinfo tag i).relabel σ = (v.relabel σ).withSinfo (σ tag) i := rfl

end Var

namespace Expr

theorem node_relabel (e : Expr) : (e.relabel σ).node = e.node.relabel σ := by
  cases e <;> rfl

@[simp] theorem tag_relabel (e : Expr) : (e.relabel σ).tag = σ e.tag := by
  rw [tag, node_relabel]
  rfl

@[simp] theorem span_relabel (e : Expr) : (e.relabel σ).span = e.span := by
  rw [span, node_relabel]
  rfl

@[simp] theorem sinfo_relabel (e : Expr) : (e.relabel σ).sinfo = e.sinfo := by
  rw [sinfo, node_relabel]
  rfl

@[simp] theorem sinfoOrObject_relabel (e : Expr) :
    (e.relabel σ).sinfoOrObject = e.sinfoOrObject := by
  rw [sinfoOrObject, sinfo_relabel, sinfoOrObject]

@[simp] theorem sameAs_relabel (a b : Expr) : (a.relabel σ).sameAs (b.relabel σ) = a.sameAs b := by
  rw [sameAs, tag_relabel, tag_relabel, beq_relabel, sameAs]

theorem relabel_withSinfo (e : Expr) (tag : Nat) (i : StructInfo) :
    (e.withSinfo tag i).relabel σ = (e.relabel σ).withSinfo (σ tag) i := by
  rw [withSinfo, withSinfo, span_relabel]
  cases e <;> rfl

@[simp] theorem toExpr_relabel (f : Function) : (f.relabel σ).toExpr = f.toExpr.relabel σ :=
  rfl

theorem asFunction?_relabel (e : Expr) :
    (e.relabel σ).asFunction? = e.asFunction?.map (Function.relabel σ) := by
  cases e <;> rfl

theorem asCall?_relabel (e : Expr) :
    (e.relabel σ).asCall? = e.asCall?.map (Call.relabel σ) := by
  cases e <;> rfl

theorem asVar?_relabel (e : Expr) : (e.relabel σ).asVar? = e.asVar?.map (Var.relabel σ) := by
  cases e <;> rfl

theorem asTuple?_relabel (e : Expr) :
    (e.relabel σ).asTuple? = e.asTuple?.map (List.map (Expr.relabel σ)) := by
  cases e with
  | tuple => exact congrArg some (Expr.relabelAll_eq_map σ _)
  | _ => rfl

@[simp] theorem asOp?_relabel (e : Expr) : (e.relabel σ).asOp? = e.asOp? := by
  cases e with
  | leaf node content => cases content <;> rfl
  | _ => rfl

end Expr

namespace Binding

@[simp] theorem var_relabel (b : Binding) : (b.relabel σ).var = b.var.relabel σ := by
  cases b <;> rfl

@[simp] theorem sameAs_relabel (b c : Binding) :
    (b.relabel σ).sameAs (c.relabel σ) = b.sameAs c := by
  cases b <;> cases c <;> exact beq_relabel σ _ _

end Binding

namespace Block

@[simp] theorem kind_relabel (b : Block) : (b.relabel σ).kind = b.kind := by
  cases b
  rfl

@[simp] theorem span_relabel (b : Block) : (b.relabel σ).span = b.span := by
  cases b
  rfl

@[simp] theorem tag_relabel (b : Block) : (b.relabel σ).tag = σ b.tag := by
  cases b
  rfl

@[simp] theorem bindings_relabel (b : Block) :
    (b.relabel σ).bindings = b.bindings.map (Binding.relabel σ) := by
  cases b
  exact Binding.relabelAll_eq_map σ _

@[simp] theorem sameAs_relabel (b c : Block) : (b.relabel σ).sameAs (c.relabel σ) = b.sameAs c := by
  rw [sameAs, tag_relabel, tag_relabel, beq_relabel, sameAs]

theorem relabel_withMark (b : Block) (m : Mark) :
    (b.withMark m).relabel σ = (b.relabel σ).withMark (m.relabel σ) := by
  cases b
  rfl

end Block

theorem Transformer.allSame_map {α : Type} {same : α → α → Bool} {g : α → α}
    (h : ∀ a b, same (g a) (g b) = same a b) (as bs : List α) :
    allSame same (as.map g) (bs.map g) = allSame same as bs := by
  induction as generalizing bs with
  | nil => cases bs <;> rfl
  | cons a as ih =>
    cases bs with
    | nil => rfl
    | cons b bs => rw [List.map_cons, List.map_cons, allSame, allSame, h, ih]

/-- Struct info is read off the struct info of parts, which has no labels. -/
@[simp] theorem sinfos?_relabel (es : List Expr) :
    sinfos? (es.map (Expr.relabel σ)) = sinfos? es := by
  induction es with
  | nil => rfl
  | cons e es ih => rw [List.map_cons, sinfos?, sinfos?, ih, Expr.sinfo_relabel]

@[simp] theorem itemSinfo?_relabel (e : Expr) (index : Nat) :
    itemSinfo? (e.relabel σ) index = itemSinfo? e index := by
  rw [itemSinfo?, itemSinfo?, Expr.sinfo_relabel]

@[simp] theorem functionSinfo_relabel (params : List Var) (ret : StructInfo) :
    functionSinfo (params.map (Var.relabel σ)) ret = functionSinfo params ret := by
  simp [functionSinfo, Function.comp_def]

namespace Expr

variable (m : Mark)

theorem relabel_mkTuple (fields : List Expr) :
    (mkTuple m fields).relabel σ = mkTuple (m.relabel σ) (fields.map (Expr.relabel σ)) := by
  rw [mkTuple, mkTuple, sinfos?_relabel, ← relabelAll_eq_map]
  rfl

theorem relabel_mkItem (whole : Expr) (index : Nat) :
    (mkItem m whole index).relabel σ = mkItem (m.relabel σ) (whole.relabel σ) index := by
  rw [mkItem, mkItem, itemSinfo?_relabel]
  rfl

theorem relabel_mkCall (callee : Expr) (args : List Expr) (attrs : Option Attrs)
    (sinfoArgs : List StructInfo) : (mkCall m callee args attrs sinfoArgs).relabel σ =
      mkCall (m.relabel σ) (callee.relabel σ) (args.map (Expr.relabel σ)) attrs sinfoArgs := by
  rw [← relabelAll_eq_map]
  rfl

theorem relabel_mkSeq (blocks : List Block) (body : Expr) : (mkSeq m blocks body).relabel σ =
    mkSeq (m.relabel σ) (blocks.map (Block.relabel σ)) (body.relabel σ) := by
  rw [mkSeq, mkSeq, sinfo_relabel, ← Block.relabelAll_eq_map]
  rfl

theorem relabel_mkFunction (params : List Var) (body : Expr) (ret : Option StructInfo)
    (attrs : Attrs) : (mkFunction m params body ret attrs).relabel σ =
      mkFunction (m.relabel σ) (params.map (Var.relabel σ)) (body.relabel σ) ret attrs := by
  rw [mkFunction, mkFunction, sinfoOrObject_relabel, functionSinfo_relabel]
  rfl

end Expr

mutual

theorem Expr.relabel_relabel (e : Expr) : (e.relabel σ).relabel τ = e.relabel (σ.trans τ) := by
  cases e with
  | leaf | var _ | shape | prim => rfl
  | tuple _ fields => exact congrArg (Expr.tuple _) (Expr.relabelAll_relabelAll fields)
  | item _ whole _ => exact congrArg (Expr.item _ · _) whole.relabel_relabel
  | call _ callee args _ _ =>
    exact congrArg₂ (Expr.call _ · · _ _) callee.relabel_relabel (Expr.relabelAll_relabelAll args)
  | ite _ cond onTrue onFalse =>
    simp only [Expr.relabel, cond.relabel_relabel, onTrue.relabel_relabel,
      onFalse.relabel_relabel]
    rfl
  | seq _ blocks body =>
    exact congrArg₂ (Expr.seq _) (Block.relabelAll_relabelAll blocks) body.relabel_relabel
  | function _ params body _ _ =>
    simp only [Expr.relabel, body.relabel_relabel, List.map_map]
    rfl

theorem Expr.relabelAll_relabelAll (es : List Expr) :
    Expr.relabelAll τ (Expr.relabelAll σ es) = Expr.relabelAll (σ.trans τ) es := by
  cases es with
  | nil => rfl
  | cons e es =>
    refine congrArg₂ List.cons e.relabel_relabel ?_
    exact Expr.relabelAll_relabelAll es

theorem Binding.relabel_relabel (b : Binding) :
    (b.relabel σ).relabel τ = b.relabel (σ.trans τ) := by
  cases b with
  | bind _ _ value => exact congrArg (Binding.bind _ _) value.relabel_relabel
  | cast _ _ value _ => exact congrArg (Binding.cast _ _ · _) value.relabel_relabel

theorem Binding.relabelAll_relabelAll (bs : List Binding) :
    Binding.relabelAll τ (Binding.relabelAll σ bs) = Binding.relabelAll (σ.trans τ) bs := by
  cases bs with
  | nil => rfl
  | cons b bs =>
    refine congrArg₂ List.cons b.relabel_relabel ?_
    exact Binding.relabelAll_relabelAll bs

theorem Block.relabel_relabel (b : Block) : (b.relabel σ).relabel τ = b.relabel (σ.trans τ) := by
  cases b with
  | mk _ _ bindings => exact congrArg (Block.mk _ _) (Binding.relabelAll_relabelAll bindings)

theorem Block.relabelAll_relabelAll (bs : List Block) :
    Block.relabelAll τ (Block.relabelAll σ bs) = Block.relabelAll (σ.trans τ) bs := by
  cases bs with
  | nil => rfl
  | cons b bs =>
    refine congrArg₂ List.cons b.relabel_relabel ?_
    exact Block.relabelAll_relabelAll bs

end

mutual

@[simp] theorem Expr.size_relabel (e : Expr) : (e.relabel σ).size = e.size := by
  cases e with
  | leaf | var _ | shape | prim => rfl
  | tuple _ fields => exact congrArg (1 + ·) (Expr.sizeOfList_relabelAll fields)
  | item _ whole _ => exact congrArg (1 + ·) whole.size_relabel
  | call _ callee args _ _ =>
    rw [Expr.relabel, Expr.size, Expr.size, callee.size_relabel, Expr.sizeOfList_relabelAll args]
  | ite _ cond onTrue onFalse =>
    rw [Expr.relabel, Expr.size, Expr.size, cond.size_relabel, onTrue.size_relabel,
      onFalse.size_relabel]
  | seq _ blocks body =>
    rw [Expr.relabel, Expr.size, Expr.size, Block.sizeOfList_relabelAll blocks, body.size_relabel]
  | function _ _ body _ _ => exact congrArg (1 + ·) body.size_relabel

theorem Expr.sizeOfList_relabelAll (es : List Expr) :
    Expr.sizeOfList (Expr.relabelAll σ es) = Expr.sizeOfList es := by
  cases es with
  | nil => rfl
  | cons e es => exact congrArg₂ (· + ·) e.size_relabel (Expr.sizeOfList_relabelAll es)

theorem Binding.size_relabel (b : Binding) : (b.relabel σ).size = b.size := by
  cases b with
  | bind _ _ value | cast _ _ value _ => exact congrArg (1 + ·) value.size_relabel

theorem Binding.sizeOfList_relabelAll (bs : List Binding) :
    Binding.sizeOfList (Binding.relabelAll σ bs) = Binding.sizeOfList bs := by
  cases bs with
  | nil => rfl
  | cons b bs =>
    refine congrArg₂ (· + ·) b.size_relabel ?_
    exact Binding.sizeOfList_relabelAll bs

theorem Block.size_relabel (b : Block) : (b.relabel σ).size = b.size := by
  cases b with
  | mk _ _ bindings => exact congrArg (1 + ·) (Binding.sizeOfList_relabelAll bindings)

theorem Block.sizeOfList_relabelAll (bs : List Block) :
    Block.sizeOfList (Block.relabelAll σ bs) = Block.sizeOfList bs := by
  cases bs with
  | nil => rfl
  | cons b bs =>
    refine congrArg₂ (· + ·) b.size_relabel ?_
    exact Block.sizeOfList_relabelAll bs

end

@[simp] theorem Expr.fuel_relabel (e : Expr) : (e.relabel σ).fuel = e.fuel := by
  rw [Expr.fuel_eq_ofNat, Expr.fuel_eq_ofNat, Expr.size_relabel]

def Var.labels (v : Var) : List Nat :=
  [v.tag, v.id.index]

mutual

/-- The labels of an expression: its tags, and the indices of its variables. -/
def Expr.labels : Expr → List Nat
  | .leaf node _ | .shape node _ | .prim node _ _ => [node.tag]
  | .var v => v.labels
  | .tuple node fields => node.tag :: Expr.labelsAll fields
  | .item node whole _ => node.tag :: whole.labels
  | .call node callee args _ _ => node.tag :: (callee.labels ++ Expr.labelsAll args)
  | .ite node cond onTrue onFalse =>
    node.tag :: (cond.labels ++ (onTrue.labels ++ onFalse.labels))
  | .seq node blocks body => node.tag :: (Block.labelsAll blocks ++ body.labels)
  | .function node params body _ _ => node.tag :: (params.flatMap Var.labels ++ body.labels)

def Expr.labelsAll : List Expr → List Nat
  | [] => []
  | e :: es => e.labels ++ Expr.labelsAll es

def Binding.labels : Binding → List Nat
  | .bind mark v value | .cast mark v value _ => mark.tag :: (v.labels ++ value.labels)

def Binding.labelsAll : List Binding → List Nat
  | [] => []
  | b :: bs => b.labels ++ Binding.labelsAll bs

def Block.labels : Block → List Nat
  | .mk mark _ bindings => mark.tag :: Binding.labelsAll bindings

def Block.labelsAll : List Block → List Nat
  | [] => []
  | b :: bs => b.labels ++ Block.labelsAll bs

end

/-- The permutation fixes all the labels. -/
def Fixes (labels : List Nat) : Prop :=
  ∀ k ∈ labels, σ k = k

variable {σ}

namespace Fixes

theorem append {xs ys : List Nat} (h : Fixes σ (xs ++ ys)) : Fixes σ xs ∧ Fixes σ ys :=
  List.forall_mem_append.mp h

theorem parts {k : Nat} {xs : List Nat} (h : Fixes σ (k :: xs)) : Fixes σ xs :=
  (List.forall_mem_cons.mp h).2

theorem mark {m : Mark} {xs : List Nat} (h : Fixes σ (m.tag :: xs)) : m.relabel σ = m := by
  rw [Mark.relabel, (List.forall_mem_cons.mp h).1]

theorem node {n : Node} {xs : List Nat} (h : Fixes σ (n.tag :: xs)) : n.relabel σ = n := by
  rw [Node.relabel, h.mark]

theorem var {v : Var} (h : Fixes σ v.labels) : v.relabel σ = v := by
  have hn : v.node.relabel σ = v.node := h.node
  have hi : σ v.id.index = v.id.index := h _ (List.mem_cons_of_mem _ List.mem_cons_self)
  rw [Var.relabel, hn, Id.relabel, hi]

theorem vars {vs : List Var} (h : Fixes σ (vs.flatMap Var.labels)) :
    vs.map (Var.relabel σ) = vs := by
  refine (List.map_congr_left ?_).trans (List.map_id vs)
  intro v hv
  exact var fun k hk => h k (List.mem_flatMap.mpr ⟨v, hv, hk⟩)

end Fixes

mutual

/-- What the labels of a tree are fixed by, the tree is fixed by. -/
theorem Expr.relabel_eq_self (e : Expr) (h : Fixes σ e.labels) : e.relabel σ = e := by
  cases e with
  | leaf => exact congrArg (Expr.leaf · _) h.node
  | var _ => exact congrArg Expr.var h.var
  | shape => exact congrArg (Expr.shape · _) h.node
  | prim => exact congrArg (Expr.prim · _ _) h.node
  | tuple _ fields => rw [Expr.relabel, h.node, Expr.relabelAll_eq_self fields h.parts]
  | item _ whole _ => rw [Expr.relabel, h.node, whole.relabel_eq_self h.parts]
  | call _ callee args _ _ =>
    rw [Expr.relabel, h.node, callee.relabel_eq_self h.parts.append.1,
      Expr.relabelAll_eq_self args h.parts.append.2]
  | ite _ cond onTrue onFalse =>
    rw [Expr.relabel, h.node, cond.relabel_eq_self h.parts.append.1,
      onTrue.relabel_eq_self h.parts.append.2.append.1,
      onFalse.relabel_eq_self h.parts.append.2.append.2]
  | seq _ blocks body =>
    rw [Expr.relabel, h.node, Block.relabelAll_eq_self blocks h.parts.append.1,
      body.relabel_eq_self h.parts.append.2]
  | function _ _ body _ _ =>
    rw [Expr.relabel, h.node, h.parts.append.1.vars, body.relabel_eq_self h.parts.append.2]

theorem Expr.relabelAll_eq_self (es : List Expr) (h : Fixes σ (Expr.labelsAll es)) :
    Expr.relabelAll σ es = es := by
  cases es with
  | nil => rfl
  | cons e es =>
    rw [Expr.relabelAll, e.relabel_eq_self h.append.1, Expr.relabelAll_eq_self es h.append.2]

theorem Binding.relabel_eq_self (b : Binding) (h : Fixes σ b.labels) : b.relabel σ = b := by
  cases b with
  | bind _ _ value =>
    rw [Binding.relabel, h.mark, h.parts.append.1.var, value.relabel_eq_self h.parts.append.2]
  | cast _ _ value _ =>
    rw [Binding.relabel, h.mark, h.parts.append.1.var, value.relabel_eq_self h.parts.append.2]

theorem Binding.relabelAll_eq_self (bs : List Binding) (h : Fixes σ (Binding.labelsAll bs)) :
    Binding.relabelAll σ bs = bs := by
  cases bs with
  | nil => rfl
  | cons b bs =>
    rw [Binding.relabelAll, b.relabel_eq_self h.append.1, Binding.relabelAll_eq_self bs h.append.2]

theorem Block.relabel_eq_self (b : Block) (h : Fixes σ b.labels) : b.relabel σ = b := by
  cases b with
  | mk _ _ bindings => rw [Block.relabel, h.mark, Binding.relabelAll_eq_self bindings h.parts]

theorem Block.relabelAll_eq_self (bs : List Block) (h : Fixes σ (Block.labelsAll bs)) :
    Block.relabelAll σ bs = bs := by
  cases bs with
  | nil => rfl
  | cons b bs =>
    rw [Block.relabelAll, b.relabel_eq_self h.append.1, Block.relabelAll_eq_self bs h.append.2]

end

end DataflowIR
