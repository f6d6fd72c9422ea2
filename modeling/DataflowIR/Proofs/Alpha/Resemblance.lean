import DataflowIR.Proofs.Alpha.Forms

namespace DataflowIR

/-- Two nodes at one place of two expressions, with the identities bound around each, the latest
first. -/
structure Meeting where
  left : Expr
  right : Expr
  outerLeft : List Id
  outerRight : List Id

namespace Meeting

/-- It is one node that is in both. -/
def Shared (m : Meeting) : Prop :=
  m.left.sameAs m.right

/-- The variables of both nodes are those of the same binders. -/
def Faithful (m : Meeting) : Prop :=
  m.left.form m.outerLeft = m.right.form m.outerRight

def swap (m : Meeting) : Meeting :=
  ⟨m.right, m.left, m.outerRight, m.outerLeft⟩

end Meeting

mutual

/-- The variables and the nodes that are in both, from above, at which a comparison of `a` inside
the binders `bs` with `b` inside the binders `cs` goes no further. -/
def Expr.meetings (bs cs : List Id) (a b : Expr) : List Meeting :=
  if a.sameAs b then [⟨a, b, bs, cs⟩] else
  match a, b with
  | .var v, .var w => [⟨.var v, .var w, bs, cs⟩]
  | .tuple _ fields, .tuple _ fields' => Expr.meetingsAll bs cs fields fields'
  | .item _ whole _, .item _ whole' _ => Expr.meetings bs cs whole whole'
  | .call _ callee args _ _, .call _ callee' args' _ _ =>
    Expr.meetings bs cs callee callee' ++ Expr.meetingsAll bs cs args args'
  | .ite _ cond onTrue onFalse, .ite _ cond' onTrue' onFalse' =>
    Expr.meetings bs cs cond cond' ++
      (Expr.meetings bs cs onTrue onTrue' ++ Expr.meetings bs cs onFalse onFalse')
  | .seq _ blocks body, .seq _ blocks' body' =>
    Block.meetingsAll bs cs blocks blocks' ++
      Expr.meetings (Var.enter bs (blocks.flatMap Block.vars))
        (Var.enter cs (blocks'.flatMap Block.vars)) body body'
  | .function _ params body _ _, .function _ params' body' _ _ =>
    Expr.meetings (Var.enter bs params) (Var.enter cs params') body body'
  | _, _ => []

def Expr.meetingsAll (bs cs : List Id) : List Expr → List Expr → List Meeting
  | a :: as, b :: rest => Expr.meetings bs cs a b ++ Expr.meetingsAll bs cs as rest
  | _, _ => []

def Binding.meetings (bs cs : List Id) : Binding → Binding → List Meeting
  | .bind _ _ value, .bind _ _ value' => Expr.meetings bs cs value value'
  | .cast _ _ value _, .cast _ _ value' _ => Expr.meetings bs cs value value'
  | _, _ => []

def Binding.meetingsAll (bs cs : List Id) : List Binding → List Binding → List Meeting
  | a :: as, b :: rest =>
    Binding.meetings bs cs a b ++
      Binding.meetingsAll (Var.enter bs [a.var]) (Var.enter cs [b.var]) as rest
  | _, _ => []

def Block.meetings (bs cs : List Id) : Block → Block → List Meeting
  | .mk _ _ bindings, .mk _ _ bindings' => Binding.meetingsAll bs cs bindings bindings'

def Block.meetingsAll (bs cs : List Id) : List Block → List Block → List Meeting
  | a :: as, b :: rest =>
    Block.meetings bs cs a b ++
      Block.meetingsAll (Var.enter bs a.vars) (Var.enter cs b.vars) as rest
  | _, _ => []

end

theorem Expr.meetings_same {a b : Expr} (h : a.sameAs b) (bs cs : List Id) :
    Expr.meetings bs cs a b = [⟨a, b, bs, cs⟩] := by
  rw [Expr.meetings.eq_def, if_pos h]

mutual

/-- The expressions are one node, or equal but for their marks, what is known of their values and
the identities of their variables. -/
inductive Expr.Resembles : Expr → Expr → Prop
  | same {a b : Expr} : a.sameAs b → Expr.Resembles a b
  | leaf {node node' : Node} {l l' : Leaf} :
    ¬ (Expr.leaf node l).sameAs (.leaf node' l') → l.equal l' →
    Expr.Resembles (.leaf node l) (.leaf node' l')
  | var {v w : Var} :
    ¬ (Expr.var v).sameAs (.var w) → v.dataflow = w.dataflow →
    Expr.Resembles (.var v) (.var w)
  | shape {node node' : Node} {values : List Dim} :
    ¬ (Expr.shape node values).sameAs (.shape node' values) →
    Expr.Resembles (.shape node values) (.shape node' values)
  | prim {node node' : Node} {value : Dim} {dtype : DType} :
    ¬ (Expr.prim node value dtype).sameAs (.prim node' value dtype) →
    Expr.Resembles (.prim node value dtype) (.prim node' value dtype)
  | tuple {node node' : Node} {fields fields' : List Expr} :
    ¬ (Expr.tuple node fields).sameAs (.tuple node' fields') →
    Expr.ResembleAll fields fields' →
    Expr.Resembles (.tuple node fields) (.tuple node' fields')
  | item {node node' : Node} {whole whole' : Expr} {index : Nat} :
    ¬ (Expr.item node whole index).sameAs (.item node' whole' index) →
    Expr.Resembles whole whole' →
    Expr.Resembles (.item node whole index) (.item node' whole' index)
  | call {node node' : Node} {callee callee' : Expr} {args args' : List Expr}
      {attrs attrs' : Option Attrs} {sinfoArgs : List StructInfo} :
    ¬ (Expr.call node callee args attrs sinfoArgs).sameAs
      (.call node' callee' args' attrs' sinfoArgs) →
    attrs == attrs' → Expr.Resembles callee callee' → Expr.ResembleAll args args' →
    Expr.Resembles (.call node callee args attrs sinfoArgs)
      (.call node' callee' args' attrs' sinfoArgs)
  | ite {node node' : Node} {cond cond' onTrue onTrue' onFalse onFalse' : Expr} :
    ¬ (Expr.ite node cond onTrue onFalse).sameAs (.ite node' cond' onTrue' onFalse') →
    Expr.Resembles cond cond' → Expr.Resembles onTrue onTrue' →
    Expr.Resembles onFalse onFalse' →
    Expr.Resembles (.ite node cond onTrue onFalse) (.ite node' cond' onTrue' onFalse')
  | seq {node node' : Node} {blocks blocks' : List Block} {body body' : Expr} :
    ¬ (Expr.seq node blocks body).sameAs (.seq node' blocks' body') →
    Block.ResembleAll blocks blocks' → Expr.Resembles body body' →
    Expr.Resembles (.seq node blocks body) (.seq node' blocks' body')
  | function {node node' : Node} {params params' : List Var} {body body' : Expr}
      {ret : StructInfo} {attrs attrs' : Attrs} :
    ¬ (Expr.function node params body ret attrs).sameAs
      (.function node' params' body' ret attrs') →
    params.map Var.signature = params'.map Var.signature → attrs == attrs' →
    Expr.Resembles body body' →
    Expr.Resembles (.function node params body ret attrs) (.function node' params' body' ret attrs')

inductive Expr.ResembleAll : List Expr → List Expr → Prop
  | nil : Expr.ResembleAll [] []
  | cons {a b : Expr} {as bs : List Expr} :
    Expr.Resembles a b → Expr.ResembleAll as bs → Expr.ResembleAll (a :: as) (b :: bs)

inductive Binding.Resembles : Binding → Binding → Prop
  | bind {mark mark' : Mark} {v w : Var} {value value' : Expr} :
    v.signature = w.signature → Expr.Resembles value value' →
    Binding.Resembles (.bind mark v value) (.bind mark' w value')
  | cast {mark mark' : Mark} {v w : Var} {value value' : Expr} {sinfo : StructInfo} :
    v.signature = w.signature → Expr.Resembles value value' →
    Binding.Resembles (.cast mark v value sinfo) (.cast mark' w value' sinfo)

inductive Binding.ResembleAll : List Binding → List Binding → Prop
  | nil : Binding.ResembleAll [] []
  | cons {a b : Binding} {as bs : List Binding} :
    Binding.Resembles a b → Binding.ResembleAll as bs → Binding.ResembleAll (a :: as) (b :: bs)

inductive Block.Resembles : Block → Block → Prop
  | mk {mark mark' : Mark} {kind : BlockKind} {bindings bindings' : List Binding} :
    Binding.ResembleAll bindings bindings' →
    Block.Resembles (.mk mark kind bindings) (.mk mark' kind bindings')

inductive Block.ResembleAll : List Block → List Block → Prop
  | nil : Block.ResembleAll [] []
  | cons {a b : Block} {as bs : List Block} :
    Block.Resembles a b → Block.ResembleAll as bs → Block.ResembleAll (a :: as) (b :: bs)

end

private theorem Attrs.canonical_of_beq {a b : Attrs} (h : a == b) : a.canonical = b.canonical :=
  ((Attrs.equates a b).mp h).1

private theorem Attrs.map_canonical_of_beq {a b : Option Attrs} (h : a == b) :
    a.map canonical = b.map canonical :=
  ((Attrs.equates.option a b).mp h).1

mutual

/-- The forms are equal exactly where they are at each place at which the comparison ends. -/
theorem Expr.Resembles.form_iff {a b : Expr} {bs cs : List Id} (hresembles : Expr.Resembles a b) :
    (a.form bs = b.form cs ↔ ∀ m ∈ Expr.meetings bs cs a b, m.Faithful) := by
  match hresembles with
  | .same hs =>
    rw [Expr.meetings_same hs bs cs, List.forall_mem_singleton]
    rfl
  | .leaf hn h => simp [Expr.meetings, if_neg hn, Expr.form, ((Leaf.equates _ _).mp h).1]
  | .var hn _ =>
    simp only [Expr.meetings, if_neg hn, List.forall_mem_singleton]
    rfl
  | .shape hn => simp [Expr.meetings, if_neg hn, Expr.form]
  | .prim hn => simp [Expr.meetings, if_neg hn, Expr.form]
  | .tuple hn hf =>
    simp only [Expr.meetings, if_neg hn, ← hf.form_iff]
    simp [Expr.form]
  | .item hn hw =>
    simp only [Expr.meetings, if_neg hn, ← hw.form_iff]
    simp [Expr.form]
  | .call hn ha hc hargs =>
    simp only [Expr.meetings, if_neg hn, List.forall_mem_append, ← hc.form_iff, ← hargs.form_iff]
    simp [Expr.form, Attrs.map_canonical_of_beq ha]
  | .ite hn hc ht hf =>
    simp only [Expr.meetings, if_neg hn, List.forall_mem_append, ← hc.form_iff, ← ht.form_iff,
      ← hf.form_iff]
    simp [Expr.form]
  | .seq hn hb hy =>
    simp only [Expr.meetings, if_neg hn, List.forall_mem_append, ← hb.form_iff, ← hy.form_iff]
    simp [Expr.form, and_comm]
  | .function hn hp ha hb =>
    simp only [Expr.meetings, if_neg hn, ← hb.form_iff]
    simp [Expr.form, hp, Attrs.canonical_of_beq ha]

theorem Expr.ResembleAll.form_iff {as bs : List Expr} {cs ds : List Id}
    (hresembles : Expr.ResembleAll as bs) :
    (Expr.formAll cs as = Expr.formAll ds bs ↔ ∀ m ∈ Expr.meetingsAll cs ds as bs, m.Faithful) := by
  match hresembles with
  | .nil => simp [Expr.formAll, Expr.meetingsAll]
  | .cons h hs =>
    rw [Expr.meetingsAll, List.forall_mem_append, ← h.form_iff, ← hs.form_iff, Expr.formAll,
      Expr.formAll, List.cons.injEq]

theorem Binding.Resembles.form_iff {a b : Binding} {bs cs : List Id} (h : Binding.Resembles a b) :
    (a.form bs = b.form cs ↔ ∀ m ∈ Binding.meetings bs cs a b, m.Faithful) := by
  match h with
  | .bind hs hv =>
    rw [Binding.meetings, ← hv.form_iff]
    simp only [Var.signature, Prod.mk.injEq] at hs
    simp [Binding.form, hs.1, hs.2]
  | .cast hs hv =>
    rw [Binding.meetings, ← hv.form_iff]
    simp only [Var.signature, Prod.mk.injEq] at hs
    simp [Binding.form, hs.1, hs.2]

theorem Binding.ResembleAll.form_iff {as bs : List Binding} {cs ds : List Id}
    (hresembles : Binding.ResembleAll as bs) :
    (Binding.formAll cs as = Binding.formAll ds bs ↔ ∀ m ∈ Binding.meetingsAll cs ds as bs,
      m.Faithful) := by
  match hresembles with
  | .nil => simp [Binding.formAll, Binding.meetingsAll]
  | .cons h hs =>
    rw [Binding.meetingsAll, List.forall_mem_append, ← h.form_iff, ← hs.form_iff, Binding.formAll,
      Binding.formAll, List.cons.injEq]

theorem Block.Resembles.form_iff {a b : Block} {bs cs : List Id}
    (hresembles : Block.Resembles a b) :
    (a.form bs = b.form cs ↔ ∀ m ∈ Block.meetings bs cs a b, m.Faithful) := by
  match hresembles with
  | .mk h =>
    rw [Block.meetings, ← h.form_iff]
    simp [Block.form]

theorem Block.ResembleAll.form_iff {as bs : List Block} {cs ds : List Id}
    (hresembles : Block.ResembleAll as bs) :
    (Block.formAll cs as = Block.formAll ds bs ↔ ∀ m ∈ Block.meetingsAll cs ds as bs, m.Faithful)
      := by
  match hresembles with
  | .nil => simp [Block.formAll, Block.meetingsAll]
  | .cons h hs =>
    rw [Block.meetingsAll, List.forall_mem_append, ← h.form_iff, ← hs.form_iff, Block.formAll,
      Block.formAll, List.cons.injEq]

end

theorem Expr.sameAs_symm {a b : Expr} (h : a.sameAs b) : b.sameAs a :=
  BEq.symm h

theorem Expr.not_sameAs_symm {a b : Expr} (h : ¬ a.sameAs b) : ¬ b.sameAs a := by
  intro hs
  exact h (Expr.sameAs_symm hs)

mutual

theorem Expr.Resembles.symm {a b : Expr} (hresembles : Expr.Resembles a b) :
    Expr.Resembles b a := by
  match hresembles with
  | .same hs => exact .same (Expr.sameAs_symm hs)
  | .leaf hn h => exact .leaf (Expr.not_sameAs_symm hn) (Leaf.equates.symm h)
  | .var hn hd => exact .var (Expr.not_sameAs_symm hn) hd.symm
  | .shape hn => exact .shape (Expr.not_sameAs_symm hn)
  | .prim hn => exact .prim (Expr.not_sameAs_symm hn)
  | .tuple hn hf => exact .tuple (Expr.not_sameAs_symm hn) hf.symm
  | .item hn hw => exact .item (Expr.not_sameAs_symm hn) hw.symm
  | .call hn ha hc hargs =>
    refine .call ?_ ?_ hc.symm hargs.symm
    · exact Expr.not_sameAs_symm hn
    · exact Attrs.equates.option.symm ha
  | .ite hn hc ht hf => exact .ite (Expr.not_sameAs_symm hn) hc.symm ht.symm hf.symm
  | .seq hn hb hy => exact .seq (Expr.not_sameAs_symm hn) hb.symm hy.symm
  | .function hn hp ha hb =>
    refine .function ?_ hp.symm ?_ hb.symm
    · exact Expr.not_sameAs_symm hn
    · exact Attrs.equates.symm ha

theorem Expr.ResembleAll.symm {as bs : List Expr} (hresembles : Expr.ResembleAll as bs) :
    Expr.ResembleAll bs as := by
  match hresembles with
  | .nil => exact .nil
  | .cons h hs => exact .cons h.symm hs.symm

theorem Binding.Resembles.symm {a b : Binding} (h : Binding.Resembles a b) :
    Binding.Resembles b a := by
  match h with
  | .bind hs hv => exact .bind hs.symm hv.symm
  | .cast hs hv => exact .cast hs.symm hv.symm

theorem Binding.ResembleAll.symm {as bs : List Binding} (hresembles : Binding.ResembleAll as bs) :
    Binding.ResembleAll bs as := by
  match hresembles with
  | .nil => exact .nil
  | .cons h hs => exact .cons h.symm hs.symm

theorem Block.Resembles.symm {a b : Block} (hresembles : Block.Resembles a b) :
    Block.Resembles b a := by
  match hresembles with
  | .mk h => exact .mk h.symm

theorem Block.ResembleAll.symm {as bs : List Block} (hresembles : Block.ResembleAll as bs) :
    Block.ResembleAll bs as := by
  match hresembles with
  | .nil => exact .nil
  | .cons h hs => exact .cons h.symm hs.symm

end

mutual

/-- The comparison ends at the same places the other way round. -/
theorem Expr.Resembles.meetings_swap {a b : Expr} (bs cs : List Id) (h : Expr.Resembles a b) :
    Expr.meetings cs bs b a = (Expr.meetings bs cs a b).map Meeting.swap := by
  match h with
  | .same hs =>
    rw [Expr.meetings_same hs, Expr.meetings_same (Expr.sameAs_symm hs)]
    rfl
  | .leaf hn _ => simp [Expr.meetings, if_neg hn, if_neg (Expr.not_sameAs_symm hn)]
  | .var .. => simp [Expr.meetings, Meeting.swap]
  | .shape hn => simp [Expr.meetings, if_neg hn, if_neg (Expr.not_sameAs_symm hn)]
  | .prim hn => simp [Expr.meetings, if_neg hn, if_neg (Expr.not_sameAs_symm hn)]
  | .tuple hn hf =>
    simp only [Expr.meetings, if_neg hn, if_neg (Expr.not_sameAs_symm hn), hf.meetings_swap bs cs]
  | .item hn hw =>
    simp only [Expr.meetings, if_neg hn, if_neg (Expr.not_sameAs_symm hn), hw.meetings_swap bs cs]
  | .call hn _ hc hargs =>
    simp only [Expr.meetings, if_neg hn, if_neg (Expr.not_sameAs_symm hn), List.map_append,
      hc.meetings_swap bs cs, hargs.meetings_swap bs cs]
  | .ite hn hc ht hf =>
    simp only [Expr.meetings, if_neg hn, if_neg (Expr.not_sameAs_symm hn), List.map_append,
      hc.meetings_swap bs cs, ht.meetings_swap bs cs, hf.meetings_swap bs cs]
  | .seq hn hb hy =>
    simp only [Expr.meetings, if_neg hn, if_neg (Expr.not_sameAs_symm hn), List.map_append,
      hb.meetings_swap bs cs, hy.meetings_swap (Var.enter bs _) (Var.enter cs _)]
  | .function hn _ _ hb =>
    simp only [Expr.meetings, if_neg hn, if_neg (Expr.not_sameAs_symm hn),
      hb.meetings_swap (Var.enter bs _) (Var.enter cs _)]

theorem Expr.ResembleAll.meetings_swap {as bs : List Expr} (cs ds : List Id)
    (hresembles : Expr.ResembleAll as bs) :
    Expr.meetingsAll ds cs bs as = (Expr.meetingsAll cs ds as bs).map Meeting.swap := by
  match hresembles with
  | .nil => simp [Expr.meetingsAll]
  | .cons h hs =>
    simp only [Expr.meetingsAll, List.map_append, h.meetings_swap cs ds, hs.meetings_swap cs ds]

theorem Binding.Resembles.meetings_swap {a b : Binding} (bs cs : List Id)
    (h : Binding.Resembles a b) :
    Binding.meetings cs bs b a = (Binding.meetings bs cs a b).map Meeting.swap := by
  match h with
  | .bind _ hv | .cast _ hv => simp only [Binding.meetings, hv.meetings_swap bs cs]

theorem Binding.ResembleAll.meetings_swap {as bs : List Binding} (cs ds : List Id)
    (hresembles : Binding.ResembleAll as bs) :
    Binding.meetingsAll ds cs bs as = (Binding.meetingsAll cs ds as bs).map Meeting.swap := by
  match hresembles with
  | .nil => simp [Binding.meetingsAll]
  | .cons h hs =>
    simp only [Binding.meetingsAll, List.map_append, h.meetings_swap cs ds,
      hs.meetings_swap (Var.enter cs _) (Var.enter ds _)]

theorem Block.Resembles.meetings_swap {a b : Block} (bs cs : List Id)
    (hresembles : Block.Resembles a b) :
    Block.meetings cs bs b a = (Block.meetings bs cs a b).map Meeting.swap := by
  match hresembles with
  | .mk h => simp only [Block.meetings, h.meetings_swap bs cs]

theorem Block.ResembleAll.meetings_swap {as bs : List Block} (cs ds : List Id)
    (hresembles : Block.ResembleAll as bs) :
    Block.meetingsAll ds cs bs as = (Block.meetingsAll cs ds as bs).map Meeting.swap := by
  match hresembles with
  | .nil => simp [Block.meetingsAll]
  | .cons h hs =>
    simp only [Block.meetingsAll, List.map_append, h.meetings_swap cs ds,
      hs.meetings_swap (Var.enter cs _) (Var.enter ds _)]

end

mutual

/-- All nodes of the expression, itself the first. -/
def Expr.nodes : Expr → List Expr
  | .leaf node content => [.leaf node content]
  | .var v => [.var v]
  | .shape node values => [.shape node values]
  | .prim node value dtype => [.prim node value dtype]
  | .tuple node fields => .tuple node fields :: Expr.nodesAll fields
  | .item node whole index => .item node whole index :: whole.nodes
  | .call node callee args attrs sinfoArgs =>
    .call node callee args attrs sinfoArgs :: (callee.nodes ++ Expr.nodesAll args)
  | .ite node cond onTrue onFalse =>
    .ite node cond onTrue onFalse :: (cond.nodes ++ (onTrue.nodes ++ onFalse.nodes))
  | .seq node blocks body => .seq node blocks body :: (Block.nodesAll blocks ++ body.nodes)
  | .function node params body ret attrs => .function node params body ret attrs :: body.nodes

def Expr.nodesAll : List Expr → List Expr
  | [] => []
  | e :: es => e.nodes ++ Expr.nodesAll es

def Binding.nodes : Binding → List Expr
  | .bind _ _ value | .cast _ _ value _ => value.nodes

def Binding.nodesAll : List Binding → List Expr
  | [] => []
  | b :: bs => b.nodes ++ Binding.nodesAll bs

def Block.nodes : Block → List Expr
  | .mk _ _ bindings => Binding.nodesAll bindings

def Block.nodesAll : List Block → List Expr
  | [] => []
  | b :: bs => b.nodes ++ Block.nodesAll bs

end

theorem Expr.mem_nodes (e : Expr) : e ∈ e.nodes := by
  cases e <;> simp [Expr.nodes]

/-- Each of the nodes is the one of its tag in the heap. -/
def Stored (heap : Nat → Expr) (nodes : List Expr) : Prop :=
  ∀ e ∈ nodes, heap e.tag = e

namespace Stored

variable {heap : Nat → Expr}

theorem append {xs ys : List Expr} (h : Stored heap (xs ++ ys)) : Stored heap xs ∧ Stored heap ys :=
  List.forall_mem_append.mp h

theorem parts {e : Expr} {xs : List Expr} (h : Stored heap (e :: xs)) : Stored heap xs :=
  (List.forall_mem_cons.mp h).2

/-- One node has one content. -/
theorem eq {a b : Expr} (ha : Stored heap a.nodes) (hb : Stored heap b.nodes) (hs : a.sameAs b) :
    a = b := by
  have ht : a.tag = b.tag := beq_iff_eq.mp hs
  rw [← ha a a.mem_nodes, ht, hb b b.mem_nodes]

end Stored

mutual

/-- Among expressions of one heap. -/
theorem Expr.Resembles.trans {heap : Nat → Expr} {a b c : Expr} (ha : Stored heap a.nodes)
    (hb : Stored heap b.nodes) (hc : Stored heap c.nodes) (hab : Expr.Resembles a b)
    (hbc : Expr.Resembles b c) : Expr.Resembles a c := by
  by_cases hac : a.sameAs c
  · exact .same hac
  -- Of two expressions of one heap that are one node, each can stand for the other.
  · match hab, hbc with
    | .same hs, hbc => exact ha.eq hb hs ▸ hbc
    | hab, .same hs => exact hb.eq hc hs ▸ hab
    | .leaf _ h, .leaf _ h' => exact .leaf hac (Leaf.equates.trans h h')
    | .var _ h, .var _ h' => exact .var hac (h.trans h')
    | .shape _, .shape _ => exact .shape hac
    | .prim _, .prim _ => exact .prim hac
    | .tuple _ h, .tuple _ h' => exact .tuple hac (h.trans ha.parts hb.parts hc.parts h')
    | .item _ h, .item _ h' => exact .item hac (h.trans ha.parts hb.parts hc.parts h')
    | .call _ he h hs, .call _ he' h' hs' =>
      have hp := ha.parts.append
      have hq := hb.parts.append
      have hr := hc.parts.append
      exact .call hac (Attrs.equates.option.trans he he') (h.trans hp.1 hq.1 hr.1 h')
        (hs.trans hp.2 hq.2 hr.2 hs')
    | .ite _ h1 h2 h3, .ite _ h1' h2' h3' =>
      have hp := ha.parts.append
      have hq := hb.parts.append
      have hr := hc.parts.append
      exact .ite hac (h1.trans hp.1 hq.1 hr.1 h1')
        (h2.trans hp.2.append.1 hq.2.append.1 hr.2.append.1 h2')
        (h3.trans hp.2.append.2 hq.2.append.2 hr.2.append.2 h3')
    | .seq _ hs h, .seq _ hs' h' =>
      have hp := ha.parts.append
      have hq := hb.parts.append
      have hr := hc.parts.append
      exact .seq hac (hs.trans hp.1 hq.1 hr.1 hs') (h.trans hp.2 hq.2 hr.2 h')
    | .function _ hp he h, .function _ hp' he' h' =>
      exact .function hac (hp.trans hp') (Attrs.equates.trans he he')
        (h.trans ha.parts hb.parts hc.parts h')

theorem Expr.ResembleAll.trans {heap : Nat → Expr} {as bs cs : List Expr}
    (ha : Stored heap (Expr.nodesAll as)) (hb : Stored heap (Expr.nodesAll bs))
    (hc : Stored heap (Expr.nodesAll cs)) (hresembles : Expr.ResembleAll as bs)
    (hresembles' : Expr.ResembleAll bs cs) : Expr.ResembleAll as cs := by
  match hresembles, hresembles' with
  | .nil, .nil => exact .nil
  | .cons h hs, .cons h' hs' =>
    refine .cons ?_ ?_
    · exact h.trans ha.append.1 hb.append.1 hc.append.1 h'
    · exact hs.trans ha.append.2 hb.append.2 hc.append.2 hs'

theorem Binding.Resembles.trans {heap : Nat → Expr} {a b c : Binding} (ha : Stored heap a.nodes)
    (hb : Stored heap b.nodes) (hc : Stored heap c.nodes) (hresembles : Binding.Resembles a b)
    (hresembles' : Binding.Resembles b c) : Binding.Resembles a c := by
  match hresembles, hresembles' with
  | .bind hs h, .bind hs' h' => exact .bind (hs.trans hs') (h.trans ha hb hc h')
  | .cast hs h, .cast hs' h' => exact .cast (hs.trans hs') (h.trans ha hb hc h')

theorem Binding.ResembleAll.trans {heap : Nat → Expr} {as bs cs : List Binding}
    (ha : Stored heap (Binding.nodesAll as)) (hb : Stored heap (Binding.nodesAll bs))
    (hc : Stored heap (Binding.nodesAll cs)) (hresembles : Binding.ResembleAll as bs)
    (hresembles' : Binding.ResembleAll bs cs) : Binding.ResembleAll as cs := by
  match hresembles, hresembles' with
  | .nil, .nil => exact .nil
  | .cons h hs, .cons h' hs' =>
    refine .cons ?_ ?_
    · exact h.trans ha.append.1 hb.append.1 hc.append.1 h'
    · exact hs.trans ha.append.2 hb.append.2 hc.append.2 hs'

theorem Block.Resembles.trans {heap : Nat → Expr} {a b c : Block} (ha : Stored heap a.nodes)
    (hb : Stored heap b.nodes) (hc : Stored heap c.nodes) (hresembles : Block.Resembles a b)
    (hresembles' : Block.Resembles b c) : Block.Resembles a c := by
  match hresembles, hresembles' with
  | .mk h, .mk h' => exact .mk (h.trans ha hb hc h')

theorem Block.ResembleAll.trans {heap : Nat → Expr} {as bs cs : List Block}
    (ha : Stored heap (Block.nodesAll as)) (hb : Stored heap (Block.nodesAll bs))
    (hc : Stored heap (Block.nodesAll cs)) (hresembles : Block.ResembleAll as bs)
    (hresembles' : Block.ResembleAll bs cs) : Block.ResembleAll as cs := by
  match hresembles, hresembles' with
  | .nil, .nil => exact .nil
  | .cons h hs, .cons h' hs' =>
    refine .cons ?_ ?_
    · exact h.trans ha.append.1 hb.append.1 hc.append.1 h'
    · exact hs.trans ha.append.2 hb.append.2 hc.append.2 hs'

end

end DataflowIR
