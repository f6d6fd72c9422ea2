import DataflowIR.Proofs.Relabeling.Trees
import DataflowIR.Proofs.Rewrite.Steps

namespace DataflowIR

variable (σ : Equiv.Perm Nat)

/-- Some errors name a node. -/
def Fault.relabel : Fault → Fault
  | .bindingOutsideBlock v => .bindingOutsideBlock (v.relabel σ)
  | .dataflowVarInPlainBlock v => .dataflowVarInPlainBlock (v.relabel σ)
  | .parameterBoundAgain v => .parameterBoundAgain (v.relabel σ)
  | .notATensor callee found => .notATensor (callee.relabel σ) found
  | .dtypesDiffer callee first other => .dtypesDiffer (callee.relabel σ) first other
  | .noArguments callee => .noArguments (callee.relabel σ)
  | f => f

/-- The outcome with its error relabeled, or with `g` applied to what it gives. -/
def relabelOutcome {α β : Type} (g : α → β) : Except Fault α → Except Fault β
  | .ok a => .ok (g a)
  | .error f => .error (f.relabel σ)

theorem relabelOutcome_refl {α : Type} (r : Except Fault α) :
    relabelOutcome (Equiv.refl Nat) id r = r := by
  have he : ∀ e : Expr, e.relabel (Equiv.refl Nat) = e := fun e =>
    e.relabel_eq_self fun _ _ => rfl
  cases r with
  | ok a => rfl
  | error f => cases f <;> simp only [relabelOutcome, Fault.relabel, he] <;> rfl

/-- What a rule gives is settled without labels. -/
def Rules.Uniform (rules : Rules) : Prop :=
  ∀ c, rules.inferCall (c.relabel σ) = relabelOutcome σ id (rules.inferCall c)

private theorem Rule.elementwiseFrom_relabel (callee : Expr) (seen : Option TensorSummary)
    (args : List Expr) :
    elementwiseFrom (callee.relabel σ) seen (args.map (Expr.relabel σ)) =
      relabelOutcome σ id (elementwiseFrom callee seen args) := by
  induction args generalizing seen with
  | nil => cases seen <;> rfl
  | cons arg rest ih =>
    rw [List.map_cons, elementwiseFrom, elementwiseFrom, Expr.sinfo_relabel]
    cases arg.sinfo with
    | none => rfl
    | some i =>
      cases i with
      | tensor shape dtype ndim =>
        cases seen with
        | none => exact ih _
        | some t =>
          dsimp only
          split
          · exact ih _
          · rfl
      | _ => rfl

theorem Rules.standard_uniform : Rules.standard.Uniform σ := by
  intro c
  have hop : (c.relabel σ).callee.asOp? = c.callee.asOp? := c.callee.asOp?_relabel σ
  have hcallee : (c.relabel σ).callee.sinfo = c.callee.sinfo := c.callee.sinfo_relabel σ
  have hargs : (c.relabel σ).args = c.args.map (Expr.relabel σ) := Expr.relabelAll_eq_map σ _
  rw [inferCall, inferCall, hop]
  cases hr : c.callee.asOp?.bind standard.find? with
  | none =>
    dsimp only
    rw [callSinfo, hcallee]
    rfl
  | some rule =>
    obtain ⟨name, -, hfind⟩ := Option.bind_eq_some_iff.mp hr
    obtain rfl := Rules.eq_elementwise hfind
    dsimp only [Rule.elementwise]
    rw [hargs]
    exact Rule.elementwiseFrom_relabel σ c.callee none c.args

/-- Labels that stay make no difference to any rules. -/
theorem Rules.uniform_refl (rules : Rules) : rules.Uniform (Equiv.refl Nat) := by
  intro c
  have he : ∀ e : Expr, e.relabel (Equiv.refl Nat) = e := fun e =>
    e.relabel_eq_self fun _ _ => rfl
  have hc : c.relabel (Equiv.refl Nat) = c := by
    have hn : c.node.relabel (Equiv.refl Nat) = c.node := rfl
    rw [Call.relabel, he, Expr.relabelAll_eq_self _ fun _ _ => rfl, hn]
  rw [hc, relabelOutcome_refl]

variable {σ}

private theorem Rules.infer_relabel {rules : Rules} (h : rules.Uniform σ) (e : Expr) :
    rules.infer (e.relabel σ) = relabelOutcome σ id (rules.infer e) := by
  have hobject : ∀ e : Expr, (e.relabel σ).sinfoOrObject = e.sinfoOrObject :=
    Expr.sinfoOrObject_relabel σ
  cases e with
  | call node callee args attrs sinfoArgs => exact h ⟨node, callee, args, attrs, sinfoArgs⟩
  | leaf | var | shape | prim => rfl
  | tuple node fields => simp [infer, Expr.relabel, relabelOutcome, Function.comp_def]
  | item node whole index =>
    simp only [infer, Expr.relabel, Expr.sinfo_relabel]
    split
    · split <;> rfl
    · rfl
  | ite => simp only [infer, Expr.relabel, hobject, relabelOutcome, id]
  | seq => simp only [infer, Expr.relabel, hobject, relabelOutcome, id]
  | function => simp only [infer, Expr.relabel, functionSinfo_relabel, relabelOutcome, id]

variable (σ)

def IdTable.relabel {α : Type} (g : α → α) (t : IdTable α) : IdTable α :=
  ⟨t.entries.map fun e => (e.1.relabel σ, g e.2)⟩

namespace IdTable

variable {α : Type} (g : α → α) (t : IdTable α) (id : Id)

theorem get?_relabel : (t.relabel σ g).get? (id.relabel σ) = (t.get? id).map g := by
  obtain ⟨entries⟩ := t
  simp only [get?, relabel]
  induction entries with
  | nil => rfl
  | cons e rest ih =>
    rw [List.map_cons, List.lookup_cons, List.lookup_cons, Id.relabel_beq, ih]
    cases id == e.1 <;> rfl

private theorem erase_relabel :
    (t.erase id).relabel σ g = (t.relabel σ g).erase (id.relabel σ) := by
  simp only [erase, relabel, List.filter_map, Function.comp_def, Id.relabel_beq]

theorem insert_relabel (a : α) :
    (t.insert id a).relabel σ g = (t.relabel σ g).insert (id.relabel σ) (g a) := by
  rw [insert, insert, ← erase_relabel]
  rfl

private theorem set_relabel (a : Option α) :
    (t.set id a).relabel σ g = (t.relabel σ g).set (id.relabel σ) (a.map g) := by
  cases a with
  | none => exact erase_relabel σ g t id
  | some a => exact insert_relabel σ g t id a

end IdTable

def Remap.relabel (r : Remap) : Remap :=
  ⟨r.table.relabel σ (Var.relabel σ),
    r.scopes.map (List.map fun c => (c.1.relabel σ, c.2.map (Var.relabel σ)))⟩

namespace Remap

theorem get?_relabel (r : Remap) (id : Id) :
    (r.relabel σ).get? (id.relabel σ) = (r.get? id).map (Var.relabel σ) :=
  r.table.get?_relabel σ _ id

theorem insert_relabel (r : Remap) (id : Id) (v : Var) :
    (r.insert id v).relabel σ = (r.relabel σ).insert (id.relabel σ) (v.relabel σ) := by
  rw [insert, insert, get?_relabel, relabel, IdTable.insert_relabel, relabel]
  cases r.scopes <;> rfl

private theorem undo_relabel (t : IdTable Var) (changes : List RemapChange) :
    (undo t changes).relabel σ (Var.relabel σ) =
      undo (t.relabel σ (Var.relabel σ))
        (changes.map fun c => (c.1.relabel σ, c.2.map (Var.relabel σ))) := by
  induction changes generalizing t with
  | nil => rfl
  | cons c rest ih =>
    rw [List.map_cons, undo, List.foldl_cons, ← undo, ih, IdTable.set_relabel]
    rfl

theorem closeScope?_relabel (r : Remap) :
    (r.relabel σ).closeScope? = r.closeScope?.map (Remap.relabel σ) := by
  obtain ⟨t, scopes⟩ := r
  cases scopes with
  | nil => rfl
  | cons changes rest =>
    simp only [relabel, closeScope?, List.map_cons, Option.map_some, undo_relabel]

end Remap

def Frame.relabel (f : Frame) : Frame :=
  ⟨f.kind, f.bindings.map (Binding.relabel σ)⟩

def Builder.relabel (b : Builder) : Builder :=
  ⟨b.rules, b.names, b.frames.map (Frame.relabel σ), b.scopes.map (List.map (Id.relabel σ)),
    b.bound.relabel σ (Expr.relabel σ)⟩

namespace Builder

variable (b : Builder)

@[simp] theorem depth_relabel : (b.relabel σ).depth = b.depth :=
  List.length_map _

@[simp] theorem isEmpty_frames_relabel : (b.relabel σ).frames.isEmpty = b.frames.isEmpty :=
  List.isEmpty_map

@[simp] theorem inDataflow_relabel : (b.relabel σ).inDataflow = b.inDataflow := by
  unfold inDataflow relabel
  cases b.frames <;> rfl

theorem lookup_relabel (v : Var) :
    (b.relabel σ).lookup (v.relabel σ) = (b.lookup v).map (Expr.relabel σ) :=
  b.bound.get?_relabel σ _ v.id

@[simp] theorem isParameter_relabel (id : Id) :
    (b.relabel σ).isParameter (id.relabel σ) = b.isParameter id := by
  simp only [isParameter, relabel, List.any_map, Function.comp_def]
  congr 1
  funext params
  rw [Bool.eq_iff_iff]
  simp

theorem beginBlock_relabel (kind : BlockKind) :
    (b.beginBlock kind).relabel σ = (b.relabel σ).beginBlock kind := rfl

theorem beginScope_relabel (params : List Var) :
    (b.beginScope params).relabel σ = (b.relabel σ).beginScope (params.map (Var.relabel σ)) := by
  simp [beginScope, relabel, Function.comp_def]

theorem push_relabel (binding : Binding) :
    (b.relabel σ).push (binding.relabel σ) =
      relabelOutcome σ (Builder.relabel σ) (b.push binding) := by
  have hp := b.isParameter_relabel σ binding.var.id
  obtain ⟨rules, names, frames, scopes, bound⟩ := b
  cases frames with
  | nil => exact congrArg (Except.error ∘ Fault.bindingOutsideBlock) (binding.var_relabel σ)
  | cons frame rest =>
    have hf : ((Builder.mk rules names (frame :: rest) scopes bound).relabel σ).frames =
      frame.relabel σ :: rest.map (Frame.relabel σ) := rfl
    have hk : (frame.relabel σ).kind = frame.kind := rfl
    rw [push, push, hf]
    simp only [Binding.var_relabel, Var.dataflow_relabel, Var.id_relabel, hp, hk]
    split
    · rfl
    · split
      · rfl
      · have hb : (recordBinding bound binding).relabel σ (Expr.relabel σ) =
            recordBinding (bound.relabel σ (Expr.relabel σ)) (binding.relabel σ) := by
          cases binding with
          | bind mark v value => exact IdTable.insert_relabel σ _ bound v.id value
          | cast => rfl
        simp only [relabelOutcome, relabel, List.map_cons, Frame.relabel, List.map_append,
          List.map_nil, hb]

theorem rules_of_push {b b' : Builder} {binding : Binding} (h : b.push binding = .ok b') :
    b'.rules = b.rules := by
  obtain ⟨_, _, -, -, rfl⟩ := push_ok h
  rfl

variable {σ b}

theorem missingSinfo_relabel (h : b.rules.Uniform σ) (e : Expr) :
    (b.relabel σ).missingSinfo (e.relabel σ) = relabelOutcome σ id (b.missingSinfo e) := by
  have hc : isComposite (e.relabel σ) = isComposite e := by
    cases e <;> rfl
  have hr : (b.relabel σ).rules = b.rules := rfl
  rw [missingSinfo, missingSinfo, Expr.sinfo_relabel, hc, hr, Rules.infer_relabel h]
  split
  · cases b.rules.infer e <;> rfl
  · rfl

end Builder

theorem IdTable.relabel_refl {α : Type} {g : α → α} (hg : ∀ a, g a = a) (t : IdTable α) :
    t.relabel (Equiv.refl Nat) g = t := by
  obtain ⟨entries⟩ := t
  refine congrArg IdTable.mk ((List.map_congr_left fun e _ => ?_).trans (List.map_id entries))
  exact Prod.ext rfl (hg e.2)

theorem Remap.relabel_refl (r : Remap) : r.relabel (Equiv.refl Nat) = r := by
  have hc : (fun c : RemapChange =>
      (c.1.relabel (Equiv.refl Nat), c.2.map (Var.relabel (Equiv.refl Nat)))) = id := by
    funext c
    obtain ⟨i, v⟩ := c
    cases v <;> rfl
  have hv : ∀ v : Var, v.relabel (Equiv.refl Nat) = v := fun _ => rfl
  rw [relabel, IdTable.relabel_refl hv, hc, List.map_id_fun, List.map_id]

theorem Builder.relabel_refl (b : Builder) : b.relabel (Equiv.refl Nat) = b := by
  have he : ∀ e : Expr, e.relabel (Equiv.refl Nat) = e := fun e =>
    e.relabel_eq_self fun _ _ => rfl
  have hb : Binding.relabel (Equiv.refl Nat) = id :=
    funext fun b => b.relabel_eq_self fun _ _ => rfl
  have hf : Frame.relabel (Equiv.refl Nat) = id := by
    funext f
    rw [Frame.relabel, hb, List.map_id]
    rfl
  have hi : Id.relabel (Equiv.refl Nat) = id := rfl
  rw [relabel, IdTable.relabel_refl he, hf, hi, List.map_id, List.map_id_fun, List.map_id]

end DataflowIR
