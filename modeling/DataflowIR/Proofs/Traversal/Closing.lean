import DataflowIR.Proofs.Traversal.Balance

namespace DataflowIR

open Session

variable {σ α β γ : Type}

/-- What was opened is closed again, whatever came between. -/
theorem Act.Always.bracket {R S : σ → σ → Prop} [IsPreorder σ S] {opening : Act σ Unit}
    {act : Act σ α} {closing : Act σ γ} {next : Except Fault α → Except Fault γ → Act σ β}
    (hopen : ∀ s, (opening.exec s).1 = .ok ())
    (hclose : ∀ {s s'}, R (opening.exec s).2 s' → S s (closing.exec s').2)
    (hact : act.Always R) (hnext : ∀ a c, (next a c).Always S) :
    (do opening; let a ← act.attempt; let c ← closing.attempt; next a c).Always S := by
  intro s
  have hs := hopen s
  have hc := @hclose s
  rw [Act.exec_bind]
  revert hs hc
  rcases opening.exec s with ⟨r, t⟩
  rintro rfl hc
  dsimp only
  rw [Act.exec_attempt_bind, Act.exec_attempt_bind]
  exact trans_of S (hc (hact t)) (hnext _ _ _)

namespace Transformer

variable {self : (s : Site) → Build σ s.Result}

section Lists

variable {R : Session σ → Session σ → Prop} [IsPreorder (Session σ) R]
variable (hself : ∀ site, (self site).Always R)

include hself

private theorem visitSpan_always (span : Option Span) : (visitSpan self span).Always R := by
  cases span with
  | none => exact .pure ()
  | some i => exact hself (.span i)

private theorem visitExprs_always (es : List Expr) : (visitExprs self es).Always R := by
  refine .each (visitExprs self) rfl (fun _ _ => rfl) (fun e => ?_) es
  exact hself (.expr e)

private theorem visitDims_always (ds : List Dim) : (visitDims self ds).Always R := by
  refine .each (visitDims self) rfl (fun _ _ => rfl) (fun d => ?_) ds
  exact hself (.dim d)

private theorem visitTypes_always (is : List StructInfo) : (visitTypes self is).Always R := by
  refine .each (visitTypes self) rfl (fun _ _ => rfl) (fun i => ?_) is
  exact hself (.type i)

private theorem visitVarDefs_always (vs : List Var) : (visitVarDefs self vs).Always R := by
  refine .each (visitVarDefs self) rfl (fun _ _ => rfl) (fun v => ?_) vs
  exact hself (.varDef v)

private theorem visitBlocks_always (bs : List Block) : (visitBlocks self bs).Always R := by
  refine .each (visitBlocks self) rfl (fun _ _ => rfl) (fun b => ?_) bs
  exact hself (.block b)

private theorem visitBindings_always (bs : List Binding) : (visitBindings self bs).Always R := by
  induction bs with
  | nil => exact .pure ()
  | cons b bs ih =>
    have hb := hself (.binding b)
    exact hb.bind fun _ => ih

end Lists

/-- Visiting what `h` visits keeps the balance, if the traversal does elsewhere. -/
def Balanced (h : Transformer σ) : Prop :=
  ∀ self, (∀ site, (self site).Always Session.Balanced) →
    ∀ site, (h self site).Always Session.Balanced

section Walks

variable (hself : ∀ site, (self site).Always Session.Balanced)

/-- A new node or the same one. -/
private theorem settle_balances {same : Prop} [Decidable same] {old : α} {new : Mark → α}
    {span : Option Span} :
    (if same then pure old
      else do return new (← freshMark span) : Build σ α).Always Session.Balanced := by
  split
  · exact .pure _
  · refine .bind ((freshMark_restores _).mono Restored.balanced) fun mark => ?_
    exact .pure _

/-- The rebuilt binding, after the variable took its new struct info. -/
private theorem renewed_balances (v v' : Var) (sinfo : Option StructInfo) (span : Option Span)
    (new : Mark → Var → Binding) : (do
      let v' ← retype v' sinfo
      remapIfChanged v v'
      emitBinding (new (← freshMark span) v') : Build σ Unit).Always Session.Balanced := by
  refine .bind ((retype_restores _ _).mono Restored.balanced) fun v' => ?_
  have hremap : (remapIfChanged v v' : Build σ Unit).Always Session.Balanced := by
    rw [remapIfChanged]
    split
    · exact .pure _
    · exact setRemap_balances _ _
  refine .bind hremap fun _ => ?_
  refine .bind ((freshMark_restores _).mono Restored.balanced) fun mark => ?_
  exact (emitBinding_restores _).mono Restored.balanced

include hself

theorem inScope_restores (e : Expr) (params : List Var) :
    (inScope self e params).Always Restored := by
  intro s
  let opened := ((openRemap : Build σ Unit).exec s).2
  let inner := ((beginScope params).exec opened).2
  let started := ((beginBlock .plain).exec inner).2
  let visited := ((self (.expr e)).exec started).2
  let ended := (endBlock.exec visited).2
  let unscoped := (endScope.exec ended).2
  have hended : inner.Balanced ended := .endBlock (hself (.expr e) started)
  have hunscoped : opened.Balanced unscoped := .endScope hended
  have hclosed : s.Restored (closeRemap.exec unscoped).2 := Session.Balanced.closeRemap hunscoped
  have hrest : ∀ result prologue scope remap, (do
      let result ← Act.resume result
      let prologue ← Act.resume prologue
      Act.resume scope
      Act.resume remap
      if prologue.bindings.isEmpty then return result
      else normalize (.mkSeq (← freshMark none) [prologue] result) :
        Build σ Expr).Always Restored := by
    intro result prologue scope remap
    refine .bind (.resume _) fun result => ?_
    refine .bind (.resume _) fun prologue => ?_
    refine .bind (.resume _) fun _ => ?_
    refine .bind (.resume _) fun _ => ?_
    split
    · exact .pure _
    · exact .bind (freshMark_restores _) fun mark => normalize_restores _
  exact trans_of Restored hclosed (hrest _ _ _ _ _)

private theorem walkFunction_balances (f : Function) :
    (walkFunction self f).Always Session.Balanced := by
  refine .bind (visitVarDefs_always hself f.params) fun params => ?_
  refine .bind (hself (.type f.ret)) fun ret => ?_
  refine .bind ((inScope_restores hself f.body params).mono Restored.balanced) fun body => ?_
  exact settle_balances

/-- Replacements made for a function end with it. -/
private theorem walkFunctionScope_restores (f : Function) :
    (walkFunctionScope self f).Always Restored := by
  apply Act.Always.bracket (fun _ => rfl) Session.Balanced.closeRemap
    (walkFunction_balances hself f)
  intro result remap
  refine .bind (.resume _) fun result => ?_
  refine .bind (.resume _) fun _ => ?_
  exact .pure _

private theorem walkSeq_balances (node : Node) (blocks : List Block) (body : Expr) :
    (walkSeq self node blocks body).Always Session.Balanced := by
  refine .bind (visitBlocks_always hself blocks) fun newBlocks => ?_
  apply Act.Always.bracket (fun _ => rfl) Session.Balanced.endBlock (hself (.expr body))
  intro newBody prologue
  refine .bind (.resume _) fun newBody => ?_
  refine .bind (.resume _) fun prologue => ?_
  exact settle_balances

private theorem walkCall_balances (c : Call) : (walkCall self c).Always Session.Balanced := by
  refine .bind (hself (.expr c.callee)) fun callee => ?_
  refine .bind (visitTypes_always hself c.sinfoArgs) fun sinfoArgs => ?_
  refine .bind (visitExprs_always hself c.args) fun args => ?_
  exact settle_balances

private theorem walkIte_balances (node : Node) (cond onTrue onFalse : Expr) :
    (walkIte self node cond onTrue onFalse).Always Session.Balanced := by
  have htrue := (inScope_restores hself onTrue []).mono Restored.balanced
  have hfalse := (inScope_restores hself onFalse []).mono Restored.balanced
  refine .bind (hself (.expr cond)) fun cond' => ?_
  refine .bind htrue fun onTrue' => ?_
  refine .bind hfalse fun onFalse' => ?_
  exact settle_balances

private theorem walkExpr_balances (e : Expr) : (walkExpr self e).Always Session.Balanced := by
  refine .bind (visitSpan_always hself _) fun _ => ?_
  cases e with
  | leaf node content => exact .pure _
  | var v =>
    refine .bind ((getRemap?_restores _).mono Restored.balanced) fun found => ?_
    exact .pure _
  | shape node values =>
    refine .bind (visitDims_always hself values) fun values' => ?_
    exact settle_balances
  | prim node value dtype =>
    refine .bind (hself (.dim value)) fun value' => ?_
    exact settle_balances
  | tuple node fields =>
    refine .bind (visitExprs_always hself fields) fun fields' => ?_
    exact settle_balances
  | item node whole index =>
    refine .bind (hself (.expr whole)) fun whole' => ?_
    exact settle_balances
  | call node callee args attrs sinfoArgs => exact walkCall_balances hself _
  | ite node cond onTrue onFalse => exact walkIte_balances hself _ _ _ _
  | seq node blocks body => exact walkSeq_balances hself _ _ _
  | function node params body ret attrs =>
    exact (walkFunctionScope_restores hself _).mono Restored.balanced

private theorem walkVarDef_balances (v : Var) :
    (walkVarDef self v).Always Session.Balanced := by
  refine .bind (visitSpan_always hself _) fun _ => ?_
  cases v.sinfo with
  | none => exact .pure _
  | some i =>
    refine .bind (hself (.type i)) fun i' => ?_
    split
    · exact .pure _
    · refine .bind ((freshMark_restores _).mono Restored.balanced) fun mark => ?_
      refine .bind (setRemap_balances _ _) fun _ => ?_
      exact .pure _

private theorem walkBind_balances (mark : Mark) (v : Var) (value : Expr) :
    (walkBind self mark v value).Always Session.Balanced := by
  refine .bind (hself (.expr value)) fun value' => ?_
  refine .bind (hself (.varDef v)) fun v' => ?_
  split
  · exact (emitBinding_restores _).mono Restored.balanced
  · exact renewed_balances v v' _ _ (.bind · · value')

private theorem walkCast_balances (mark : Mark) (v : Var) (value : Expr) (sinfo : StructInfo) :
    (walkCast self mark v value sinfo).Always Session.Balanced := by
  refine .bind (hself (.expr value)) fun value' => ?_
  refine .bind (hself (.type sinfo)) fun sinfo' => ?_
  refine .bind (hself (.varDef v)) fun v' => ?_
  split
  · exact (emitBinding_restores _).mono Restored.balanced
  · exact renewed_balances v v' _ _ (.cast · · value' sinfo')

private theorem walkBinding_balances (b : Binding) :
    (walkBinding self b).Always Session.Balanced := by
  cases b with
  | bind mark v value => exact walkBind_balances hself _ _ _
  | cast mark v value sinfo => exact walkCast_balances hself _ _ _ _

private theorem walkBlockAs_balances (kind : BlockKind) (b : Block) :
    (walkBlockAs self kind b).Always Session.Balanced := by
  apply Act.Always.bracket (fun _ => rfl) Session.Balanced.endBlock (visitBindings_always hself _)
  intro visited new
  refine .bind (.resume _) fun _ => ?_
  refine .bind (.resume _) fun new => ?_
  split
  · exact .pure _
  · exact .pure _

/-- One step of the default traversal, by cases on the place. -/
theorem walk_balances (site : Site) : (walk self site).Always Session.Balanced := by
  cases site with
  | expr e =>
    refine .bind (hself (.exprKind e)) fun e' => ?_
    exact (normalize_restores e').mono Restored.balanced
  | exprKind e => exact walkExpr_balances hself e
  | binding b => exact hself (.bindingKind b)
  | bindingKind b => exact walkBinding_balances hself b
  | block b => exact hself (.blockKind b)
  | blockKind b => exact walkBlockAs_balances hself _ b
  | varDef v => exact hself (.varDefKind v)
  | varDefKind v => exact walkVarDef_balances hself v
  | type i => exact .pure i
  | span i => exact .pure ()
  | dim d => exact .pure d

end Walks

theorem walk_balanced : (walk : Transformer σ).Balanced := by
  intro self hself site
  exact walk_balances hself site

private theorem fuseMultiplyAdd_balanced : fuseMultiplyAdd.Balanced := by
  intro self hself site
  have hfuse : ∀ e, (fuseAddition e).Always Restored := by
    intro e
    rw [fuseAddition]
    split
    · exact .pure _
    · refine .bind getBuilder_restores fun b => ?_
      split
      · exact .pure _
      · refine .bind (report_restores _) fun _ => ?_
        refine .bind (freshMark_restores _) fun mark => ?_
        refine .bind fresh_restores fun tag => ?_
        exact .pure _
  unfold fuseMultiplyAdd
  split
  · refine .bind (walkExpr_balances hself _) fun e => ?_
    exact (hfuse e).mono Restored.balanced
  · exact walk_balances hself _

private theorem changeKind_balances (dataflow : Bool) (v : Var) :
    (changeKind dataflow v : Build σ Var).Always Session.Balanced := by
  refine .bind ((freshMark_restores _).mono Restored.balanced) fun mark => ?_
  refine .bind (setRemap_balances _ _) fun _ => ?_
  exact .pure _

private theorem lowerCall_balances {self : (s : Site) → Build Unit s.Result}
    (hself : ∀ site, (self site).Always Session.Balanced) (mark : Mark) (v : Var)
    (out : StructInfo) (shape f packed : Expr) :
    (lowerCall self mark v out shape f packed).Always Session.Balanced := by
  -- The operands are visited, the allocation and the call are emitted, and the variable is bound
  -- to what was allocated.
  refine .bind (hself (.expr shape)) fun shape' => ?_
  refine .bind (hself (.expr f)) fun f' => ?_
  refine .bind (hself (.expr packed)) fun packed' => ?_
  refine .bind (fresh_restores.mono Restored.balanced) fun tag => ?_
  refine .bind ((freshMark_restores _).mono Restored.balanced) fun allocMark => ?_
  refine .bind ((emit_restores _ _).mono Restored.balanced) fun alloc => ?_
  refine .bind ((report_restores _).mono Restored.balanced) fun _ => ?_
  refine .bind ((freshMark_restores _).mono Restored.balanced) fun callMark => ?_
  refine .bind ((emit_restores _ _).mono Restored.balanced) fun call => ?_
  refine .bind (hself (.varDef v)) fun v' => ?_
  exact renewed_balances v v' _ _ (.bind · · (.var alloc))

private theorem makeMemoryExplicit_balanced : makeMemoryExplicit.Balanced := by
  intro self hself site
  unfold makeMemoryExplicit
  split
  · next b =>
    unfold lowerBinding
    split
    · exact walkBinding_balances hself _
    · split
      · exact walkBinding_balances hself _
      · split
        · exact walkBinding_balances hself _
        · exact lowerCall_balances hself _ _ _ _ _ _
  · exact walkBlockAs_balances hself _ _
  · split
    · exact changeKind_balances _ _
    · exact walkVarDef_balances hself _
  · exact walk_balances hself _

end Transformer

theorem Pass.balanced (p : Pass) : p.transformer.Balanced := by
  cases p with
  | normalize => exact Transformer.walk_balanced
  | fusedMultiplyAdd => exact Transformer.fuseMultiplyAdd_balanced
  | explicitMemory => exact Transformer.makeMemoryExplicit_balanced

namespace TransformerTable

/-- Every handler and every hook closes what it opens, if the traversal does elsewhere. -/
structure Balanced (t : TransformerTable σ) : Prop where
  handler : ∀ slot h, t.handler slot = some h → h.Balanced
  hook : ∀ kind h, t.hook kind = some h → ∀ self,
    (∀ site, (self site).Always Session.Balanced) → ∀ e, (h self e).Always Session.Balanced

theorem Balanced.transformer {t : TransformerTable σ} (ht : t.Balanced) :
    t.transformer.Balanced := by
  intro self hself site
  rw [TransformerTable.transformer]
  split
  · next slot hslot =>
    rw [transformerAt]
    cases hh : t.handler slot with
    | some h => exact ht.handler slot h hh self hself site
    | none =>
      cases hk : t.hookAt site with
      | none =>
        dsimp only
        split
        · exact .fail _
        · exact Transformer.walk_balances hself site
      | some hook =>
        cases site with
        | exprKind e =>
          refine .bind (Transformer.walk_balances hself _) fun rebuilt => ?_
          refine .bind ((normalize_restores _).mono Restored.balanced) fun e' => ?_
          exact ht.hook e.kind hook hk self hself e'
        | _ => cases hk
  · exact Transformer.walk_balances hself site

/-- The handler of spans, if there is one, puts in no replacement that stays. -/
def RestoresSpans (t : TransformerTable σ) : Prop :=
  ∀ h, t.handler .span = some h → ∀ self, (∀ site, (self site).Always Session.Balanced) →
    ∀ i, (h self (.span i)).Always Restored

end TransformerTable

namespace Transformer

/-- Wherever a run of the transformer ends, what was open around the place is open; a scope of its
own leaves the replacements as they were. -/
structure Closes (r : Transformer σ) : Prop where
  visit : ∀ fuel site (s : Session σ), s.Balanced ((r.run fuel site).exec s).2
  scope : ∀ fuel e params (s : Session σ), s.Restored ((inScope (r.run fuel) e params).exec s).2

/-- The default walk of a function leaves the replacements as they were. -/
def RestoresFunctions (r : Transformer σ) : Prop :=
  ∀ fuel (f : Function) (s : Session σ),
    s.Restored ((walk (r.run fuel) (.exprKind f.toExpr)).exec s).2

/-- The default walk of a function leaves the replacements as the visit of its span left them. -/
def RestoresPastSpans (r : Transformer σ) : Prop :=
  ∀ fuel (f : Function) (s : Session σ),
    ((visitSpan (r.run fuel) f.node.span).exec s).2.Restored
      ((walk (r.run fuel) (.exprKind f.toExpr)).exec s).2

variable {r : Transformer σ}

theorem Balanced.run (hr : r.Balanced) (fuel : Fuel) (site : Site) :
    (r.run fuel site).Always Session.Balanced := by
  induction fuel generalizing site with
  | spent => exact .fail _
  | step rest ih => exact hr _ (ih ()) site

theorem Balanced.closes (hr : r.Balanced) : r.Closes := by
  constructor
  · intro fuel
    exact hr.run fuel
  · intro fuel
    exact inScope_restores (hr.run fuel)

/-- The span is visited before the scope of the function's replacements is opened. -/
private theorem Balanced.restoresPastSpans (hr : r.Balanced) : r.RestoresPastSpans := by
  intro fuel f s
  have hscope := walkFunctionScope_restores (hr.run fuel) f
  have hwalk : walk (r.run fuel) (.exprKind f.toExpr) =
      visitSpan (r.run fuel) f.node.span >>= fun _ => walkFunctionScope (r.run fuel) f := rfl
  rw [hwalk, Act.exec_bind]
  rcases (visitSpan (r.run fuel) f.node.span).exec s with ⟨visited, t⟩
  cases visited with
  | ok _ => exact hscope t
  | error fault => exact refl_of Restored t

/-- Where the visits of spans put in nothing that stays, neither do functions. -/
theorem Balanced.restoresFunctions (hr : r.Balanced)
    (hspan : ∀ self, (∀ site, (self site).Always Session.Balanced) →
      ∀ i, (r self (.span i)).Always Restored) : r.RestoresFunctions := by
  intro fuel f s
  have hvisit : s.Restored ((visitSpan (r.run fuel) f.node.span).exec s).2 := by
    cases f.node.span with
    | none => exact refl_of Restored s
    | some i =>
      cases fuel with
      | spent => exact refl_of Restored s
      | step rest => exact hspan _ (hr.run (rest ())) i s
  exact trans_of Restored hvisit (hr.restoresPastSpans fuel f s)

end Transformer

theorem Pass.restoresFunctions (p : Pass) : p.transformer.RestoresFunctions := by
  apply p.balanced.restoresFunctions
  intro self _ i
  cases p <;> exact .pure ()

theorem TransformerTable.Balanced.restoresFunctions {t : TransformerTable σ} (ht : t.Balanced)
    (hspans : t.RestoresSpans) : t.transformer.RestoresFunctions := by
  apply ht.transformer.restoresFunctions
  intro self hself i
  change (t.transformerAt .span (.span i) self (.span i)).Always Restored
  rw [TransformerTable.transformerAt]
  cases hh : t.handler .span with
  | some h => exact hspans h hh self hself i
  | none =>
    simp only [TransformerTable.hookAt, Slot.isOfKind, Bool.and_false]
    exact .pure ()

/-- The default traversal, the default passes, and what is composed of handlers that close what they
open themselves, whether they succeed or fail. A handler of spans may put in a replacement that
stays after a function: the span is visited outside the function's own scope. -/
theorem transformers_close :
    (∀ σ : Type, (Transformer.walk : Transformer σ).Closes ∧
      (Transformer.walk : Transformer σ).RestoresFunctions) ∧
    (∀ p : Pass, p.transformer.Closes ∧ p.transformer.RestoresFunctions) ∧
    ∀ (σ : Type) (t : TransformerTable σ), t.Balanced →
      t.transformer.Closes ∧ t.transformer.RestoresPastSpans ∧
        (t.RestoresSpans → t.transformer.RestoresFunctions) := by
  refine ⟨fun σ => ⟨?_, ?_⟩, fun p => ⟨?_, ?_⟩, fun σ t ht => ⟨?_, ?_, ?_⟩⟩
  · exact Transformer.walk_balanced.closes
  · apply Transformer.walk_balanced.restoresFunctions
    intro self _ i
    exact .pure ()
  · exact p.balanced.closes
  · exact p.restoresFunctions
  · exact ht.transformer.closes
  · exact ht.transformer.restoresPastSpans
  · exact ht.restoresFunctions

namespace Hoisting

/-- A call becomes a new variable bound to it, which later uses of `x` refer to. -/
def hoist : Transformer Unit :=
  fun self s =>
    match s with
    | .exprKind e => do
      let v ← emit (← Transformer.walk self (.exprKind e)) "hoisted"
      setRemap ⟨0, "x"⟩ v
      return .var v
    | s => Transformer.walk self s

def refuse : Transformer Unit :=
  fun _ _ => Act.fail (.raised "external function")

def handlers : TransformerTable Unit :=
  (TransformerTable.empty.supply (.exprKind .call) hoist).supply (.exprKind .externFunc) refuse

private theorem handlers_balanced : handlers.Balanced where
  handler := by
    intro slot h hh
    have hcases : h = refuse ∨ h = hoist := by
      simp only [handlers, TransformerTable.supply, TransformerTable.empty] at hh
      split at hh
      · exact .inl (Option.some.inj hh).symm
      · split at hh
        · exact .inr (Option.some.inj hh).symm
        · cases hh
    rcases hcases with rfl | rfl
    · intro self hself site
      exact .fail _
    · intro self hself site
      unfold hoist
      split
      · refine .bind (Transformer.walk_balances hself _) fun e' => ?_
        refine .bind ((emit_restores _ _).mono Restored.balanced) fun v => ?_
        refine .bind (setRemap_balances _ _) fun _ => ?_
        exact .pure _
      · exact Transformer.walk_balances hself _
  hook := by
    intro kind h hh
    cases hh

def tensor : StructInfo :=
  .tensorOfShape [.int 4] (.float 32)

def input : Var :=
  ⟨⟨⟨0, none⟩, some tensor⟩, ⟨0, "x"⟩, false⟩

def sum : Var :=
  ⟨⟨⟨1, none⟩, some tensor⟩, ⟨1, "y"⟩, false⟩

/-- The sum is hoisted before the external function is met. -/
def main : Function :=
  ⟨⟨⟨8, none⟩, none⟩, [input],
    .mkSeq ⟨7, none⟩
      [.mk ⟨6, none⟩ .plain [.bind ⟨4, none⟩ sum
        (.mkCall ⟨3, none⟩ (.mkOp 2 "relax.add") [.var input, .var input] none [])]]
      (.mkCall ⟨9, none⟩ (.mkLeaf ⟨5, none⟩ (.externFunc "f")) [.var sum] none []), .object, .empty⟩

/-- A block is under construction, in a scope in which another variable stands for `x`. -/
def start : Session Unit :=
  { Session.new () .standard ⟨10, []⟩ with
    builder := (Builder.new .standard).beginBlock .dataflow
    remap := Remap.empty.openScope.insert input.id sum }

/-- The default walk of the function, and the message with which it fails. -/
def run : Except Fault Expr × Session Unit :=
  (Transformer.walk (handlers.transformer.run main.toExpr.fuel) (.exprKind main.toExpr)).exec start

def message? : Option String :=
  match run.1 with
  | .ok _ => none
  | .error f => some f.message

end Hoisting

open Hoisting in
theorem transformers_close_hoisting :
    handlers.Balanced ∧ handlers.RestoresSpans ∧ message? = some "external function" ∧
      start.Restored run.2 := by
  have hspans : handlers.RestoresSpans := by
    intro h hh
    cases hh
  obtain ⟨-, -, hrestores⟩ := transformers_close.2.2 Unit handlers handlers_balanced
  exact ⟨handlers_balanced, hspans, by decide +kernel, hrestores hspans _ main start⟩

namespace SpanReplacing

def x : Var :=
  ⟨⟨⟨0, none⟩, none⟩, ⟨0, "x"⟩, false⟩

def y : Var :=
  ⟨⟨⟨1, none⟩, none⟩, ⟨1, "y"⟩, false⟩

/-- Wherever a span is met, `y` comes to stand for `x`. -/
def replace : Transformer Unit :=
  fun self s =>
    match s with
    | .span _ => setRemap x.id y
    | s => Transformer.walk self s

def handlers : TransformerTable Unit :=
  TransformerTable.empty.supply .span replace

private theorem handlers_closing : handlers.Balanced where
  handler := by
    intro slot h hh
    have hcase : h = replace := by
      simp only [handlers, TransformerTable.supply, TransformerTable.empty] at hh
      split at hh
      · exact (Option.some.inj hh).symm
      · cases hh
    subst hcase
    intro self hself site
    unfold replace
    split
    · exact setRemap_balances _ _
    · exact Transformer.walk_balances hself _
  hook := by
    intro kind h hh
    cases hh

/-- A function with a span. -/
def main : Function :=
  ⟨⟨⟨2, some ⟨"main", 1, 1⟩⟩, none⟩, [], .mkLeaf ⟨3, none⟩ (.externFunc "f"), .object, .empty⟩

end SpanReplacing

open SpanReplacing in
/-- The replacement is there when the walk of the function is over, and was not before. -/
theorem span_replacement_stays :
    ¬∀ (σ : Type) (t : TransformerTable σ), t.Balanced → t.transformer.RestoresFunctions := by
  intro h
  have hmain := h Unit handlers handlers_closing main.toExpr.fuel main (.new () .standard ⟨4, []⟩)
  have hx := congrFun hmain.remap x.id
  revert hx
  decide +kernel

end DataflowIR
