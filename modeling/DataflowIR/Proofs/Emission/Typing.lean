import DataflowIR.Proofs.Emission.Holdings
import DataflowIR.Proofs.Rewrite.Parts

namespace DataflowIR

open Session

/-- The variable has the struct info of the match cast, or that of the value if the value has one. -/
def Binding.Typed : Binding → Prop
  | .bind _ v value => ∀ i, value.sinfo = some i → v.sinfo = some i
  | .cast _ v _ i => v.sinfo = some i

def Module.bindings (m : Module) : List Binding :=
  m.toList.flatMap fun e => e.2.toExpr.within

namespace Transformer

variable {K : Binding → Prop} {σ : Type} {go : (s : Site) → Build σ s.Result}

/-- Places of which all bindings satisfy `K` are visited with nothing but such bindings. -/
structure Yielding (K : Binding → Prop) (go : (s : Site) → Build σ s.Result) : Prop where
  expr : ∀ e : Expr, e.Only K → (go (.expr e)).Yields K (Expr.Only K)
  exprKind : ∀ e : Expr, e.Only K → (go (.exprKind e)).Yields K (Expr.Only K)
  binding : ∀ b : Binding, b.Only K → (go (.binding b)).Yields K fun _ => True
  bindingKind : ∀ b : Binding, b.Only K → (go (.bindingKind b)).Yields K fun _ => True
  block : ∀ b : Block, b.Only K → (go (.block b)).Yields K (Block.Only K)
  blockKind : ∀ b : Block, b.Only K → (go (.blockKind b)).Yields K (Block.Only K)
  varDef : ∀ v, (go (.varDef v)).Yields K fun _ => True
  varDefKind : ∀ v, (go (.varDefKind v)).Yields K fun _ => True
  type : ∀ i, (go (.type i)).Yields K fun _ => True
  span : ∀ i, (go (.span i)).Yields K fun _ => True
  dim : ∀ d, (go (.dim d)).Yields K fun _ => True

section Walks

variable (hgo : Yielding K go)

/-- A new node or the same one. -/
theorem settle_yields {α : Type} {same : Prop} [Decidable same] {old : α} {new : Mark → α}
    {span : Option Span} {Q : α → Prop} (hold : Q old) (hnew : ∀ m, Q (new m)) :
    (if same then pure old
      else do return new (← freshMark span) : Build σ α).Yields K Q := by
  split
  · exact .pure hold
  · exact (freshMark_yields _).bind fun m _ => .pure (hnew m)

private theorem remapIfChanged_yields (v v' : Var) :
    (remapIfChanged v v' : Build σ Unit).Yields K fun _ => True := by
  rw [remapIfChanged]
  split
  · exact .pure trivial
  · exact setRemap_yields _ _

/-- The rebuilt binding, after the variable took its new struct info. -/
theorem renewed_yields (v v' : Var) (sinfo : Option StructInfo) (span : Option Span)
    {new : Mark → Var → Binding}
    (hnew : ∀ m w, (∀ i, sinfo = some i → w.sinfo = some i) → (new m w).Only K) : (do
      let v' ← retype v' sinfo
      remapIfChanged v v'
      emitBinding (new (← freshMark span) v') : Build σ Unit).Yields K fun _ => True := by
  refine (retype_yields _ _).bind fun w hw => ?_
  refine (remapIfChanged_yields _ _).bind fun _ _ => ?_
  refine (freshMark_yields _).bind fun m _ => ?_
  exact emitBinding_yields (hnew m w hw)

include hgo

private theorem visitSpan_yields (span : Option Span) :
    (visitSpan go span).Yields K fun _ => True := by
  cases span with
  | none => exact .pure trivial
  | some i => exact hgo.span i

private theorem visitExprs_yields {es : List Expr} (hes : ∀ e ∈ es, e.Only K) :
    (visitExprs go es).Yields K fun es' => ∀ e ∈ es', e.Only K := by
  exact .each (visitExprs go) rfl (fun _ _ => rfl) hgo.expr hes

private theorem visitDims_yields (ds : List Dim) : (visitDims go ds).Yields K fun _ => True := by
  apply Act.Yields.any
  apply Act.Yields.each (visitDims go) rfl (fun _ _ => rfl) (fun d _ => hgo.dim d)
  exact fun _ _ => trivial

private theorem visitTypes_yields (is : List StructInfo) :
    (visitTypes go is).Yields K fun _ => True := by
  apply Act.Yields.any
  apply Act.Yields.each (visitTypes go) rfl (fun _ _ => rfl) (fun i _ => hgo.type i)
  exact fun _ _ => trivial

private theorem visitVarDefs_yields (vs : List Var) :
    (visitVarDefs go vs).Yields K fun _ => True := by
  apply Act.Yields.any
  apply Act.Yields.each (visitVarDefs go) rfl (fun _ _ => rfl) (fun v _ => hgo.varDef v)
  exact fun _ _ => trivial

private theorem visitBlocks_yields {bs : List Block} (hbs : ∀ b ∈ bs, b.Only K) :
    (visitBlocks go bs).Yields K fun bs' => ∀ b ∈ bs', b.Only K := by
  exact .each (visitBlocks go) rfl (fun _ _ => rfl) hgo.block hbs

private theorem visitBindings_yields {bs : List Binding} (hbs : ∀ b ∈ bs, b.Only K) :
    (visitBindings go bs).Yields K fun _ => True := by
  induction bs with
  | nil => exact .pure trivial
  | cons b bs ih =>
    obtain ⟨hb, hbs⟩ := List.forall_mem_cons.mp hbs
    exact (hgo.binding b hb).bind fun _ _ => ih hbs

theorem inScope_yields {e : Expr} (he : e.Only K) (params : List Var) :
    (inScope go e params).Yields K (Expr.Only K) := by
  refine openRemap_yields.bind fun _ _ => (beginScope_yields _).bind fun _ _ =>
    (beginBlock_yields _).bind fun _ _ => (hgo.expr e he).attempt.bind fun visited hv =>
    endBlock_yields.attempt.bind fun prologue hp => endScope_yields.attempt.bind fun scope _ =>
    closeRemap_yields.attempt.bind fun remap _ => (Act.Yields.resume hv).bind fun e' he' =>
    (Act.Yields.resume hp).bind fun b hb =>
    (Act.Yields.resume fun _ _ => trivial).bind fun _ _ =>
    (Act.Yields.resume fun _ _ => trivial).bind fun _ _ => ?_
  split
  · exact .pure he'
  · refine (freshMark_yields _).bind fun m _ => (normalize_yields ?_).mono fun _ h => h.1
    exact Expr.only_seq.mpr ⟨List.forall_mem_singleton.mpr hb, he'⟩

private theorem walkFunction_yields {f : Function} (hf : f.toExpr.Only K) :
    (walkFunction go f).Yields K (Expr.Only K) := by
  refine (visitVarDefs_yields hgo _).bind fun _ _ => ?_
  refine (hgo.type f.ret).bind fun _ _ => ?_
  refine (inScope_yields hgo (e := f.body) hf _).bind ?_
  intro _ hbody
  exact settle_yields hf fun _ => hbody

private theorem walkFunctionScope_yields {f : Function} (hf : f.toExpr.Only K) :
    (walkFunctionScope go f).Yields K (Expr.Only K) := by
  refine openRemap_yields.bind fun _ _ => ?_
  refine (walkFunction_yields hgo hf).attempt.bind fun _ hr => ?_
  refine closeRemap_yields.attempt.bind fun _ _ => ?_
  refine (Act.Yields.resume hr).bind fun _ he => ?_
  exact (Act.Yields.resume fun _ _ => trivial).bind fun _ _ => .pure he

private theorem walkSeq_yields {node : Node} {blocks : List Block} {body : Expr}
    (he : (Expr.seq node blocks body).Only K) :
    (walkSeq go node blocks body).Yields K (Expr.Only K) := by
  obtain ⟨hblocks, hbody⟩ := Expr.only_seq.mp he
  refine (visitBlocks_yields hgo hblocks).bind fun blocks' hblocks' =>
    (beginBlock_yields _).bind fun _ _ => (hgo.expr body hbody).attempt.bind fun _ hb =>
    endBlock_yields.attempt.bind fun _ hp => (Act.Yields.resume hb).bind fun body' hbody' =>
    (Act.Yields.resume hp).bind fun prologue hprologue => settle_yields he fun _ => ?_
  refine Expr.only_seq.mpr ⟨fun b hb => ?_, hbody'⟩
  have hall : ∀ b ∈ blocks' ++ [prologue], b.Only K :=
    List.forall_mem_append.mpr ⟨hblocks', List.forall_mem_singleton.mpr hprologue⟩
  exact hall b (List.mem_filter.mp hb).1

private theorem walkCall_yields {c : Call} (hc : c.toExpr.Only K) :
    (walkCall go c).Yields K (Expr.Only K) := by
  obtain ⟨hcallee, hargs⟩ := Expr.only_call.mp hc
  exact (hgo.expr c.callee hcallee).bind fun _ hcallee' => (visitTypes_yields hgo _).bind fun _ _ =>
    (visitExprs_yields hgo hargs).bind fun _ hargs' =>
    settle_yields hc fun _ => Expr.only_call.mpr ⟨hcallee', hargs'⟩

private theorem walkIte_yields {node : Node} {cond onTrue onFalse : Expr}
    (he : (Expr.ite node cond onTrue onFalse).Only K) :
    (walkIte go node cond onTrue onFalse).Yields K (Expr.Only K) := by
  obtain ⟨hcond, htrue, hfalse⟩ := Expr.only_ite.mp he
  exact (hgo.expr cond hcond).bind fun _ hcond' => (inScope_yields hgo htrue _).bind fun _ htrue' =>
    (inScope_yields hgo hfalse _).bind fun _ hfalse' =>
    settle_yields he fun _ => Expr.only_ite.mpr ⟨hcond', htrue', hfalse'⟩

private theorem walkExpr_yields {e : Expr} (he : e.Only K) :
    (walkExpr go e).Yields K (Expr.Only K) := by
  refine (visitSpan_yields hgo _).bind fun _ _ => ?_
  cases e with
  | leaf node content => exact .pure he
  | var v =>
    exact (Act.Yields.of_builder_eq fun _ => rfl).bind fun _ _ => .pure (Expr.only_var _)
  | shape node values =>
    exact (visitDims_yields hgo _).bind fun _ _ => settle_yields he fun _ => Expr.only_shape _ _
  | prim node value dtype =>
    exact (hgo.dim value).bind fun _ _ => settle_yields he fun _ => Expr.only_prim _ _ _
  | tuple node fields =>
    exact (visitExprs_yields hgo (Expr.only_tuple.mp he)).bind fun _ hf =>
      settle_yields he fun _ => Expr.only_tuple.mpr hf
  | item node whole index =>
    exact (hgo.expr whole he).bind fun _ hw => settle_yields he fun _ => hw
  | call node callee args attrs sinfoArgs => exact walkCall_yields hgo he
  | ite node cond onTrue onFalse => exact walkIte_yields hgo he
  | seq node blocks body => exact walkSeq_yields hgo he
  | function node params body ret attrs => exact walkFunctionScope_yields hgo he

private theorem walkVarDef_yields (v : Var) : (walkVarDef go v).Yields K fun _ => True := by
  refine (visitSpan_yields hgo _).bind fun _ _ => ?_
  cases v.sinfo with
  | none => exact .pure trivial
  | some i =>
    refine (hgo.type i).bind fun i' _ => ?_
    split
    · exact .pure trivial
    · exact (freshMark_yields _).bind fun _ _ => (setRemap_yields _ _).bind fun _ _ =>
        .pure trivial

private theorem walkBlockAs_yields (kind : BlockKind) {b : Block} (hb : b.Only K) :
    (walkBlockAs go kind b).Yields K (Block.Only K) := by
  refine (beginBlock_yields _).bind fun _ _ =>
    (visitBindings_yields hgo (Block.only_iff.mp hb)).attempt.bind fun _ hv =>
    endBlock_yields.attempt.bind fun _ hn => (Act.Yields.resume hv).bind fun _ _ =>
    (Act.Yields.resume hn).bind fun new hnew => ?_
  split
  · exact .pure hb
  · refine .pure ?_
    cases new
    exact hnew

variable (hK : ∀ b : Binding, b.Typed → K b)

include hK

/-- A binding that is put together anew takes the struct info of its new value. -/
private theorem walkBind_yields {mark : Mark} {v : Var} {value : Expr}
    (hb : (Binding.bind mark v value).Only K) :
    (walkBind go mark v value).Yields K fun _ => True := by
  refine (hgo.expr value (Binding.only_iff.mp hb).2).bind fun value' hvalue' =>
    (hgo.varDef v).bind fun v' _ => ?_
  split
  · exact emitBinding_yields hb
  · exact renewed_yields v v' _ _ fun m w hw => Binding.only_iff.mpr ⟨hK _ hw, hvalue'⟩

private theorem walkCast_yields {mark : Mark} {v : Var} {value : Expr} {sinfo : StructInfo}
    (hb : (Binding.cast mark v value sinfo).Only K) :
    (walkCast go mark v value sinfo).Yields K fun _ => True := by
  refine (hgo.expr value (Binding.only_iff.mp hb).2).bind fun value' hvalue' =>
    (hgo.type sinfo).bind fun sinfo' _ => (hgo.varDef v).bind fun v' _ => ?_
  split
  · exact emitBinding_yields hb
  · exact renewed_yields v v' _ _ fun m w hw => Binding.only_iff.mpr ⟨hK _ (hw _ rfl), hvalue'⟩

theorem walkBinding_yields {b : Binding} (hb : b.Only K) :
    (walkBinding go b).Yields K fun _ => True := by
  cases b with
  | bind mark v value => exact walkBind_yields hgo hK hb
  | cast mark v value sinfo => exact walkCast_yields hgo hK hb

theorem Yielding.walk : Yielding K (Transformer.walk go) where
  expr _ he := (hgo.exprKind _ he).bind fun _ he' => (normalize_yields he').mono fun _ h => h.1
  exprKind _ he := walkExpr_yields hgo he
  binding _ hb := hgo.bindingKind _ hb
  bindingKind _ hb := walkBinding_yields hgo hK hb
  block _ hb := hgo.blockKind _ hb
  blockKind b hb := walkBlockAs_yields hgo b.kind hb
  varDef v := hgo.varDefKind v
  varDefKind v := walkVarDef_yields hgo v
  type _ := .pure trivial
  span _ := .pure trivial
  dim _ := .pure trivial

end Walks

/-- Where what was there before satisfies `K`, so does all that comes out, if `K` holds of what is
typed. -/
def TypesBindings (r : Transformer σ) : Prop :=
  ∀ K : Binding → Prop, (∀ b : Binding, b.Typed → K b) → ∀ go, Yielding K go → Yielding K (r go)

private theorem walk_typesBindings : (walk : Transformer σ).TypesBindings := by
  intro _ hK _ hgo
  exact hgo.walk hK

/-- The factors are part of a value that the builder holds. -/
private theorem fuseAddition_yields {e : Expr} (he : e.Only K) :
    (fuseAddition e).Yields K (Expr.Only K) := by
  unfold fuseAddition
  split
  · exact .pure he
  · next lhs addend ha =>
    refine getBuilder_yields.bind fun builder hbuilder => ?_
    split
    · exact .pure he
    · next a b hfactors =>
      obtain ⟨c, hc, hop⟩ := Option.bind_eq_some_iff.mp ha
      obtain rfl := Expr.eq_toExpr_of_asCall? hc
      have haddend : addend.Only K :=
        (Expr.only_call.mp he).2 _ (by simp [(Call.binaryOperands?_eq hop).1])
      simp only [factors?, Option.bind_eq_some_iff] at hfactors
      obtain ⟨c', ⟨value, ⟨v, -, hv⟩, hc'⟩, hop'⟩ := hfactors
      obtain rfl := Expr.eq_toExpr_of_asCall? hc'
      obtain ⟨-, hargs⟩ := Expr.only_call.mp (hbuilder.lookup hv)
      rw [(Call.binaryOperands?_eq hop').1] at hargs
      refine (report_yields _).bind fun _ _ => (freshMark_yields _).bind fun _ _ =>
        fresh_yields.bind fun _ _ => .pure (Expr.only_call.mpr ⟨Expr.only_leaf _ _, ?_⟩)
      simp only [List.forall_mem_cons, List.not_mem_nil, false_implies, implies_true, and_true]
      exact ⟨hargs a (by simp), hargs b (by simp), haddend⟩

private theorem fuseMultiplyAdd_typesBindings : fuseMultiplyAdd.TypesBindings := by
  intro K hK go hgo
  have hw := hgo.walk hK
  refine { hw with exprKind := fun e he => ?_ }
  cases e with
  | call => exact (walkExpr_yields hgo he).bind fun _ he' => fuseAddition_yields he'
  | _ => exact hw.exprKind _ he

/-- The new variable has the struct info of the value, if the value has one. -/
private theorem emit_yields (hK : ∀ b : Binding, b.Typed → K b) {value : Expr} (hv : value.Only K)
    (hint : String) :
    (emit value hint : Build σ Var).Yields K fun v =>
      ∀ i, value.sinfo = some i → v.sinfo = some i := by
  have hemit : ∀ dataflow, (emitValue value hint dataflow : Build σ Var).Yields K fun v =>
      ∀ i, value.sinfo = some i → v.sinfo = some i := fun dataflow =>
    (normalize_yields hv).bind fun value' hvalue' => (freshVar_yields _ _ _).bind fun v hsinfo =>
      (freshMark_yields _).bind fun m _ =>
      (emitBinding_yields (Binding.only_iff.mpr ⟨hK (.bind m v value') fun _ hi => hsinfo.trans hi,
        hvalue'.1⟩)).bind fun _ _ => .pure fun i hi => hsinfo.trans (hvalue'.2 i hi)
  refine getBuilder_yields.bind fun b _ => ?_
  split
  · exact (Act.Yields.fail (Q := fun _ => True) _).bind fun _ _ => hemit _
  · exact hemit _

/-- The allocation has the struct info of the output, and the variable gets the same. -/
private theorem lowerCall_yields {go : (s : Site) → Build Unit s.Result}
    (hK : ∀ b : Binding, b.Typed → K b) (hgo : Yielding K go) (mark : Mark) (v : Var)
    (out : StructInfo) {shape f packed : Expr} (hshape : shape.Only K) (hf : f.Only K)
    (hpacked : packed.Only K) :
    (lowerCall go mark v out shape f packed).Yields K fun _ => True := by
  refine (hgo.expr shape hshape).bind fun shape' hshape' => (hgo.expr f hf).bind fun f' hf' =>
    (hgo.expr packed hpacked).bind fun packed' hpacked' => fresh_yields.bind fun _ _ =>
    (freshMark_yields _).bind fun _ _ =>
    (emit_yields hK ?_ _).bind fun alloc halloc => (report_yields _).bind fun _ _ =>
    (freshMark_yields _).bind fun _ _ => (emit_yields hK ?_ _).bind fun _ _ =>
    (hgo.varDef v).bind fun v' _ => renewed_yields v v' _ _ fun m w hw => ?_
  · exact Expr.only_call.mpr ⟨Expr.only_leaf _ _, List.forall_mem_singleton.mpr hshape'⟩
  · refine Expr.only_call.mpr ⟨hf', List.forall_mem_append.mpr
      ⟨?_, List.forall_mem_singleton.mpr (Expr.only_var _)⟩⟩
    cases packed' with
    | tuple => exact Expr.only_tuple.mp hpacked'
    | _ => exact List.forall_mem_singleton.mpr hpacked'
  · refine Binding.only_iff.mpr ⟨hK _ fun i hi => ?_, Expr.only_var _⟩
    exact (hw out rfl).trans ((halloc out rfl).symm.trans hi)

private theorem lowerBinding_yields {go : (s : Site) → Build Unit s.Result}
    (hK : ∀ b : Binding, b.Typed → K b) (hgo : Yielding K go) {b : Binding} (hb : b.Only K) :
    (lowerBinding go b).Yields K fun _ => True := by
  cases b with
  | cast => exact walkBinding_yields hgo hK hb
  | bind mark v value =>
    unfold lowerBinding
    cases hc : value.asCall? with
    | none =>
      simp only [hc]
      exact walkBinding_yields hgo hK hb
    | some c =>
      cases hd : destinationPassing? c with
      | none =>
        simp only [hc, hd]
        exact walkBinding_yields hgo hK hb
      | some parts =>
        obtain ⟨shape, f, packed⟩ := parts
        simp only [hc, hd]
        obtain rfl := Expr.eq_toExpr_of_asCall? hc
        obtain ⟨-, hargs⟩ := Expr.only_call.mp (Binding.only_iff.mp hb).2
        rw [(destinationPassing?_eq hd).1] at hargs
        exact lowerCall_yields hK hgo _ _ _ (hargs shape (by simp)) (hargs f (by simp))
          (hargs packed (by simp))

private theorem makeMemoryExplicit_typesBindings : makeMemoryExplicit.TypesBindings := by
  intro K hK go hgo
  refine { hgo.walk hK with
    bindingKind := fun b hb => lowerBinding_yields hK hgo hb
    blockKind := fun b hb => walkBlockAs_yields hgo _ hb
    varDefKind := fun v => ?_ }
  change (if v.dataflow then changeKind false v else walkVarDef go v).Yields K _
  split
  · exact (freshMark_yields _).bind fun _ _ => (setRemap_yields _ _).bind fun _ _ => .pure trivial
  · exact walkVarDef_yields hgo v

end Transformer

theorem Pass.typesBindings (p : Pass) : p.transformer.TypesBindings := by
  cases p with
  | normalize => exact Transformer.walk_typesBindings
  | fusedMultiplyAdd => exact Transformer.fuseMultiplyAdd_typesBindings
  | explicitMemory => exact Transformer.makeMemoryExplicit_typesBindings

namespace Transformer

variable {σ : Type}

/-- At struct infos the handler emits no untyped binding of its own, if the traversal emits none. It
may compute anything, fail, put in replacements and go on with the traversal elsewhere. -/
def EmitsTyped (h : Transformer σ) : Prop :=
  ∀ K : Binding → Prop, (∀ b : Binding, b.Typed → K b) → ∀ go, Yielding K go →
    ∀ i, (h go (.type i)).Yields K fun _ => True

/-- A handler that leaves the builder alone emits nothing. -/
theorem EmitsTyped.of_builder_eq {h : Transformer σ}
    (hh : ∀ go i s, ((h go (.type i)).exec s).2.builder = s.builder) : h.EmitsTyped := by
  intro _ _ go _ i
  exact .of_builder_eq (hh go i)

theorem EmitsTyped.typesBindings {h : Transformer σ} (hh : h.EmitsTyped) :
    (TransformerTable.empty.supply .type h).transformer.TypesBindings := by
  intro K hK go hgo
  exact { hgo.walk hK with type := hh K hK go hgo }

/-- By induction on the fuel: without any, nothing comes out. -/
theorem TypesBindings.run {r : Transformer σ} (hr : r.TypesBindings) {K : Binding → Prop}
    (hK : ∀ b : Binding, b.Typed → K b) (fuel : Fuel) : Yielding K (r.run fuel) := by
  induction fuel with
  | spent => constructor <;> intros <;> exact .fail _
  | step rest ih => exact hr K hK _ (ih ())

end Transformer

namespace Module

variable {σ : Type} {K : Binding → Prop} {r : Transformer σ} {rules : Rules} {fuel : Expr → Fuel}

private theorem transformFunction_yields (hgo : ∀ fuel, Transformer.Yielding K (r.run fuel))
    (name : String) {f : Function} (hf : f.toExpr.Only K) :
    (transformFunction r rules fuel name f).Yields K fun f' =>
      ∀ g, f' = some g → g.toExpr.Only K := by
  have hdrop : (dropBuilder : Build σ Unit).Yields K fun _ => True := by
    refine getBuilder_yields.bind fun b _ => ?_
    dsimp only
    split
    · exact report_yields _
    · exact .pure trivial
  refine Act.Yields.bind (Q := fun _ => True) (fun _ _ => ⟨Builder.holds_new _, fun _ _ => trivial⟩)
    fun _ _ => ((hgo _).expr _ hf).attempt.bind fun result hresult => ?_
  cases result with
  | error fault => exact hdrop.bind fun _ _ => .fail _
  | ok new =>
    dsimp only
    split
    · exact (report_yields _).bind fun _ _ => hdrop.bind fun _ _ => .pure nofun
    · split
      · next f' hf' =>
        refine (report_yields _).bind fun _ _ => hdrop.bind fun _ _ => .pure fun g hg => ?_
        cases hg
        exact Expr.eq_toExpr_of_asFunction? hf' ▸ hresult new rfl
      · exact hdrop.bind fun _ _ => .fail _

private theorem transformEach_yields (hgo : ∀ fuel, Transformer.Yielding K (r.run fuel))
    {entries : List (GlobalVar × Function)} (hf : ∀ e ∈ entries, e.2.toExpr.Only K) :
    (transformEach r rules fuel entries).Yields K fun changed =>
      ∀ e ∈ changed, e.2.toExpr.Only K := by
  induction entries with
  | nil => exact .pure nofun
  | cons e rest ih =>
    obtain ⟨hf, hrest⟩ := List.forall_mem_cons.mp hf
    refine (transformFunction_yields hgo e.1.name hf).bind fun result hresult => ?_
    cases result with
    | none => exact ih hrest
    | some f' =>
      exact (ih hrest).bind fun _ hchanged =>
        .pure (List.forall_mem_cons.mpr ⟨hresult f' rfl, hchanged⟩)

private theorem mem_toList_insertAll {m : Module} {fs : List (GlobalVar × Function)}
    {e : GlobalVar × Function} (h : e ∈ (m.insertAll fs).toList) : e ∈ m.toList ∨ e ∈ fs := by
  induction fs generalizing m with
  | nil => exact .inl h
  | cons f fs ih =>
    rcases ih (m := m.insert f.1 f.2) h with h | h
    · obtain ⟨entry, hentry, rfl⟩ := List.mem_map.mp h
      rcases Dictionary.mem_insertEntry hentry with rfl | hentry
      · exact .inr List.mem_cons_self
      · exact .inl (List.mem_map_of_mem hentry)
    · exact .inr (List.mem_cons_of_mem _ h)

theorem forall_bindings {m : Module} :
    (∀ b ∈ m.bindings, K b) ↔ ∀ e ∈ m.toList, e.2.toExpr.Only K :=
  List.forall_mem_flatMap

private theorem transform_yields (hgo : ∀ fuel, Transformer.Yielding K (r.run fuel)) {m : Module}
    (hm : ∀ b ∈ m.bindings, K b) :
    (m.transform r rules fuel).Yields K fun m' => ∀ m1, m' = some m1 → ∀ b ∈ m1.bindings, K b := by
  rw [forall_bindings] at hm
  refine (transformEach_yields hgo hm).bind fun changed hchanged => ?_
  split
  · exact .pure nofun
  · refine .pure fun m1 h1 => ?_
    cases h1
    exact forall_bindings.mpr fun e he => (mem_toList_insertAll he).elim (hm e) (hchanged e)

end Module

/-- A binding that comes out of a run of the transformer was there before or is typed: in the
expression and the builder, or in the module. -/
structure Transformer.BringsOutTyped {σ : Type} (r : Transformer σ) : Prop where
  expr : ∀ fuel e e' (s s' : Session σ), (r.run fuel (.expr e)).exec s = (.ok e', s') →
    ∀ b ∈ e'.within ++ s'.builder.bindings, b ∈ e.within ++ s.builder.bindings ∨ b.Typed
  module : ∀ data rules fuel (m m' : Module) w (s' : Session σ),
    (m.transform r rules fuel).exec (.new data rules w) = (.ok (some m'), s') →
    ∀ b ∈ m'.bindings, b ∈ m.bindings ∨ b.Typed

theorem Transformer.TypesBindings.bringsOutTyped {σ : Type} {r : Transformer σ}
    (hr : r.TypesBindings) : r.BringsOutTyped where
  expr fuel e e' s s' h := by
    let K : Binding → Prop := fun b => b ∈ e.within ++ s.builder.bindings ∨ b.Typed
    have hgo := hr.run (K := K) (fun _ => .inr) fuel
    have he : e.Only K := fun b hb => .inl (List.mem_append_left _ hb)
    have hs : s.builder.Holds K :=
      Builder.forall_bindings.mp fun b hb => .inl (List.mem_append_right _ hb)
    have hrun := hgo.expr e he s hs
    rw [h] at hrun
    exact List.forall_mem_append.mpr ⟨hrun.2 e' rfl, Builder.forall_bindings.mpr hrun.1⟩
  module data rules fuel m m' w s' h := by
    let K : Binding → Prop := fun b => b ∈ m.bindings ∨ b.Typed
    have hgo := hr.run (K := K) fun _ => .inr
    have htransform : (m.transform r rules fuel).Yields K _ :=
      Module.transform_yields hgo fun _ => .inl
    have hrun := htransform (.new data rules w) (Builder.holds_new _)
    rw [h] at hrun
    exact hrun.2 (some m') rfl m' rfl

/-- The default passes, and the default traversal with a handler of struct infos, bring out only
bindings that were there before and such as are typed by their value or their match cast. -/
theorem rewritten_bindings_typed :
    (∀ p : Pass, p.transformer.BringsOutTyped ∧ ∀ m m' w w',
      (p.apply m).exec w = (.ok (some m'), w') → ∀ b ∈ m'.bindings, b ∈ m.bindings ∨ b.Typed) ∧
    ∀ (σ : Type) (h : Transformer σ), h.EmitsTyped →
      (TransformerTable.empty.supply .type h).transformer.BringsOutTyped := by
  refine ⟨fun p => ⟨p.typesBindings.bringsOutTyped, fun m m' w w' h => ?_⟩,
    fun σ h hh => hh.typesBindings.bringsOutTyped⟩
  have hp : ((m.transform p.transformer .standard Expr.fuel).exec (.new () .standard w)).1 =
      .ok (some m') := congrArg Prod.fst h
  exact p.typesBindings.bringsOutTyped.module () .standard Expr.fuel m m' w _ (Prod.ext hp rfl)

namespace Measuring

def sized : StructInfo :=
  .tensorOfShape [.int 4] (.float 32)

/-- Objects are taken for tensors, and the struct infos met are counted. -/
def measure : Transformer Nat :=
  fun self s =>
    match s with
    | .type i => do
      modifyData (· + 1)
      return if i = .object then sized else i
    | s => Transformer.walk self s

def object (tag index : Nat) (name : String) : Var :=
  ⟨⟨⟨tag, none⟩, some .object⟩, ⟨index, name⟩, false⟩

def main : Expr :=
  .mkFunction ⟨9, none⟩ [object 0 0 "x"]
    (.mkSeq ⟨8, none⟩ [.mk ⟨7, none⟩ .plain
      [.bind ⟨3, none⟩ (object 1 1 "y") (.var (object 0 0 "x")),
        .cast ⟨4, none⟩ (object 2 2 "z") (.var (object 1 1 "y")) .object]] (.var (object 2 2 "z")))
    none .empty

def start : Session Nat :=
  .new 0 .standard ⟨10, []⟩

def run : Except Fault Expr × Session Nat :=
  ((TransformerTable.empty.supply .type measure).transformer.run main.fuel (.expr main)).exec start

end Measuring

open Measuring in
theorem rewritten_bindings_typed_measured : measure.EmitsTyped ∧ run.2.data = 5 ∧
    ∃ e', run.1 = .ok e' ∧ e'.within.length = 2 ∧ ∀ b ∈ e'.within, 10 ≤ b.tag ∧ b.Typed := by
  have hh : measure.EmitsTyped := .of_builder_eq fun _ _ _ => rfl
  have hok : run.1.isOk := by decide +kernel
  obtain ⟨e', hrun⟩ := Act.eq_ok_of_isOk hok
  have hnew : run.1.toOption.any fun e =>
      e.within.length == 2 && e.within.all fun b => 10 ≤ b.tag := by decide +kernel
  have hold : ∀ b ∈ main.within ++ start.builder.bindings, b.tag < 10 := by decide +kernel
  have hdata : run.2.data = 5 := by decide +kernel
  have htyped := (rewritten_bindings_typed.2 Nat measure hh).expr main.fuel main e' start run.2 hrun
  generalize run = r at hrun hnew hdata htyped ⊢
  obtain ⟨r, s⟩ := r
  obtain rfl := (Prod.mk.inj hrun).1
  obtain ⟨hlen, htags⟩ := (Bool.and_eq_true _ _).mp hnew
  have htags : ∀ b ∈ e'.within, 10 ≤ b.tag := by simpa using htags
  refine ⟨hh, hdata, e', rfl, beq_iff_eq.mp hlen, fun b hb => ⟨htags b hb, ?_⟩⟩
  refine (htyped b (List.mem_append_left _ hb)).resolve_left fun hmem => ?_
  exact absurd (hold b hmem) (Nat.not_lt.mpr (htags b hb))

namespace Mistyping

open Measuring (object sized)

def tensor : Expr :=
  .var ⟨⟨⟨0, none⟩, some sized⟩, ⟨0, "x"⟩, false⟩

/-- Wherever a struct info is met, an object is bound to a tensor. -/
def mistype : Transformer Unit :=
  fun self s =>
    match s with
    | .type i => do
      emitBinding (.bind ⟨1, none⟩ (object 1 1 "y") tensor)
      return i
    | s => Transformer.walk self s

def main : Expr :=
  .mkSeq ⟨6, none⟩ [.mk ⟨5, none⟩ .plain
    [.cast ⟨4, none⟩ ⟨⟨⟨2, none⟩, none⟩, ⟨2, "z"⟩, false⟩ tensor sized]] tensor

def start : Session Unit :=
  .new () .standard ⟨7, []⟩

def run : Except Fault Expr × Session Unit :=
  ((TransformerTable.empty.supply .type mistype).transformer.run main.fuel (.expr main)).exec start

def isMistyped : Binding → Bool
  | .bind _ v value => value.sinfo == some sized && v.sinfo == some .object
  | .cast _ _ _ _ => false

private theorem not_typed {b : Binding} (h : isMistyped b) : ¬b.Typed := by
  intro ht
  cases b with
  | bind _ v value =>
    obtain ⟨hvalue, hv⟩ := (Bool.and_eq_true _ _).mp h
    have hsized := ht sized (beq_iff_eq.mp hvalue)
    rw [beq_iff_eq.mp hv] at hsized
    cases hsized
  | cast _ _ _ _ => cases h

end Mistyping

open Mistyping in
/-- The handler's own binding comes out beside the cast that it was run for. -/
theorem mistyped_binding_comes_out :
    ¬∀ (σ : Type) (h : Transformer σ),
      (TransformerTable.empty.supply .type h).transformer.BringsOutTyped := by
  intro h
  have hok : run.1.isOk := by decide +kernel
  obtain ⟨e', hrun⟩ := Act.eq_ok_of_isOk hok
  have hout : run.1.toOption.any fun e => e.within.any isMistyped := by decide +kernel
  have hold : ∀ b ∈ main.within ++ start.builder.bindings, isMistyped b = false := by
    decide +kernel
  have htyped := (h Unit mistype).expr main.fuel main e' start run.2 hrun
  generalize run = r at hrun hout htyped
  obtain ⟨r, s⟩ := r
  obtain rfl := (Prod.mk.inj hrun).1
  obtain ⟨b, hb, hmis⟩ := List.any_eq_true.mp hout
  rcases htyped b (List.mem_append_left _ hb) with hmem | ht
  · rw [hold b hmem] at hmis
    cases hmis
  · exact not_typed hmis ht

end DataflowIR
