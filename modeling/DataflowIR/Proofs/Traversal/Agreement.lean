import DataflowIR.Traversal.TransformerTable

namespace DataflowIR

variable {σ : Type}

/-- Whether the place is a node of a kind of expressions. -/
def Site.isExprKind : Site → Bool
  | .exprKind _ => true
  | _ => false

private theorem Expr.sinfo_withSinfo (e : Expr) (tag : Nat) (i : StructInfo) :
    (e.withSinfo tag i).sinfo = some i := by
  cases e <;> rfl

theorem Builder.missingSinfo_eq_none {b : Builder} {e : Expr} {i : StructInfo}
    (h : e.sinfo = some i) : b.missingSinfo e = .ok none := by
  rw [missingSinfo, h]
  rfl

namespace Session

theorem exec_normalize (e : Expr) (s : Session σ) :
    (normalize e).exec s =
      match s.builder.missingSinfo e with
      | .error f => (.error f, s)
      | .ok none => (.ok e, s)
      | .ok (some i) =>
        (.ok (e.withSinfo s.world.fresh.1 i), { s with world := s.world.fresh.2 }) := by
  simp only [normalize, getBuilder, Act.exec_bind, Act.exec_get, Act.exec_pure, Act.exec_resume]
  cases s.builder.missingSinfo e with
  | error f => rfl
  | ok r => cases r <;> rfl

/-- What came back filled in, or was refused, is not looked at again. -/
private theorem normalize_bind_normalize (e : Expr) :
    (normalize e >>= normalize : Build σ Expr) = normalize e := by
  funext s
  change (normalize e >>= normalize).exec s = (normalize e).exec s
  rw [Act.exec_bind, exec_normalize]
  cases h : s.builder.missingSinfo e with
  | error f => rfl
  | ok r =>
    cases r with
    | none =>
      change (normalize e).exec s = _
      rw [exec_normalize, h]
    | some i =>
      change (normalize (e.withSinfo s.world.fresh.1 i)).exec _ = _
      rw [exec_normalize, Builder.missingSinfo_eq_none (e.sinfo_withSinfo _ _)]

end Session

namespace Transformer

open Session

/-- Two ways to go on that come to the same. At a node of a kind of expressions they need to agree
only once struct info was filled in. -/
structure Agree (go go' : (s : Site) → Build σ s.Result) : Prop where
  filled : ∀ e, (go (.exprKind e) >>= normalize) = (go' (.exprKind e) >>= normalize)
  elsewhere : ∀ s, s.isExprKind = false → go s = go' s

namespace Agree

variable {go go' : (s : Site) → Build σ s.Result}

theorem refl (go : (s : Site) → Build σ s.Result) : Agree go go := by
  exact ⟨fun _ => rfl, fun _ _ => rfl⟩

section Walks

variable (h : Agree go go')

include h

theorem expr (e : Expr) : go (.expr e) = go' (.expr e) :=
  h.elsewhere (.expr e) rfl

theorem type (i : StructInfo) : go (.type i) = go' (.type i) :=
  h.elsewhere (.type i) rfl

theorem varDef (v : Var) : go (.varDef v) = go' (.varDef v) :=
  h.elsewhere (.varDef v) rfl

theorem visitSpan : visitSpan go = visitSpan go' := by
  funext span
  cases span with
  | none => rfl
  | some i => exact h.elsewhere (.span i) rfl

theorem visitExprs (es : List Expr) : visitExprs go es = visitExprs go' es := by
  induction es with
  | nil => rfl
  | cons e es ih => simp only [Transformer.visitExprs, h.expr, ih]

theorem visitDims (ds : List Dim) : visitDims go ds = visitDims go' ds := by
  induction ds with
  | nil => rfl
  | cons d ds ih => simp only [Transformer.visitDims, h.elsewhere (.dim _) rfl, ih]

theorem visitTypes (is : List StructInfo) : visitTypes go is = visitTypes go' is := by
  induction is with
  | nil => rfl
  | cons i is ih => simp only [Transformer.visitTypes, h.type, ih]

theorem visitVarDefs (vs : List Var) : visitVarDefs go vs = visitVarDefs go' vs := by
  induction vs with
  | nil => rfl
  | cons v vs ih => simp only [Transformer.visitVarDefs, h.varDef, ih]

theorem visitBlocks (bs : List Block) : visitBlocks go bs = visitBlocks go' bs := by
  induction bs with
  | nil => rfl
  | cons b bs ih => simp only [Transformer.visitBlocks, h.elsewhere (.block _) rfl, ih]

theorem visitBindings (bs : List Binding) : visitBindings go bs = visitBindings go' bs := by
  induction bs with
  | nil => rfl
  | cons b bs ih => simp only [Transformer.visitBindings, h.elsewhere (.binding _) rfl, ih]

theorem inScope (e : Expr) (params : List Var) : inScope go e params = inScope go' e params := by
  simp only [Transformer.inScope, h.expr]

theorem walkFunctionScope (f : Function) : walkFunctionScope go f = walkFunctionScope go' f := by
  simp only [Transformer.walkFunctionScope, walkFunction, h.visitVarDefs, h.type, h.inScope]

theorem walkExpr (e : Expr) : walkExpr go e = walkExpr go' e := by
  cases e with
  | leaf | var => simp only [Transformer.walkExpr, h.visitSpan]
  | shape => simp only [Transformer.walkExpr, h.visitSpan, h.visitDims]
  | prim => simp only [Transformer.walkExpr, h.visitSpan, h.elsewhere (.dim _) rfl]
  | tuple => simp only [Transformer.walkExpr, h.visitSpan, h.visitExprs]
  | item => simp only [Transformer.walkExpr, h.visitSpan, h.expr]
  | call =>
    simp only [Transformer.walkExpr, walkCall, h.visitSpan, h.expr, h.visitTypes, h.visitExprs]
  | ite => simp only [Transformer.walkExpr, walkIte, h.visitSpan, h.expr, h.inScope]
  | seq => simp only [Transformer.walkExpr, walkSeq, h.visitSpan, h.visitBlocks, h.expr]
  | function => simp only [Transformer.walkExpr, h.visitSpan, h.walkFunctionScope]

theorem walkBinding (b : Binding) : walkBinding go b = walkBinding go' b := by
  cases b with
  | bind => simp only [Transformer.walkBinding, walkBind, h.expr, h.varDef]
  | cast => simp only [Transformer.walkBinding, walkCast, h.expr, h.type, h.varDef]

theorem walkBlockAs (kind : BlockKind) (b : Block) :
    walkBlockAs go kind b = walkBlockAs go' kind b := by
  simp only [Transformer.walkBlockAs, h.visitBindings]

theorem walkVarDef (v : Var) : walkVarDef go v = walkVarDef go' v := by
  simp only [Transformer.walkVarDef, h.visitSpan, h.type]

/-- One level up the default walks agree, and now also at the nodes of kinds of expressions. -/
theorem walk (s : Site) : walk go s = walk go' s := by
  cases s with
  | expr e => exact h.filled e
  | exprKind e => exact h.walkExpr e
  | binding b => exact h.elsewhere (.bindingKind b) rfl
  | bindingKind b => exact h.walkBinding b
  | block b => exact h.elsewhere (.blockKind b) rfl
  | blockKind b => exact h.walkBlockAs b.kind b
  | varDef v => exact h.elsewhere (.varDefKind v) rfl
  | varDefKind v => exact h.walkVarDef v
  | type | span | dim => rfl

end Walks

end Agree

end Transformer

namespace TransformerTable

open Session Transformer

variable (σ) in
/-- Only hooks, each of which gives its node back, for the kinds listed. -/
def idle (kinds : List ExprKind) : TransformerTable σ :=
  kinds.foldr (fun kind t => t.supplyHook kind fun _ e => pure e) empty

variable (kinds : List ExprKind)

@[simp] theorem handler_idle (slot : Slot) : (idle σ kinds).handler slot = none := by
  induction kinds with
  | nil => rfl
  | cons kind kinds ih => exact ih

@[simp] theorem strict_idle : (idle σ kinds).strict = false := by
  induction kinds with
  | nil => rfl
  | cons kind kinds ih => exact ih

private theorem hook_idle (kind : ExprKind) :
    (idle σ kinds).hook kind = if kind ∈ kinds then some fun _ e => pure e else none := by
  induction kinds with
  | nil => rfl
  | cons k kinds ih =>
    change (if kind = k then _ else (idle σ kinds).hook kind) = _
    by_cases hk : kind = k
    · rw [if_pos hk, if_pos (hk ▸ List.mem_cons_self)]
    · rw [if_neg hk, ih]
      simp only [List.mem_cons, hk, false_or]

private theorem build_idle : (idle σ kinds).build = .ok (idle σ kinds).transformer := by
  have h : (idle σ kinds).conflict? = none := by
    simp [conflict?]
  rw [build, h]

variable {kinds} {go go' : (s : Site) → Build σ s.Result}

/-- Elsewhere the table gives the default. -/
private theorem transformer_idle_of_hookAt {s : Site} (h : (idle σ kinds).hookAt s = none) :
    (idle σ kinds).transformer go s = Transformer.walk go s := by
  cases hs : s.slot? with
  | none => simp only [transformer, hs]
  | some slot => simp [transformer, hs, transformerAt, h]

private theorem transformer_idle_exprKind (e : Expr) :
    (idle σ kinds).transformer go (.exprKind e) =
      if e.kind ∈ kinds then walkExpr go e >>= normalize else walkExpr go e := by
  by_cases hk : e.kind ∈ kinds
  · have hhook : (idle σ kinds).hookAt (.exprKind e) = some fun _ e => pure e := by
      rw [hookAt, hook_idle, if_pos hk]
    simp only [transformer, Site.slot?, transformerAt, handler_idle, hhook, runHook,
      Transformer.walk, bind_pure, if_pos hk]
  · rw [if_neg hk, transformer_idle_of_hookAt]
    · rfl
    · rw [hookAt, hook_idle, if_neg hk]

/-- One level: the hook runs on what the default walk made, filled in once more. -/
private theorem agree_step (h : Agree go go') :
    Agree ((idle σ kinds).transformer go) (Transformer.walk go') where
  filled e := by
    rw [transformer_idle_exprKind, h.walkExpr]
    by_cases hk : e.kind ∈ kinds
    · simp only [if_pos hk, bind_assoc, normalize_bind_normalize]
      rfl
    · rw [if_neg hk]
      rfl
  elsewhere s hs := by
    have hhook : (idle σ kinds).hookAt s = none := by
      cases s with
      | exprKind e => cases hs
      | _ => rfl
    rw [transformer_idle_of_hookAt hhook, h.walk]

/-- By induction on the fuel: without any, both end at once. -/
private theorem agree_run (fuel : Fuel) :
    Agree ((idle σ kinds).transformer.run fuel) (Transformer.walk.run fuel) := by
  induction fuel with
  | spent => exact .refl _
  | step rest ih => exact agree_step (ih ())

/-- Whatever kinds are hooked, the traversal of an expression from any state ends as the default one
does: with the same node or tree or the same error, and in the same state of the builder, the
replacements, the supply and the reports. -/
theorem run_idle_eq_run_walk (kinds : List ExprKind) :
    ∃ r : Transformer σ, (idle σ kinds).build = .ok r ∧
      ∀ (fuel : Fuel) (e : Expr) (s : Session σ),
        (r.run fuel (.expr e)).exec s = (Transformer.walk.run fuel (.expr e)).exec s := by
  refine ⟨_, build_idle kinds, ?_⟩
  intro fuel e s
  rw [(agree_run fuel).expr e]

end TransformerTable

end DataflowIR
