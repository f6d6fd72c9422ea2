import DataflowIR.Pass.Pipeline
import DataflowIR.Proofs.Relabeling.Operations

namespace DataflowIR

open Act (Tracks)
open Session

variable {τ υ : Type} (ℓ : Relabeling)

/-- At every place the two traversals go on in step. -/
structure Transformer.Keeps (go : (s : Site) → Build τ s.Result)
    (go' : (s : Site) → Build υ s.Result) : Prop where
  expr : ∀ e, Tracks ℓ (Expr.relabel ℓ.perm) (go (.expr e)) (go' (.expr (e.relabel ℓ.perm)))
  exprKind : ∀ e,
    Tracks ℓ (Expr.relabel ℓ.perm) (go (.exprKind e)) (go' (.exprKind (e.relabel ℓ.perm)))
  binding : ∀ b, Tracks ℓ id (go (.binding b)) (go' (.binding (b.relabel ℓ.perm)))
  bindingKind : ∀ b, Tracks ℓ id (go (.bindingKind b)) (go' (.bindingKind (b.relabel ℓ.perm)))
  block : ∀ b, Tracks ℓ (Block.relabel ℓ.perm) (go (.block b)) (go' (.block (b.relabel ℓ.perm)))
  blockKind : ∀ b,
    Tracks ℓ (Block.relabel ℓ.perm) (go (.blockKind b)) (go' (.blockKind (b.relabel ℓ.perm)))
  varDef : ∀ v, Tracks ℓ (Var.relabel ℓ.perm) (go (.varDef v)) (go' (.varDef (v.relabel ℓ.perm)))
  varDefKind : ∀ v,
    Tracks ℓ (Var.relabel ℓ.perm) (go (.varDefKind v)) (go' (.varDefKind (v.relabel ℓ.perm)))
  type : ∀ i, Tracks ℓ id (go (.type i)) (go' (.type i))
  span : ∀ i, Tracks ℓ id (go (.span i)) (go' (.span i))
  dim : ∀ d, Tracks ℓ id (go (.dim d)) (go' (.dim d))

namespace Transformer.Keeps

variable {ℓ} {go : (s : Site) → Build τ s.Result} {go' : (s : Site) → Build υ s.Result}
  (h : Transformer.Keeps ℓ go go')

include h

theorem visitSpan (span : Option Span) :
    Tracks ℓ id (visitSpan go span) (visitSpan go' span) := by
  cases span with
  | none => exact .pure ()
  | some i => exact h.span i

theorem visitExprs (es : List Expr) : Tracks ℓ (List.map (Expr.relabel ℓ.perm))
    (visitExprs go es) (visitExprs go' (es.map (Expr.relabel ℓ.perm))) := by
  induction es with
  | nil => exact .pure []
  | cons e es ih => exact (h.expr e).bind fun e => ih.bind fun es => .pure (e :: es)

theorem visitDims (ds : List Dim) : Tracks ℓ id (visitDims go ds) (visitDims go' ds) := by
  induction ds with
  | nil => exact .pure []
  | cons d ds ih => exact (h.dim d).bind fun d => ih.bind fun ds => .pure (d :: ds)

theorem visitTypes (is : List StructInfo) : Tracks ℓ id (visitTypes go is) (visitTypes go' is) := by
  induction is with
  | nil => exact .pure []
  | cons i is ih => exact (h.type i).bind fun i => ih.bind fun is => .pure (i :: is)

theorem visitVarDefs (vs : List Var) : Tracks ℓ (List.map (Var.relabel ℓ.perm))
    (visitVarDefs go vs) (visitVarDefs go' (vs.map (Var.relabel ℓ.perm))) := by
  induction vs with
  | nil => exact .pure []
  | cons v vs ih => exact (h.varDef v).bind fun v => ih.bind fun vs => .pure (v :: vs)

theorem visitBlocks (bs : List Block) : Tracks ℓ (List.map (Block.relabel ℓ.perm))
    (visitBlocks go bs) (visitBlocks go' (bs.map (Block.relabel ℓ.perm))) := by
  induction bs with
  | nil => exact .pure []
  | cons b bs ih => exact (h.block b).bind fun b => ih.bind fun bs => .pure (b :: bs)

theorem visitBindings (bs : List Binding) :
    Tracks ℓ id (visitBindings go bs) (visitBindings go' (bs.map (Binding.relabel ℓ.perm))) := by
  induction bs with
  | nil => exact .pure ()
  | cons b bs ih => exact (h.binding b).bind fun _ => ih

theorem inScope (e : Expr) (params : List Var) : Tracks ℓ (Expr.relabel ℓ.perm)
    (inScope go e params) (inScope go' (e.relabel ℓ.perm) (params.map (Var.relabel ℓ.perm))) := by
  refine openRemap_tracks.bind fun _ => (beginScope_tracks params).bind fun _ =>
    (beginBlock_tracks _).bind fun _ => (h.expr e).attempt.bind fun visited =>
    endBlock_tracks.attempt.bind fun prologue => endScope_tracks.attempt.bind fun scope =>
    closeRemap_tracks.attempt.bind fun remap => (Tracks.resume visited).bind fun visited =>
    (Tracks.resume prologue).bind fun prologue => (Tracks.resume scope).bind fun _ =>
    (Tracks.resume remap).bind fun _ => ?_
  rw [Block.bindings_relabel, List.isEmpty_map]
  refine .ite (.pure visited) ((freshMark_tracks none).bind fun m => ?_)
  have hseq := normalize_tracks (τ := τ) (υ := υ) (ℓ := ℓ) (.mkSeq m [prologue] visited)
  rw [Expr.relabel_mkSeq] at hseq
  exact hseq

theorem walkFunction (f : Function) : Tracks ℓ (Expr.relabel ℓ.perm)
    (walkFunction go f) (walkFunction go' (f.relabel ℓ.perm)) := by
  refine (h.visitVarDefs f.params).bind fun params => (h.type f.ret).bind fun ret =>
    (h.inScope f.body params).bind fun body => ?_
  have hparams := Transformer.allSame_map (Var.sameAs_relabel ℓ.perm) params f.params
  have hbody := Expr.sameAs_relabel ℓ.perm body f.body
  simp only [Function.relabel, id, hparams, hbody]
  refine .ite (.pure f.toExpr) ((freshMark_tracks f.node.span).bind fun m => ?_)
  exact .pure_of_eq (Expr.relabel_mkFunction ..).symm

theorem walkFunctionScope (f : Function) : Tracks ℓ (Expr.relabel ℓ.perm)
    (walkFunctionScope go f) (walkFunctionScope go' (f.relabel ℓ.perm)) := by
  refine openRemap_tracks.bind fun _ => ?_
  refine (h.walkFunction f).attempt.bind fun result => ?_
  refine closeRemap_tracks.attempt.bind fun remap => ?_
  refine (Tracks.resume result).bind fun result => ?_
  exact (Tracks.resume remap).bind fun _ => .pure result

theorem walkSeq (node : Node) (blocks : List Block) (body : Expr) :
    Tracks ℓ (Expr.relabel ℓ.perm) (walkSeq go node blocks body)
      (walkSeq go' (node.relabel ℓ.perm) (blocks.map (Block.relabel ℓ.perm))
        (body.relabel ℓ.perm)) := by
  refine (h.visitBlocks blocks).bind fun newBlocks => (beginBlock_tracks _).bind fun _ =>
    (h.expr body).attempt.bind fun newBody => endBlock_tracks.attempt.bind fun prologue =>
    (Tracks.resume newBody).bind fun newBody => (Tracks.resume prologue).bind fun prologue => ?_
  have hblocks := Transformer.allSame_map (Block.sameAs_relabel ℓ.perm) newBlocks blocks
  have hempty : ∀ b : Block, (b.relabel ℓ.perm).bindings.isEmpty = b.bindings.isEmpty := by
    intro b
    rw [Block.bindings_relabel, List.isEmpty_map]
  rw [hblocks, hempty, Expr.sameAs_relabel]
  refine .ite ?_ ((freshMark_tracks node.span).bind fun m => ?_)
  · exact .pure_of_eq (by rw [Expr.relabel, Block.relabelAll_eq_map])
  · apply Tracks.pure_of_eq
    have hkept : ((newBlocks ++ [prologue]).filter fun b => !b.bindings.isEmpty).map
        (Block.relabel ℓ.perm) = (newBlocks.map (Block.relabel ℓ.perm) ++
          [prologue.relabel ℓ.perm]).filter fun b => !b.bindings.isEmpty := by
      rw [← List.map_singleton (f := Block.relabel ℓ.perm), ← List.map_append, List.filter_map]
      simp only [Function.comp_def, hempty]
    rw [Expr.relabel_mkSeq, hkept]

theorem walkCall (c : Call) : Tracks ℓ (Expr.relabel ℓ.perm)
    (walkCall go c) (walkCall go' (c.relabel ℓ.perm)) := by
  obtain ⟨node, callee, args, attrs, sinfoArgs⟩ := c
  rw [Call.relabel, Expr.relabelAll_eq_map]
  refine (h.expr callee).bind fun newCallee => (h.visitTypes sinfoArgs).bind fun newSinfoArgs =>
    (h.visitExprs args).bind fun newArgs => ?_
  have hargs := Transformer.allSame_map (Expr.sameAs_relabel ℓ.perm) newArgs args
  dsimp only
  rw [hargs, Expr.sameAs_relabel]
  refine .ite ?_ ((freshMark_tracks node.span).bind fun m => ?_)
  · exact .pure_of_eq (by rw [Call.toExpr, Call.toExpr, Expr.relabel, Expr.relabelAll_eq_map])
  · exact .pure_of_eq (Expr.relabel_mkCall ..).symm

theorem walkIte (node : Node) (cond onTrue onFalse : Expr) :
    Tracks ℓ (Expr.relabel ℓ.perm) (walkIte go node cond onTrue onFalse)
      (walkIte go' (node.relabel ℓ.perm) (cond.relabel ℓ.perm) (onTrue.relabel ℓ.perm)
        (onFalse.relabel ℓ.perm)) := by
  refine (h.expr cond).bind fun newCond => (h.inScope onTrue []).bind fun newTrue =>
    (h.inScope onFalse []).bind fun newFalse => ?_
  rw [Expr.sameAs_relabel, Expr.sameAs_relabel, Expr.sameAs_relabel]
  exact .ite (.pure (Expr.ite node cond onTrue onFalse)) ((freshMark_tracks node.span).bind fun m =>
    .pure (Expr.mkIte m newCond newTrue newFalse))

theorem walkExpr (e : Expr) : Tracks ℓ (Expr.relabel ℓ.perm)
    (walkExpr go e) (walkExpr go' (e.relabel ℓ.perm)) := by
  unfold Transformer.walkExpr
  rw [Expr.span_relabel]
  refine (h.visitSpan e.span).bind fun _ => ?_
  cases e with
  | leaf node content => exact .pure (Expr.leaf node content)
  | var v =>
    refine (getRemap?_tracks v.id).bind fun found => .pure_of_eq ?_
    cases found <;> rfl
  | shape node values =>
    refine (h.visitDims values).bind fun newValues => ?_
    exact .ite (.pure (Expr.shape node values)) ((freshMark_tracks node.span).bind fun m =>
      .pure (Expr.mkShape m newValues))
  | prim node value dtype =>
    refine (h.dim value).bind fun newValue => ?_
    exact .ite (.pure (Expr.prim node value dtype)) ((freshMark_tracks node.span).bind fun m =>
      .pure (Expr.mkPrim m newValue dtype))
  | tuple node fields =>
    simp only [Expr.relabel, Expr.relabelAll_eq_map]
    refine (h.visitExprs fields).bind fun newFields => ?_
    rw [Transformer.allSame_map (Expr.sameAs_relabel ℓ.perm)]
    refine .ite ?_ ((freshMark_tracks node.span).bind fun m => ?_)
    · exact .pure_of_eq (by rw [Expr.relabel, Expr.relabelAll_eq_map])
    · exact .pure_of_eq (Expr.relabel_mkTuple ..).symm
  | item node whole index =>
    refine (h.expr whole).bind fun newWhole => ?_
    rw [Expr.sameAs_relabel]
    refine .ite (.pure (Expr.item node whole index)) ((freshMark_tracks node.span).bind fun m => ?_)
    exact .pure_of_eq (Expr.relabel_mkItem ..).symm
  | call node callee args attrs sinfoArgs => exact h.walkCall ⟨node, callee, args, attrs, sinfoArgs⟩
  | ite node cond onTrue onFalse => exact h.walkIte node cond onTrue onFalse
  | seq node blocks body =>
    simp only [Expr.relabel, Block.relabelAll_eq_map]
    exact h.walkSeq node blocks body
  | function node params body ret attrs =>
    exact h.walkFunctionScope ⟨node, params, body, ret, attrs⟩

omit h in
theorem remapIfChanged (v new : Var) : Tracks ℓ id (remapIfChanged v new : Build τ Unit)
    (remapIfChanged (v.relabel ℓ.perm) (new.relabel ℓ.perm) : Build υ Unit) := by
  unfold Transformer.remapIfChanged
  rw [Var.sameAs_relabel]
  exact .ite (.pure ()) (setRemap_tracks v.id new)

theorem walkBind (mark : Mark) (v : Var) (value : Expr) :
    Tracks ℓ id (walkBind go mark v value)
      (walkBind go' (mark.relabel ℓ.perm) (v.relabel ℓ.perm) (value.relabel ℓ.perm)) := by
  refine (h.expr value).bind fun newValue => (h.varDef v).bind fun newVar => ?_
  rw [Var.sameAs_relabel, Expr.sameAs_relabel, Expr.sinfo_relabel]
  exact .ite (emitBinding_tracks (.bind mark v value)) ((retype_tracks newVar _).bind fun newVar =>
    (remapIfChanged v newVar).bind fun _ => (freshMark_tracks mark.span).bind fun m =>
      emitBinding_tracks (.bind m newVar newValue))

theorem walkCast (mark : Mark) (v : Var) (value : Expr) (sinfo : StructInfo) :
    Tracks ℓ id (walkCast go mark v value sinfo)
      (walkCast go' (mark.relabel ℓ.perm) (v.relabel ℓ.perm) (value.relabel ℓ.perm) sinfo) := by
  refine (h.expr value).bind fun newValue => (h.type sinfo).bind fun newSinfo =>
    (h.varDef v).bind fun newVar => ?_
  rw [Var.sameAs_relabel, Expr.sameAs_relabel]
  exact .ite (emitBinding_tracks (.cast mark v value sinfo))
    ((retype_tracks newVar _).bind fun newVar => (remapIfChanged v newVar).bind fun _ =>
      (freshMark_tracks mark.span).bind fun m =>
        emitBinding_tracks (.cast m newVar newValue newSinfo))

theorem walkBinding (b : Binding) :
    Tracks ℓ id (walkBinding go b) (walkBinding go' (b.relabel ℓ.perm)) := by
  cases b with
  | bind mark v value => exact h.walkBind mark v value
  | cast mark v value sinfo => exact h.walkCast mark v value sinfo

theorem walkBlockAs (kind : BlockKind) (b : Block) : Tracks ℓ (Block.relabel ℓ.perm)
    (walkBlockAs go kind b) (walkBlockAs go' kind (b.relabel ℓ.perm)) := by
  unfold Transformer.walkBlockAs
  rw [Block.bindings_relabel, Block.kind_relabel, Block.span_relabel]
  refine (beginBlock_tracks kind).bind fun _ => (h.visitBindings b.bindings).attempt.bind
    fun visited => endBlock_tracks.attempt.bind fun new => (Tracks.resume visited).bind fun _ =>
    (Tracks.resume new).bind fun new => ?_
  rw [Block.bindings_relabel, Transformer.allSame_map (Binding.sameAs_relabel ℓ.perm),
    Block.tag_relabel]
  exact .ite (.pure b) (.pure_of_eq (new.relabel_withMark ℓ.perm ⟨new.tag, b.span⟩).symm)

theorem walkVarDef (v : Var) : Tracks ℓ (Var.relabel ℓ.perm)
    (walkVarDef go v) (walkVarDef go' (v.relabel ℓ.perm)) := by
  refine (h.visitSpan v.span).bind fun _ => ?_
  rw [Var.sinfo_relabel]
  cases v.sinfo with
  | none => exact .pure v
  | some i =>
    refine (h.type i).bind fun newSinfo => .ite (.pure v) ?_
    refine (freshMark_tracks v.span).bind fun m => ?_
    exact (setRemap_tracks v.id (.make m v.id (some newSinfo) v.dataflow)).bind fun _ => .pure _

/-- One level of the default traversal. -/
theorem walk : Transformer.Keeps ℓ (Transformer.walk go) (Transformer.walk go') where
  expr e := (h.exprKind e).bind normalize_tracks
  exprKind := h.walkExpr
  binding := h.bindingKind
  bindingKind := h.walkBinding
  block := h.blockKind
  blockKind b := by
    have hb := h.walkBlockAs b.kind b
    rw [← Block.kind_relabel ℓ.perm b] at hb
    simpa only [Transformer.walk, Block.kind_relabel] using hb
  varDef := h.varDefKind
  varDefKind := h.walkVarDef
  type i := .pure i
  span _ := .pure ()
  dim d := .pure d

end Transformer.Keeps

end DataflowIR
