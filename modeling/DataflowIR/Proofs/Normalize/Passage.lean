import DataflowIR.Proofs.Normalize.Rest
import DataflowIR.Proofs.Rewrite.Steps

namespace DataflowIR

open Session

variable {σ α β : Type}

namespace Session

/-- Apart from tags and reports, only the blocks under construction and the values bound may differ:
they are now `frames` and `bound`. -/
structure Steady (s : Session σ) (frames : List Frame) (bound : Values) (s' : Session σ) :
    Prop where
  frames : s'.builder.frames = frames
  bound : s'.trail.bound = bound
  scopes : s'.builder.scopes = s.builder.scopes
  remap : s'.remap = s.remap

theorem Steady.refl (s : Session σ) : s.Steady s.builder.frames s.trail.bound s := by
  exact ⟨rfl, rfl, rfl, rfl⟩

theorem Steady.trans {s s1 s2 : Session σ} {frames frames' : List Frame} {bound bound' : Values}
    (h : s.Steady frames bound s1) (k : s1.Steady frames' bound' s2) :
    s.Steady frames' bound' s2 := by
  exact ⟨k.frames, k.bound, k.scopes.trans h.scopes, k.remap.trans h.remap⟩

/-- No variable is replaced, and the open scopes are those of the parameters. -/
structure Within (s : Session σ) (params : List Var) : Prop where
  remap : ∀ id, s.remap.get? id = none
  scopes : s.builder.scopes.flatten = params.map Var.id

theorem Within.steady {s s' : Session σ} {params : List Var} {frames : List Frame} {bound : Values}
    (h : s.Within params) (hs : s.Steady frames bound s') : s'.Within params := by
  exact ⟨fun id => hs.remap ▸ h.remap id, hs.scopes ▸ h.scopes⟩

end Session

/-- How a computation ends that emits bindings in these placements and then gives `a`: it gives `a`
unless a binding is rejected, or `short` is the case. -/
inductive Passes (short : Prop) (ps : List Placement) (frames : List Frame) (bound : Values) (a : α)
    (s : Session σ) : Except Fault α × Session σ → Prop
  | spent {s'} (h : short) : Passes short ps frames bound a s (.error .outOfFuel, s')
  | rejected {f s'} (h : ps.findSome? Placement.rejection? = some f) :
      Passes short ps frames bound a s (.error f, s')
  | passed {s'} (h : ps.findSome? Placement.rejection? = none) (hs : s.Steady frames bound s') :
      Passes short ps frames bound a s (.ok a, s')

namespace Passes

variable {short short' : Prop} {ps qs : List Placement} {frames frames' : List Frame}
variable {bound bound' : Values} {a : α} {b : β} {s s1 : Session σ}

theorem mono {r : Except Fault α × Session σ} (h : Passes short ps frames bound a s r)
    (hs : short → short') : Passes short' ps frames bound a s r := by
  cases h with
  | spent h => exact .spent (hs h)
  | rejected h => exact .rejected h
  | passed h hk => exact .passed h hk

theorem pure (a : α) (s : Session σ) :
    Passes short [] s.builder.frames s.trail.bound a s ((Pure.pure a : Build σ α).exec s) :=
  .passed rfl (.refl s)

theorem bind {act : Build σ α} {next : α → Build σ β}
    (h : Passes short ps frames bound a s (act.exec s))
    (k : ∀ {t}, s.Steady frames bound t →
      Passes short qs frames' bound' b t ((next a).exec t)) :
    Passes short (ps ++ qs) frames' bound' b s ((act >>= next).exec s) := by
  rw [Act.exec_bind]
  revert h
  rcases act.exec s with ⟨r, t⟩
  intro h
  cases h with
  | spent h => exact .spent h
  | rejected h =>
    refine .rejected ?_
    rw [List.findSome?_append, h, Option.some_or]
  | passed h hs =>
    dsimp only
    have hk := k hs
    revert hk
    rcases (next a).exec t with ⟨r', t'⟩
    intro hk
    have happ : (ps ++ qs).findSome? Placement.rejection? = qs.findSome? Placement.rejection? := by
      rw [List.findSome?_append, h, Option.none_or]
    cases hk with
    | spent hk => exact .spent hk
    | rejected hk => exact .rejected (happ.trans hk)
    | passed hk hs' => exact .passed (happ.trans hk) (hs.trans hs')

/-- What remains to be done only makes the result. -/
theorem andThen {act : Build σ α} {next : α → Build σ β}
    (h : Passes short ps frames bound a s (act.exec s))
    (hnext : ∀ {t}, s.Steady frames bound t → (next a).exec t = (.ok b, t)) :
    Passes short ps frames bound b s ((act >>= next).exec s) := by
  rw [← List.append_nil ps]
  refine h.bind fun {t} ht => ?_
  rw [hnext ht, ← ht.frames, ← ht.bound]
  exact .pure b t

theorem andPure {act : Build σ α} {next : α → Build σ β}
    (h : Passes short ps frames bound a s (act.exec s)) (hnext : next a = Pure.pure b) :
    Passes short ps frames bound b s ((act >>= next).exec s) := by
  exact h.andThen fun _ => by rw [hnext, Act.exec_pure]

/-- A block or a scope is opened; what is asked of the rest still starts from `s`. -/
theorem opened {s2 : Session σ} {act : Build σ Unit} {next : Unit → Build σ β}
    (hopen : act.exec s1 = (.ok (), s2))
    (h : Passes short ps frames bound b s ((next ()).exec s2)) :
    Passes short ps frames bound b s ((act >>= next).exec s1) := by
  rw [Act.exec_bind, hopen]
  exact h

/-- An attempt inside what was opened since `s`, and what closes it again. -/
theorem enclosed {act : Build σ α} {rest : Except Fault α → Build σ β}
    (h : Passes short ps frames bound a s1 (act.exec s1))
    (hok : ∀ {t}, s1.Steady frames bound t →
      ∃ t', (rest (.ok a)).exec t = (.ok b, t') ∧ s.Steady frames' bound t')
    (herror : ∀ f t, ((rest (.error f)).exec t).1 = .error f) :
    Passes short ps frames' bound b s ((act.attempt >>= rest).exec s1) := by
  rw [Act.exec_bind, Act.exec_attempt]
  revert h
  rcases act.exec s1 with ⟨r, t⟩
  intro h
  dsimp only
  cases h with
  | spent h =>
    have he := herror .outOfFuel t
    revert he
    rcases (rest (.error .outOfFuel)).exec t with ⟨r', t'⟩
    rintro rfl
    exact .spent h
  | @rejected f _ h =>
    have he := herror f t
    revert he
    rcases (rest (.error f)).exec t with ⟨r', t'⟩
    rintro rfl
    exact .rejected h
  | passed h hs =>
    obtain ⟨t', hrest, ht'⟩ := hok hs
    rw [hrest]
    exact .passed h ht'

end Passes

/-- The builder rejects what the placement says. -/
theorem Builder.push_eq {bd : Builder} {b : Binding} {params : List Var} {frame : Frame}
    {rest : List Frame} (hs : bd.scopes.flatten = params.map Var.id)
    (hf : bd.frames = frame :: rest) :
    bd.push b =
      match Placement.rejection? ⟨b.var, frame.kind, params⟩ with
      | some f => .error f
      | none => .ok { bd with
          frames := ⟨frame.kind, frame.bindings ++ [b]⟩ :: rest
          bound := Builder.recordBinding bd.bound b } := by
  have hparam : bd.isParameter b.var.id = params.any fun q => q.id == b.var.id := by
    have hflat : bd.isParameter b.var.id = bd.scopes.flatten.contains b.var.id := by
      rw [Builder.isParameter, List.contains_eq_any_beq, List.any_flatten]
      simp only [List.contains_eq_any_beq]
    rw [hflat, hs, List.contains_eq_any_beq, List.any_map]
    exact congrArg params.any (funext fun q => BEq.comm)
  simp only [Builder.push, hf, Placement.rejection?, hparam]
  split
  · rfl
  · split <;> rfl

namespace Session

private theorem emitBinding_passes {short : Prop} {b : Binding} {s : Session σ} {params : List Var}
    {frame : Frame} {rest : List Frame} (hs : s.Within params)
    (hf : s.builder.frames = frame :: rest) :
    Passes short [⟨b.var, frame.kind, params⟩] (⟨frame.kind, frame.bindings ++ [b]⟩ :: rest)
      (s.trail.record b).bound () s ((emitBinding b).exec s) := by
  have hpush := Builder.push_eq (b := b) hs.scopes hf
  cases hr : Placement.rejection? ⟨b.var, frame.kind, params⟩ with
  | some f =>
    simp only [hr] at hpush
    simp only [exec_emitBinding, hpush]
    exact .rejected (by rw [List.findSome?_cons, hr])
  | none =>
    simp only [hr] at hpush
    have he := exec_emitBinding b s
    simp only [hpush] at he
    obtain ⟨-, ht, -⟩ := emitBinding_ok hf he
    rw [he]
    exact .passed (by rw [List.findSome?_cons, hr, List.findSome?_nil])
      ⟨rfl, congrArg Trail.bound ht, rfl, rfl⟩

end Session

namespace Transformer

/-- What a traversal with `n` steps left does where the pass `p` finds nothing to do. An expression, a
binding or a block takes two steps, and so does the definition of a variable; four for each node are
enough. -/
structure Passing (p : Pass) (n : Nat) (go : (s : Site) → Build σ s.Result) : Prop where
  expr : ∀ {e : Expr} {s : Session σ} {t' params}, e.Rests p s.trail.bound t' →
    s.Within params →
    Passes (n < 4 * e.size) (e.placements params) s.builder.frames t' e s ((go (.expr e)).exec s)
  exprKind : ∀ {e : Expr} {s : Session σ} {t' params}, e.Rests p s.trail.bound t' →
    s.Within params →
    Passes (n + 1 < 4 * e.size) (e.placements params) s.builder.frames t' e s
      ((go (.exprKind e)).exec s)
  binding : ∀ {b : Binding} {s : Session σ} {t' params frame rest},
    b.Rests p s.trail.bound t' → s.Within params → s.builder.frames = frame :: rest →
    Passes (n < 4 * b.size) (b.placements frame.kind params)
      (⟨frame.kind, frame.bindings ++ [b]⟩ :: rest) t' () s ((go (.binding b)).exec s)
  bindingKind : ∀ {b : Binding} {s : Session σ} {t' params frame rest},
    b.Rests p s.trail.bound t' → s.Within params → s.builder.frames = frame :: rest →
    Passes (n + 1 < 4 * b.size) (b.placements frame.kind params)
      (⟨frame.kind, frame.bindings ++ [b]⟩ :: rest) t' () s ((go (.bindingKind b)).exec s)
  block : ∀ {b : Block} {s : Session σ} {t' params}, b.Rests p s.trail.bound t' →
    s.Within params →
    Passes (n < 4 * b.size) (b.placements params) s.builder.frames t' b s ((go (.block b)).exec s)
  blockKind : ∀ {b : Block} {s : Session σ} {t' params}, b.Rests p s.trail.bound t' →
    s.Within params →
    Passes (n + 1 < 4 * b.size) (b.placements params) s.builder.frames t' b s
      ((go (.blockKind b)).exec s)
  varDef : ∀ {v : Var} {s : Session σ},
    Passes (n < 3) [] s.builder.frames s.trail.bound v s ((go (.varDef v)).exec s)
  varDefKind : ∀ {v : Var} {s : Session σ},
    Passes (n < 2) [] s.builder.frames s.trail.bound v s ((go (.varDefKind v)).exec s)
  type : ∀ {i : StructInfo} {s : Session σ},
    Passes (n < 1) [] s.builder.frames s.trail.bound i s ((go (.type i)).exec s)
  span : ∀ {i : Span} {s : Session σ},
    Passes (n < 1) [] s.builder.frames s.trail.bound () s ((go (.span i)).exec s)
  dim : ∀ {d : Dim} {s : Session σ},
    Passes (n < 1) [] s.builder.frames s.trail.bound d s ((go (.dim d)).exec s)

section Walks

variable {p : Pass} {n : Nat} {go : (s : Site) → Build σ s.Result} {s : Session σ}
variable {t' : Values} {params : List Var}

private theorem visitSpan_passes (hgo : Passing p n go) (span : Option Span) :
    Passes (n < 1) [] s.builder.frames s.trail.bound () s ((visitSpan go span).exec s) := by
  cases span with
  | none => exact .pure () s
  | some i => exact hgo.span

private theorem visitDims_passes (hgo : Passing p n go) (ds : List Dim) :
    Passes (n < 1) [] s.builder.frames s.trail.bound ds s ((visitDims go ds).exec s) := by
  induction ds generalizing s with
  | nil => exact .pure [] s
  | cons d ds ih =>
    refine hgo.dim.bind fun {t} ht => ?_
    rw [← ht.frames, ← ht.bound]
    exact ih.andPure rfl

private theorem visitTypes_passes (hgo : Passing p n go) (is : List StructInfo) :
    Passes (n < 1) [] s.builder.frames s.trail.bound is s ((visitTypes go is).exec s) := by
  induction is generalizing s with
  | nil => exact .pure [] s
  | cons i is ih =>
    refine hgo.type.bind fun {t} ht => ?_
    rw [← ht.frames, ← ht.bound]
    exact ih.andPure rfl

private theorem visitVarDefs_passes (hgo : Passing p n go) (vs : List Var) :
    Passes (n < 3) [] s.builder.frames s.trail.bound vs s ((visitVarDefs go vs).exec s) := by
  induction vs generalizing s with
  | nil => exact .pure [] s
  | cons v vs ih =>
    refine hgo.varDef.bind fun {t} ht => ?_
    rw [← ht.frames, ← ht.bound]
    exact ih.andPure rfl

private theorem visitExprs_passes (hgo : Passing p n go) (hs : s.Within params) {es : List Expr}
    (ha : Expr.RestAll p s.trail.bound es t') :
    Passes (n < 4 * Expr.sizeOfList es) (Expr.placementsAll params es) s.builder.frames t' es s
      ((visitExprs go es).exec s) := by
  induction es generalizing s with
  | nil =>
    cases ha
    exact .pure [] s
  | cons e es ih =>
    cases ha with
    | cons he hes =>
      have hsize : Expr.sizeOfList (e :: es) = e.size + Expr.sizeOfList es := rfl
      refine ((hgo.expr he hs).mono (by omega)).bind fun {t} ht => ?_
      rw [← ht.bound] at hes
      rw [← ht.frames]
      exact ((ih (hs.steady ht) hes).mono (by omega)).andPure rfl

private theorem visitBlocks_passes (hgo : Passing p n go) (hs : s.Within params) {bs : List Block}
    (ha : Block.RestAll p s.trail.bound bs t') :
    Passes (n < 4 * Block.sizeOfList bs) (Block.placementsAll params bs) s.builder.frames t' bs s
      ((visitBlocks go bs).exec s) := by
  induction bs generalizing s with
  | nil =>
    cases ha
    exact .pure [] s
  | cons b bs ih =>
    cases ha with
    | cons hb hbs =>
      have hsize : Block.sizeOfList (b :: bs) = b.size + Block.sizeOfList bs := rfl
      refine ((hgo.block hb hs).mono (by omega)).bind fun {t} ht => ?_
      rw [← ht.bound] at hbs
      rw [← ht.frames]
      exact ((ih (hs.steady ht) hbs).mono (by omega)).andPure rfl

private theorem visitBindings_passes (hgo : Passing p n go) (hs : s.Within params) {frame : Frame}
    {rest : List Frame} (hf : s.builder.frames = frame :: rest) {bs : List Binding}
    (ha : Binding.RestAll p s.trail.bound bs t') :
    Passes (n < 4 * Binding.sizeOfList bs) (Binding.placementsAll frame.kind params bs)
      (⟨frame.kind, frame.bindings ++ bs⟩ :: rest) t' () s ((visitBindings go bs).exec s) := by
  induction bs generalizing s frame with
  | nil =>
    cases ha
    rw [List.append_nil, ← hf]
    exact .pure () s
  | cons b bs ih =>
    cases ha with
    | cons hb hbs =>
      have hsize : Binding.sizeOfList (b :: bs) = b.size + Binding.sizeOfList bs := rfl
      refine ((hgo.binding hb hs hf).mono (by omega)).bind fun {t} ht => ?_
      rw [← ht.bound] at hbs
      have hrest := ih (hs.steady ht) ht.frames hbs
      rw [List.append_assoc, List.singleton_append] at hrest
      exact hrest.mono (by omega)

theorem inScope_passes (hgo : Passing p n go) (hs : s.Within params) {e : Expr}
    (ha : e.Rests p s.trail.bound t') (own : List Var) :
    Passes (n < 4 * e.size) (e.placements (own ++ params)) s.builder.frames t' e s
      ((inScope go e own).exec s) := by
  let s1 := ((beginBlock .plain).exec ((beginScope own).exec (openRemap.exec s).2).2).2
  have hs1 : s1.Within (own ++ params) := by
    refine ⟨hs.remap, ?_⟩
    change (own.map Var.id :: s.builder.scopes).flatten = (own ++ params).map Var.id
    rw [List.flatten_cons, hs.scopes, List.map_append]
  refine .opened rfl (.opened rfl (.opened rfl ?_))
  refine (hgo.expr (s := s1) ha hs1).enclosed (fun {t} ht => ?_) fun f t => ?_
  · have hframes : t.builder.frames = ⟨.plain, []⟩ :: s.builder.frames := ht.frames
    have hscopes : t.builder.scopes = own.map Var.id :: s.builder.scopes := ht.scopes
    have hremap : t.remap.closeScope? = some s.remap := by
      rw [ht.remap]
      rfl
    simp only [Act.exec_bind, Act.exec_attempt, Act.exec_resume, exec_endBlock, hframes,
      exec_endScope, hscopes, exec_closeRemap, hremap]
    exact ⟨_, rfl, rfl, ht.bound, rfl, rfl⟩
  · simp only [Act.exec_bind, Act.exec_attempt, Act.exec_resume]

private theorem walkFunctionScope_passes (hgo : Passing p n go) (hs : s.Within params)
    {f : Function} (ha : f.body.Rests p s.trail.bound t') :
    Passes (n < 4 * f.body.size) (f.body.placements (f.params ++ params)) s.builder.frames t'
      f.toExpr s ((walkFunctionScope go f).exec s) := by
  have hsize := f.body.size_pos
  let s1 := ((openRemap : Build σ Unit).exec s).2
  have hs1 : s1.Within params := ⟨hs.remap, hs.scopes⟩
  have hwalk : Passes (n < 4 * f.body.size) (f.body.placements (f.params ++ params))
      s1.builder.frames t' f.toExpr s1 ((walkFunction go f).exec s1) := by
    refine ((visitVarDefs_passes hgo _).mono (by omega)).bind fun {t} ht => ?_
    rw [← ht.frames]
    refine (hgo.type.mono (by omega)).bind fun {u} hu => ?_
    have hbody : f.body.Rests p u.trail.bound t' := by
      rw [hu.bound, ht.bound]
      exact ha
    rw [← hu.frames]
    refine (inScope_passes hgo ((hs1.steady ht).steady hu) hbody f.params).andPure ?_
    rw [allSame_refl Var.sameAs_self, decide_eq_true rfl, Expr.sameAs_self]
    rfl
  refine .opened rfl ?_
  refine hwalk.enclosed (fun {t} ht => ?_) fun g t => ?_
  · have hremap : t.remap.closeScope? = some s.remap := by
      rw [ht.remap]
      rfl
    simp only [Act.exec_bind, Act.exec_attempt, Act.exec_resume, Act.exec_pure, exec_closeRemap,
      hremap]
    exact ⟨_, rfl, ht.frames, ht.bound, ht.scopes, rfl⟩
  · simp only [Act.exec_bind, Act.exec_attempt, Act.exec_resume]

private theorem walkSeq_passes (hgo : Passing p n go) (hs : s.Within params) {t1 : Values}
    {node : Node}
    {blocks : List Block} {body : Expr} (hblocks : Block.RestAll p s.trail.bound blocks t1)
    (hbody : body.Rests p t1 t') :
    Passes (n < 4 * (Block.sizeOfList blocks + body.size))
      (Block.placementsAll params blocks ++ body.placements params) s.builder.frames t'
      (.seq node blocks body) s ((walkSeq go node blocks body).exec s) := by
  refine ((visitBlocks_passes hgo hs hblocks).mono (by omega)).bind fun {t} ht => ?_
  let u := ((beginBlock .plain).exec t).2
  have hu : u.Within params := ⟨(hs.steady ht).remap, (hs.steady ht).scopes⟩
  rw [← ht.bound] at hbody
  refine .opened rfl ?_
  refine ((hgo.expr (s := u) hbody hu).mono (by omega)).enclosed (fun {v} hv => ?_) fun g v => ?_
  · have hframes : v.builder.frames = ⟨.plain, []⟩ :: s.builder.frames := by
      rw [← ht.frames]
      exact hv.frames
    simp only [Act.exec_bind, Act.exec_attempt, Act.exec_resume, exec_endBlock, hframes,
      allSame_refl Block.sameAs_self, Expr.sameAs_self]
    exact ⟨_, rfl, rfl, hv.bound, hv.scopes, hv.remap⟩
  · simp only [Act.exec_bind, Act.exec_attempt, Act.exec_resume]

private theorem walkBlockAs_passes (hgo : Passing p n go) (hs : s.Within params) {b : Block}
    (ha : b.Rests p s.trail.bound t') :
    Passes (n + 2 < 4 * b.size) (b.placements params) s.builder.frames t' b s
      ((walkBlockAs go b.kind b).exec s) := by
  cases ha with
  | @mk _ _ mark kind bindings hb =>
    have hsize : Block.size (.mk mark kind bindings) = 1 + Binding.sizeOfList bindings := rfl
    let s1 := ((beginBlock kind).exec s).2
    have hs1 : s1.Within params := ⟨hs.remap, hs.scopes⟩
    have hopened : s1.builder.frames = ⟨kind, []⟩ :: s.builder.frames := rfl
    have hvisit := visitBindings_passes (s := s1) hgo hs1 hopened hb
    refine .opened rfl ?_
    refine (hvisit.mono (by omega)).enclosed (fun {t} ht => ?_) fun g t => ?_
    · have hframes : t.builder.frames = ⟨kind, bindings⟩ :: s.builder.frames := ht.frames
      simp only [Act.exec_bind, Act.exec_attempt, Act.exec_resume, exec_endBlock, hframes,
        Block.bindings, allSame_refl Binding.sameAs_self, decide_eq_true]
      exact ⟨_, rfl, rfl, ht.bound, ht.scopes, ht.remap⟩
    · simp only [Act.exec_bind, Act.exec_attempt, Act.exec_resume]

private theorem walkExpr_passes (hgo : Passing p n go) (hs : s.Within params) {e : Expr}
    (ha : e.Rests p s.trail.bound t') :
    Passes (n + 2 < 4 * e.size) (e.placements params) s.builder.frames t' e s
      ((walkExpr go e).exec s) := by
  have hsize := e.size_pos
  refine ((visitSpan_passes hgo e.span).mono (by omega)).bind fun {t} ht => ?_
  rw [← ht.bound] at ha
  rw [← ht.frames]
  have ht' : t.Within params := hs.steady ht
  cases ha with
  | leaf => exact .pure _ t
  | @var _ v =>
    have hv : (do return Expr.var ((← getRemap? v.id).getD v) : Build σ Expr).exec t =
        (.ok (.var v), t) := by
      simp only [getRemap?, Act.exec_bind, Act.exec_get, Act.exec_pure, ht'.remap v.id,
        Option.getD_none]
    exact hv ▸ .passed rfl (.refl t)
  | shape => exact ((visitDims_passes hgo _).mono (by omega)).andPure (if_pos rfl)
  | prim => exact (hgo.dim.mono (by omega)).andPure (if_pos rfl)
  | tuple _ hfields =>
    rw [Expr.size]
    exact ((visitExprs_passes hgo ht' hfields).mono (by omega)).andPure
      (if_pos (allSame_refl Expr.sameAs_self _))
  | item _ hwhole =>
    rw [Expr.size]
    exact ((hgo.expr hwhole ht').mono (by omega)).andPure (if_pos (Expr.sameAs_self _))
  | @call _ t1 _ node callee args attrs sinfoArgs _ hcallee hargs =>
    rw [Expr.size]
    refine ((hgo.expr hcallee ht').mono (by omega)).bind fun {u} hu => ?_
    rw [← hu.frames]
    refine ((visitTypes_passes hgo sinfoArgs).mono (by omega)).bind fun {w} hw => ?_
    have hargs' : Expr.RestAll p w.trail.bound args t' := by
      rw [hw.bound, hu.bound]
      exact hargs
    rw [← hw.frames]
    refine ((visitExprs_passes hgo ((ht'.steady hu).steady hw) hargs').mono (by omega)).andPure ?_
    rw [allSame_refl Expr.sameAs_self, Expr.sameAs_self, decide_eq_true rfl]
    rfl
  | ite _ hcond htrue hfalse =>
    rw [Expr.size, Expr.placements, List.append_assoc]
    refine ((hgo.expr hcond ht').mono (by omega)).bind fun {u} hu => ?_
    rw [← hu.bound] at htrue
    rw [← hu.frames]
    have hu' := ht'.steady hu
    refine ((inScope_passes hgo hu' htrue []).mono (by omega)).bind fun {w} hw => ?_
    rw [← hw.bound] at hfalse
    rw [← hw.frames]
    refine ((inScope_passes hgo (hu'.steady hw) hfalse []).mono (by omega)).andPure ?_
    rw [Expr.sameAs_self, Expr.sameAs_self, Expr.sameAs_self]
    rfl
  | seq _ hblocks hbody =>
    rw [Expr.size]
    exact (walkSeq_passes hgo ht' hblocks hbody).mono (by omega)
  | @function _ _ node own body ret attrs _ hbody =>
    rw [Expr.size]
    have hwalk := walkFunctionScope_passes (f := ⟨node, own, body, ret, attrs⟩) hgo ht' hbody
    exact hwalk.mono fun hn => by
      have : n < 4 * body.size := hn
      omega

private theorem walkBinding_passes (hgo : Passing p n go) (hs : s.Within params) {frame : Frame}
    {rest : List Frame} (hf : s.builder.frames = frame :: rest) {b : Binding}
    (ha : b.Rests p s.trail.bound t') :
    Passes (n + 2 < 4 * b.size) (b.placements frame.kind params)
      (⟨frame.kind, frame.bindings ++ [b]⟩ :: rest) t' () s ((walkBinding go b).exec s) := by
  cases ha with
  | @bind _ _ mark v value hy =>
    have hsize := value.size_pos
    rw [Binding.size]
    refine ((hgo.expr hy hs).mono (by omega)).bind fun {t} ht => ?_
    refine (hgo.varDef.mono (by omega)).bind fun {u} hu => ?_
    rw [Var.sameAs_self, Expr.sameAs_self, Bool.and_self, if_pos rfl, ← ht.bound, ← hu.bound]
    have hwithin := hs.steady (ht.trans hu)
    exact emitBinding_passes (b := .bind mark v value) hwithin (by rw [hu.frames, ht.frames, hf])
  | @cast _ _ mark v value sinfo hy =>
    have hsize := value.size_pos
    rw [Binding.size]
    refine ((hgo.expr hy hs).mono (by omega)).bind fun {t} ht => ?_
    refine (hgo.type.mono (by omega)).bind fun {u} hu => ?_
    refine (hgo.varDef.mono (by omega)).bind fun {w} hw => ?_
    rw [Var.sameAs_self, Expr.sameAs_self, decide_eq_true rfl, Bool.and_self, Bool.and_self,
      if_pos rfl, ← ht.bound, ← hu.bound, ← hw.bound]
    have hwithin := hs.steady ((ht.trans hu).trans hw)
    exact emitBinding_passes (b := .cast mark v value sinfo) hwithin
      (by rw [hw.frames, hu.frames, ht.frames, hf])

private theorem walkVarDef_passes (hgo : Passing p n go) (v : Var) :
    Passes (n < 1) [] s.builder.frames s.trail.bound v s ((walkVarDef go v).exec s) := by
  refine (visitSpan_passes hgo v.span).bind fun {t} ht => ?_
  rw [← ht.frames, ← ht.bound]
  cases v.sinfo with
  | none => exact .pure v t
  | some i => exact hgo.type.andPure (if_pos rfl)

end Walks

/-- Where a pass finds nothing to do, the default step has nothing to do either. -/
theorem Passing.step {p : Pass} {n : Nat} {go : (s : Site) → Build σ s.Result}
    (hgo : Passing p n go) : Passing p (n + 1) (walk go) where
  expr {e s t' params} ha hs := by
    refine (hgo.exprKind ha hs).andThen fun _ => ?_
    simp only [Session.normalize, getBuilder, Act.exec_bind, Act.exec_get, Act.exec_pure,
      Act.exec_resume, Expr.missingSinfo_of_isAnnotated ha.isAnnotated]
  exprKind ha hs := walkExpr_passes hgo hs ha
  binding ha hs hf := hgo.bindingKind ha hs hf
  bindingKind ha hs hf := walkBinding_passes hgo hs hf ha
  block ha hs := hgo.blockKind ha hs
  blockKind ha hs := walkBlockAs_passes hgo hs ha
  varDef := hgo.varDefKind.mono (by omega)
  varDefKind := (walkVarDef_passes hgo _).mono (by omega)
  type {i s} := .pure i s
  span {i s} := .pure () s
  dim {d s} := .pure d s

/-- What is not to be fused comes back. -/
private theorem exec_fuseAddition {e : Expr} {s : Session Unit} (h : s.trail.fusion? e = none) :
    (fuseAddition e).exec s = (.ok e, s) := by
  have hfactors : ∀ x, s.trail.factors? x = factors? s.builder x := fun _ => rfl
  unfold fuseAddition
  cases ha : e.asCall?.bind (·.binaryOperands? "relax.add") with
  | none => rfl
  | some operands =>
    obtain ⟨lhs, addend⟩ := operands
    simp only [Trail.fusion?, ha, Option.map_eq_none_iff, hfactors] at h
    simp only [getBuilder, Act.exec_bind, Act.exec_get, Act.exec_pure, h]

theorem Passing.fuse {n : Nat} {go : (s : Site) → Build Unit s.Result}
    (hgo : Passing .fusedMultiplyAdd n go) :
    Passing .fusedMultiplyAdd (n + 1) (fuseMultiplyAdd go) := by
  exact { hgo.step with
    exprKind := by
      intro e s t' params ha hs
      have hwalk := walkExpr_passes hgo hs ha
      cases ha with
      | call _ _ _ hl => exact hwalk.andThen fun ht => exec_fuseAddition (hl rfl _ ht.bound)
      | _ => exact hwalk }

/-- By induction on the fuel: without any, every visit ends at once. -/
theorem Passing.run {p : Pass} {transformer : Transformer σ}
    (hstep : ∀ {n go}, Passing p n go → Passing p (n + 1) (transformer go)) (fuel : Fuel) :
    Passing p fuel.toNat (transformer.run fuel) := by
  induction fuel with
  | step rest ih => exact hstep (ih ())
  | spent =>
    have hexpr : ∀ e : Expr, 0 + 1 < 4 * e.size := fun e => by have := e.size_pos; omega
    have hbinding : ∀ b : Binding, 0 + 1 < 4 * b.size := fun b => by have := b.size_pos; omega
    have hblock : ∀ b : Block, 0 + 1 < 4 * b.size := fun b => by have := b.size_pos; omega
    exact {
      expr := fun _ _ => .spent (Nat.lt_of_succ_lt (hexpr _))
      exprKind := fun _ _ => .spent (hexpr _)
      binding := fun _ _ _ => .spent (Nat.lt_of_succ_lt (hbinding _))
      bindingKind := fun _ _ _ => .spent (hbinding _)
      block := fun _ _ => .spent (Nat.lt_of_succ_lt (hblock _))
      blockKind := fun _ _ => .spent (hblock _)
      varDef := .spent (Nat.succ_pos 2)
      varDefKind := .spent (Nat.succ_pos 1)
      type := .spent (Nat.succ_pos 0)
      span := .spent (Nat.succ_pos 0)
      dim := .spent (Nat.succ_pos 0) }

theorem passing_transformer {p : Pass} (hp : p ≠ .explicitMemory) (fuel : Fuel) :
    Passing p fuel.toNat (run p.transformer fuel) := by
  cases p with
  | normalize => exact .run Passing.step fuel
  | fusedMultiplyAdd => exact .run Passing.fuse fuel
  | explicitMemory => exact absurd rfl hp

/-- The default traversal stops at no call. -/
private theorem walk_passes (fuel : Fuel) {e : Expr} {s : Session σ} {params : List Var}
    (ha : e.isAnnotated) (hs : s.Within params) : ∃ t',
    Passes (fuel.toNat < 4 * e.size) (e.placements params) s.builder.frames t' e s
      (((walk : Transformer σ).run fuel (.expr e)).exec s) := by
  obtain ⟨t', hrest⟩ := Expr.rests_of_isAnnotated (p := .normalize) nofun s.trail.bound ha
  exact ⟨t', (Passing.run Passing.step fuel).expr hrest hs⟩

end Transformer

/-- Whatever the builder holds, the default traversal of an annotated expression gives back the
expression itself if it succeeds, and no variable is replaced then. -/
theorem walk_keeps_annotated (fuel : Fuel) {e e' : Expr} {s s' : Session σ} (ha : e.isAnnotated)
    (hr : s.remap.size = 0)
    (h : ((Transformer.walk : Transformer σ).run fuel (.expr e)).exec s = (.ok e', s')) :
    e' = e ∧ s'.remap = s.remap := by
  -- Where the builder rejects a binding is of no account here, so any variables do as parameters.
  let params : List Var := s.builder.scopes.flatten.map fun id => ⟨default, id, false⟩
  have hremap : ∀ id, s.remap.get? id = none := by
    intro id
    rw [Remap.get?, IdTable.get?, List.eq_nil_of_length_eq_zero hr, List.lookup_nil]
  have hwithin : s.Within params := by
    refine ⟨hremap, ?_⟩
    rw [List.map_map]
    exact (List.map_id _).symm
  obtain ⟨_, hpass⟩ := Transformer.walk_passes fuel ha hwithin
  rw [h] at hpass
  cases hpass with
  | passed _ hs => exact ⟨rfl, hs.remap⟩

namespace Settled

def node (tag : Nat) : Node :=
  ⟨⟨tag, none⟩, some .object⟩

def var (tag : Nat) (hint : String) (dataflow : Bool) : Var :=
  ⟨node tag, ⟨tag, hint⟩, dataflow⟩

def x : Var := var 0 "x" false

def d : Var := var 1 "d" true

def o : Var := var 2 "o" false

def t : Var := var 3 "t" false

def r : Var := var 4 "r" false

def pairBlock : Block :=
  .mk ⟨5, none⟩ .dataflow [
    .bind ⟨6, none⟩ d (.call (node 7) (.mkOp 8 "relax.add") [.var x, .var x] none []),
    .bind ⟨9, none⟩ o (.tuple (node 10) [.var d, .var x])]

def branch : Expr :=
  .seq (node 11) [.mk ⟨12, none⟩ .plain [.bind ⟨13, none⟩ t (.item (node 14) (.var o) 0)]] (.var t)

/-- Every composite node has struct info. -/
def main : Function :=
  ⟨node 15, [x],
    .seq (node 16) [pairBlock, .mk ⟨17, none⟩ .plain [
      .bind ⟨18, none⟩ r (.ite (node 19) (.var x) branch (.var x))]] (.var r), .object, .empty⟩

def start : Session Unit := .new () .empty ⟨20, []⟩

/-- The default traversal of the function. -/
def run : Except Fault Expr × Session Unit :=
  (Transformer.walk.run main.toExpr.fuel (.expr main.toExpr)).exec start

end Settled

open Settled in
theorem walk_keeps_annotated_function :
    ∃ e', run = (.ok e', run.2) ∧ e' = main.toExpr ∧ run.2.remap = start.remap := by
  have hok : run.1.isOk := by decide +kernel
  obtain ⟨e', hrun⟩ := Act.eq_ok_of_isOk hok
  have hannotated : main.toExpr.isAnnotated := by decide +kernel
  exact ⟨e', hrun, walk_keeps_annotated (s := start) main.toExpr.fuel hannotated rfl hrun⟩

end DataflowIR
