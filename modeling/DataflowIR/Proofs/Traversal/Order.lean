import DataflowIR.Proofs.Relabeling.Walks
import DataflowIR.Proofs.Traversal.Closing
import DataflowIR.Traversal.Visitor

namespace DataflowIR

open Session

namespace Site

/-- Whether calls at the place are recorded: those for an expression, a binding, a block, the
definition of a variable, a span or a dimension as such. -/
def recorded : Site → Bool
  | expr _ | binding _ | block _ | varDef _ | span _ | dim _ => true
  | exprKind _ | bindingKind _ | blockKind _ | varDefKind _ | type _ => false

/-- More than the places that lie one below the other, from the place on. -/
def height : Site → Nat
  | expr e => 4 * e.size + 3
  | exprKind e => 4 * e.size + 2
  | binding b => 4 * b.size + 3
  | bindingKind b => 4 * b.size + 2
  | block b => 4 * b.size + 3
  | blockKind b => 4 * b.size + 2
  | varDef _ => 3
  | varDefKind _ => 2
  | type _ | span _ | dim _ => 1

theorem height_pos (s : Site) : 0 < s.height := by
  cases s <;> simp only [height] <;> omega

private theorem height_of_mem_spanSites {span : Option Span} {s : Site} (h : s ∈ spanSites span) :
    s.height = 1 := by
  cases span with
  | none => cases h
  | some i =>
    obtain rfl := List.mem_singleton.mp h
    rfl

theorem height_of_mem_sites {e : Expr} {s : Site} (h : s ∈ e.sites) :
    s.height < 4 * e.size + 2 := by
  have hpos := e.size_pos
  rcases List.mem_append.mp h with h | h
  · rw [height_of_mem_spanSites h]
    omega
  have hexpr : ∀ {es : List Expr}, s ∈ es.map .expr → s.height ≤ 4 * Expr.sizeOfList es + 3 := by
    intro es hs
    obtain ⟨e, he, rfl⟩ := List.mem_map.mp hs
    have := Expr.size_le_of_mem he
    simp only [height]
    omega
  cases e with
  | leaf | var => cases h
  | shape node values =>
    obtain ⟨d, -, rfl⟩ := List.mem_map.mp h
    simp only [height]
    omega
  | prim node value dtype =>
    obtain rfl := List.mem_singleton.mp h
    simp only [height]
    omega
  | tuple node fields =>
    have := hexpr h
    simp only [Expr.size]
    omega
  | item node whole index =>
    obtain rfl := List.mem_singleton.mp h
    simp only [height, Expr.size]
    omega
  | call node callee args attrs sinfoArgs =>
    simp only [List.cons_append, List.mem_cons, List.mem_append] at h
    simp only [Expr.size] at hpos ⊢
    rcases h with rfl | h | h
    · simp only [height]
      omega
    · obtain ⟨i, -, rfl⟩ := List.mem_map.mp h
      simp only [height]
      omega
    · have := hexpr h
      omega
  | ite node cond onTrue onFalse =>
    simp only [List.mem_cons, List.not_mem_nil, or_false] at h
    rcases h with rfl | rfl | rfl <;> simp only [height, Expr.size] <;> omega
  | seq node blocks body =>
    simp only [List.mem_append, List.mem_singleton] at h
    rcases h with h | rfl
    · obtain ⟨b, hb, rfl⟩ := List.mem_map.mp h
      have := Block.size_le_of_mem hb
      simp only [height, Expr.size]
      omega
    · simp only [height, Expr.size]
      omega
  | function node params body ret attrs =>
    simp only [List.mem_append, List.mem_cons, List.not_mem_nil, or_false] at h
    rcases h with h | rfl | rfl
    · obtain ⟨v, -, rfl⟩ := List.mem_map.mp h
      simp only [height]
      omega
    · simp only [height, Expr.size]
      omega
    · simp only [height]
      omega

theorem height_below {s s' : Site} (h : s' ∈ s.below) : s'.height < s.height := by
  cases s with
  | expr | binding | block | varDef =>
    obtain rfl := List.mem_singleton.mp h
    exact Nat.lt_succ_self _
  | exprKind e => exact height_of_mem_sites h
  | bindingKind b =>
    cases b with
    | bind mark v value =>
      simp only [below, Binding.sites, List.mem_cons, List.not_mem_nil, or_false] at h
      rcases h with rfl | rfl <;> simp only [height, Binding.size] <;> omega
    | cast mark v value sinfo =>
      simp only [below, Binding.sites, List.mem_cons, List.not_mem_nil, or_false] at h
      rcases h with rfl | rfl | rfl <;> simp only [height, Binding.size] <;> omega
  | blockKind b =>
    obtain ⟨mark, kind, bindings⟩ := b
    obtain ⟨b, hb, rfl⟩ := List.mem_map.mp h
    have : b.size ≤ Binding.sizeOfList bindings := Binding.size_le_of_mem hb
    simp only [height, Block.size]
    omega
  | varDefKind v =>
    rw [height_of_mem_spanSites h]
    exact Nat.lt_succ_self 1
  | type | span | dim => cases h

theorem height_le_fuel (e : Expr) : (expr e).height ≤ e.fuel.toNat := by
  rw [e.fuel_eq_ofNat, Fuel.toNat_ofNat]
  exact Nat.le_succ _

/-- The recorded places from the place on, each before those below it. -/
def record (s : Site) : List Site :=
  (if s.recorded then [s] else []) ++ s.below.attach.flatMap fun s' => s'.1.record
termination_by s.height
decreasing_by exact height_below s'.2

end Site

namespace Site

theorem record_eq (s : Site) :
    s.record = (if s.recorded then [s] else []) ++ s.below.flatMap record := by
  rw [record, List.flatMap_subtype fun _ _ => rfl, List.unattach_attach]

end Site

namespace Visitor

/-- The default, with each call at a recorded place noted down before. -/
def recording : Visitor (List Site) :=
  fun self s => do
    if s.recorded then modify (· ++ [s])
    walk self s

private theorem recording_visitAll {go : Site → Act (List Site) Unit} {sites : List Site}
    (hgo : ∀ s ∈ sites, ∀ log, (go s).exec log = (.ok (), log ++ s.record)) (log : List Site) :
    (visitAll go sites).exec log = (.ok (), log ++ sites.flatMap Site.record) := by
  induction sites generalizing log with
  | nil => simp [visitAll]
  | cons s rest ih =>
    obtain ⟨hs, hrest⟩ := List.forall_mem_cons.mp hgo
    rw [visitAll, Act.exec_bind, hs, List.flatMap_cons, ← List.append_assoc]
    exact ih hrest (log ++ s.record)

/-- By induction on the fuel, which is enough for the places below where it is enough for a
place. -/
private theorem recording_run {fuel : Fuel} {s : Site} (h : s.height ≤ fuel.toNat)
    (log : List Site) :
    (recording.run fuel s).exec log = (.ok (), log ++ s.record) := by
  induction fuel generalizing s log with
  | spent => exact absurd s.height_pos (Nat.not_lt.mpr h)
  | step rest ih =>
    have hbelow : ∀ log, (visitAll (recording.run (rest ())) s.below).exec log =
        (.ok (), log ++ s.below.flatMap Site.record) :=
      recording_visitAll fun s' hs' =>
        ih () (Nat.le_of_lt_succ ((Site.height_below hs').trans_le h))
    have hrun : recording.run (.step rest) s = recording (recording.run (rest ())) s := rfl
    rw [hrun, recording, Site.record_eq]
    split
    · rw [Act.exec_bind, Act.exec_modify, ← List.append_assoc]
      exact hbelow _
    · exact hbelow log

end Visitor

namespace Session

variable {σ : Type}

/-- The data of the client stay. -/
def SameData (s s' : Session σ) : Prop :=
  s'.data = s.data

instance : IsPreorder (Session σ) SameData where
  refl _ := rfl
  trans _ _ _ h k := k.trans h

theorem freshMark_quiet (span : Option Span) :
    (freshMark span : Build σ Mark).Always SameData := by
  intro _
  rfl

private theorem normalize_quiet (e : Expr) : (normalize e : Build σ Expr).Always SameData := by
  intro s
  rw [exec_normalize]
  cases s.builder.missingSinfo e with
  | error f => rfl
  | ok i => cases i <;> rfl

private theorem retype_quiet (v : Var) (sinfo : Option StructInfo) :
    (retype v sinfo : Build σ Var).Always SameData := by
  cases sinfo with
  | none => exact .pure v
  | some i =>
    rw [retype]
    split
    · exact .pure v
    · exact .bind (fun _ => rfl) fun _ => .pure _

/-- A new node or the same one. -/
theorem settle_quiet {α : Type} {same : Prop} [Decidable same] {old : α} {new : Mark → α}
    {span : Option Span} :
    (if same then pure old
      else do return new (← freshMark span) : Build σ α).Always SameData := by
  split
  · exact .pure _
  · exact .bind (freshMark_quiet span) fun _ => .pure _

theorem emitBinding_quiet (b : Binding) : (emitBinding b : Build σ Unit).Always SameData := by
  refine .bind (fun _ => rfl) fun _ => ?_
  exact .bind (.resume _) fun _ => .bind (fun _ => rfl) fun _ _ => rfl

theorem endBlock_quiet : (endBlock : Build σ Block).Always SameData := by
  refine .bind (fun _ => rfl) fun _ => ?_
  refine .bind (.resume _) fun _ => ?_
  refine .bind (fun _ => rfl) fun _ => ?_
  refine .bind (fun _ => rfl) fun _ => ?_
  exact .bind (freshMark_quiet none) fun _ => .pure _

private theorem endScope_quiet : (endScope : Build σ Unit).Always SameData := by
  exact .bind (fun _ => rfl) fun _ => .bind (.resume _) fun _ _ => rfl

private theorem closeRemap_quiet : (closeRemap : Build σ Unit).Always SameData := by
  refine .bind (fun _ => rfl) fun s => ?_
  cases s.remap.closeScope? with
  | none => exact .fail _
  | some r => exact fun _ => rfl

end Session

/-- However it ends, what the computation notes down is the beginning of `log`, and all of it where
it succeeds. -/
def Act.Notes {α : Type} (act : Build (List Site) α) (log : List Site) : Prop :=
  ∀ s, ∃ noted, (act.exec s).2.data = s.data ++ noted ∧ noted <+: log ∧
    ∀ a, (act.exec s).1 = .ok a → noted = log

/-- The computation never succeeds. -/
def Act.Fails {σ α : Type} (act : Act σ α) : Prop :=
  ∀ s a, (act.exec s).1 ≠ .ok a

namespace Act

variable {σ α β : Type}

theorem Fails.of_left {act : Act σ α} (h : act.Fails) (next : α → Act σ β) :
    (act >>= next).Fails := by
  intro s b
  have hs := h s
  rw [exec_bind]
  rcases hr : act.exec s with ⟨r, t⟩
  rw [hr] at hs
  cases r with
  | ok a => exact absurd rfl (hs a)
  | error f => exact nofun

theorem Fails.of_right (act : Act σ α) {next : α → Act σ β} (h : ∀ a, (next a).Fails) :
    (act >>= next).Fails := by
  intro s b
  rw [exec_bind]
  rcases act.exec s with ⟨r, t⟩
  cases r with
  | ok a => exact h a t b
  | error f => exact nofun

theorem fail_fails (f : Fault) : (fail f : Act σ α).Fails := by
  intro _ _
  nofun

theorem Always.attempt {R : σ → σ → Prop} {act : Act σ α} (h : act.Always R) :
    act.attempt.Always R := h

namespace Notes

variable {act : Build (List Site) α} {log log' : List Site}

theorem quiet (h : act.Always SameData) : act.Notes [] := by
  intro s
  exact ⟨[], (h s).trans (List.append_nil _).symm, List.nil_prefix, fun _ _ => rfl⟩

theorem of_data (act : Build (List Site) α) (h : ∀ s, (act.exec s).2.data = s.data) :
    act.Notes [] :=
  quiet h

theorem pure (a : α) : (Pure.pure a : Build (List Site) α).Notes [] :=
  quiet (.pure a)

theorem fail (f : Fault) (log : List Site) : (Act.fail f : Build (List Site) α).Notes log := by
  intro _
  exact ⟨[], (List.append_nil _).symm, List.nil_prefix, fun _ => nofun⟩

theorem bind {next : α → Build (List Site) β} (h : act.Notes log)
    (hn : ∀ a, (next a).Notes log') : (act >>= next).Notes (log ++ log') := by
  intro s
  obtain ⟨noted, hd, hp, hok⟩ := h s
  rw [exec_bind]
  rcases hr : act.exec s with ⟨r, t⟩
  rw [hr] at hd hok
  cases r with
  | ok a =>
    obtain rfl := hok a rfl
    obtain ⟨noted', hd', hp', hok'⟩ := hn a t
    refine ⟨noted ++ noted', ?_, List.prefix_append_right_inj _ |>.mpr hp', fun b hb => ?_⟩
    · rw [← List.append_assoc, ← hd]
      exact hd'
    · rw [hok' b hb]
  | error f => exact ⟨noted, hd, hp.trans (List.prefix_append _ _), fun _ => nofun⟩

theorem then_quiet {next : α → Build (List Site) β} (h : act.Notes log)
    (hn : ∀ a, (next a).Always SameData) : (act >>= next).Notes log := by
  have := h.bind fun a => .quiet (hn a)
  rwa [List.append_nil] at this

/-- Nothing more is noted down after the attempt, and its failure is passed on. -/
theorem attempt_bind {next : Except Fault α → Build (List Site) β} (h : act.Notes log)
    (hn : ∀ r, (next r).Always SameData) (hf : ∀ f, (next (.error f)).Fails) :
    (act.attempt >>= next).Notes log := by
  intro s
  obtain ⟨noted, hd, hp, hok⟩ := h s
  rw [exec_attempt_bind]
  rcases hr : act.exec s with ⟨r, t⟩
  rw [hr] at hd hok
  refine ⟨noted, (hn r t).trans hd, hp, fun b hb => ?_⟩
  cases r with
  | ok a => exact hok a rfl
  | error f => exact absurd hb (hf f t b)

/-- A list visited element by element. -/
theorem each {one : α → Build (List Site) β} (visit : List α → Build (List Site) (List β))
    (hnil : visit [] = Pure.pure [])
    (hcons : ∀ a as, visit (a :: as) = do return (← one a) :: (← visit as))
    {site : α → Site} (h : ∀ a, (one a).Notes (site a).record) (as : List α) :
    (visit as).Notes ((as.map site).flatMap Site.record) := by
  induction as with
  | nil =>
    rw [hnil]
    exact .pure _
  | cons a as ih =>
    rw [hcons]
    exact (h a).bind fun b => ih.then_quiet fun bs => .pure (b :: bs)

end Notes

end Act

@[simp] theorem Site.record_type (i : StructInfo) : (Site.type i).record = [] := by
  rw [record_eq]
  rfl

namespace Transformer

/-- The rebuilt binding, after the variable took its new struct info. -/
private theorem renewed_quiet {σ : Type} (v v' : Var) (sinfo : Option StructInfo)
    (span : Option Span) (new : Mark → Var → Binding) : (do
      let v' ← retype v' sinfo
      remapIfChanged v v'
      emitBinding (new (← freshMark span) v') : Build σ Unit).Always SameData := by
  refine .bind (retype_quiet _ _) fun v' => .bind ?_ fun _ =>
    .bind (freshMark_quiet span) fun _ => emitBinding_quiet _
  rw [remapIfChanged]
  split
  · exact .pure ()
  · exact fun _ => rfl

/-- The default, with each call at a recorded place noted down before. -/
def recording : Transformer (List Site) :=
  fun self s => do
    if s.recorded then modifyData (· ++ [s])
    walk self s

variable {go : (s : Site) → Build (List Site) s.Result}

section Walks

variable (hgo : ∀ s, (go s).Notes s.record)

include hgo

private theorem visitSpan_notes (span : Option Span) :
    (visitSpan go span).Notes ((spanSites span).flatMap Site.record) := by
  cases span with
  | none => exact .pure ()
  | some i =>
    rw [spanSites, List.flatMap_singleton]
    exact hgo (.span i)

private theorem visitExprs_notes (es : List Expr) :
    (visitExprs go es).Notes ((es.map .expr).flatMap Site.record) := by
  refine .each (visitExprs go) rfl (fun _ _ => rfl) ?_ es
  intro e
  exact hgo (.expr e)

private theorem visitDims_notes (ds : List Dim) :
    (visitDims go ds).Notes ((ds.map .dim).flatMap Site.record) := by
  refine .each (visitDims go) rfl (fun _ _ => rfl) ?_ ds
  intro d
  exact hgo (.dim d)

private theorem visitTypes_notes (is : List StructInfo) :
    (visitTypes go is).Notes ((is.map .type).flatMap Site.record) := by
  refine .each (visitTypes go) rfl (fun _ _ => rfl) ?_ is
  intro i
  exact hgo (.type i)

private theorem visitVarDefs_notes (vs : List Var) :
    (visitVarDefs go vs).Notes ((vs.map .varDef).flatMap Site.record) := by
  refine .each (visitVarDefs go) rfl (fun _ _ => rfl) ?_ vs
  intro v
  exact hgo (.varDef v)

private theorem visitBlocks_notes (bs : List Block) :
    (visitBlocks go bs).Notes ((bs.map .block).flatMap Site.record) := by
  refine .each (visitBlocks go) rfl (fun _ _ => rfl) ?_ bs
  intro b
  exact hgo (.block b)

private theorem visitBindings_notes (bs : List Binding) :
    (visitBindings go bs).Notes ((bs.map .binding).flatMap Site.record) := by
  induction bs with
  | nil => exact .pure ()
  | cons b bs ih => exact (hgo (.binding b)).bind fun _ => ih

theorem inScope_notes (e : Expr) (params : List Var) :
    (inScope go e params).Notes (Site.expr e).record := by
  have hopen := Act.Notes.of_data openRemap fun _ => rfl
  have hscope := Act.Notes.of_data (beginScope params) fun _ => rfl
  have hblock := Act.Notes.of_data (beginBlock .plain) fun _ => rfl
  refine hopen.bind fun _ => hscope.bind fun _ => hblock.bind fun _ =>
    (hgo (.expr e)).attempt_bind (fun r => ?_) fun f => ?_
  · refine .bind endBlock_quiet.attempt fun _ => .bind endScope_quiet.attempt fun _ =>
      .bind closeRemap_quiet.attempt fun _ => .bind (.resume r) fun _ => .bind (.resume _) fun _ =>
      .bind (.resume _) fun _ => .bind (.resume _) fun _ => ?_
    split
    · exact .pure _
    · exact .bind (freshMark_quiet none) fun _ => normalize_quiet _
  · exact .of_right _ fun _ => .of_right _ fun _ => .of_right _ fun _ =>
      (Act.fail_fails f).of_left _

private theorem walkFunction_notes (f : Function) : (walkFunction go f).Notes
    ((f.params.map .varDef).flatMap Site.record ++ (Site.expr f.body).record) := by
  have h : (walkFunction go f).Notes ((f.params.map .varDef).flatMap Site.record ++
      ((Site.type f.ret).record ++ (Site.expr f.body).record)) :=
    (visitVarDefs_notes hgo f.params).bind fun _ => (hgo (.type f.ret)).bind fun _ =>
      (inScope_notes hgo f.body _).then_quiet fun _ => settle_quiet
  rwa [Site.record_type, List.nil_append] at h

private theorem walkFunctionScope_notes (f : Function) : (walkFunctionScope go f).Notes
    ((f.params.map .varDef).flatMap Site.record ++ (Site.expr f.body).record) := by
  have hopen := Act.Notes.of_data openRemap fun _ => rfl
  refine hopen.bind fun _ => (walkFunction_notes hgo f).attempt_bind (fun r => ?_) fun fault => ?_
  · exact .bind closeRemap_quiet.attempt fun _ => .bind (.resume r) fun _ =>
      .bind (.resume _) fun _ => .pure _
  · exact .of_right _ fun _ => (Act.fail_fails fault).of_left _

private theorem walkSeq_notes (node : Node) (blocks : List Block) (body : Expr) :
    (walkSeq go node blocks body).Notes
      ((blocks.map .block).flatMap Site.record ++ (Site.expr body).record) := by
  have hblock := Act.Notes.of_data (beginBlock .plain) fun _ => rfl
  refine (visitBlocks_notes hgo blocks).bind fun _ => hblock.bind fun _ =>
    (hgo (.expr body)).attempt_bind (fun r => ?_) fun f => ?_
  · exact .bind endBlock_quiet.attempt fun _ => .bind (.resume r) fun _ =>
      .bind (.resume _) fun _ => settle_quiet
  · exact .of_right _ fun _ => (Act.fail_fails f).of_left _

private theorem walkCall_notes (c : Call) : (walkCall go c).Notes ((Site.expr c.callee).record ++
    ((c.sinfoArgs.map .type).flatMap Site.record ++ (c.args.map .expr).flatMap Site.record)) := by
  refine (hgo (.expr c.callee)).bind fun _ => ?_
  refine (visitTypes_notes hgo c.sinfoArgs).bind fun _ => ?_
  exact (visitExprs_notes hgo c.args).then_quiet fun _ => settle_quiet

private theorem walkIte_notes (node : Node) (cond onTrue onFalse : Expr) :
    (walkIte go node cond onTrue onFalse).Notes ((Site.expr cond).record ++
      ((Site.expr onTrue).record ++ (Site.expr onFalse).record)) := by
  refine (hgo (.expr cond)).bind fun _ => ?_
  refine (inScope_notes hgo onTrue []).bind fun _ => ?_
  exact (inScope_notes hgo onFalse []).then_quiet fun _ => settle_quiet

private theorem walkExpr_notes (e : Expr) :
    (walkExpr go e).Notes (e.sites.flatMap Site.record) := by
  unfold Expr.sites
  rw [List.flatMap_append]
  refine (visitSpan_notes hgo e.span).bind fun _ => ?_
  cases e with
  | leaf node content => exact .pure _
  | var v => exact .quiet (.bind (fun _ => rfl) fun _ => .pure _)
  | shape node values => exact (visitDims_notes hgo values).then_quiet fun _ => settle_quiet
  | prim node value dtype =>
    rw [List.flatMap_singleton]
    exact (hgo (.dim value)).then_quiet fun _ => settle_quiet
  | tuple node fields => exact (visitExprs_notes hgo fields).then_quiet fun _ => settle_quiet
  | item node whole index =>
    rw [List.flatMap_singleton]
    exact (hgo (.expr whole)).then_quiet fun _ => settle_quiet
  | call node callee args attrs sinfoArgs =>
    simpa using walkCall_notes hgo ⟨node, callee, args, attrs, sinfoArgs⟩
  | ite node cond onTrue onFalse => simpa using walkIte_notes hgo node cond onTrue onFalse
  | seq node blocks body => simpa using walkSeq_notes hgo node blocks body
  | function node params body ret attrs =>
    simpa using walkFunctionScope_notes hgo ⟨node, params, body, ret, attrs⟩

private theorem walkBind_notes (mark : Mark) (v : Var) (value : Expr) :
    (walkBind go mark v value).Notes ((Site.expr value).record ++ (Site.varDef v).record) := by
  refine (hgo (.expr value)).bind fun value' => (hgo (.varDef v)).then_quiet fun v' => ?_
  split
  · exact emitBinding_quiet _
  · exact renewed_quiet v v' _ _ (.bind · · value')

private theorem walkCast_notes (mark : Mark) (v : Var) (value : Expr) (sinfo : StructInfo) :
    (walkCast go mark v value sinfo).Notes
      ((Site.expr value).record ++ ((Site.type sinfo).record ++ (Site.varDef v).record)) := by
  refine (hgo (.expr value)).bind fun value' => (hgo (.type sinfo)).bind fun sinfo' =>
    (hgo (.varDef v)).then_quiet fun v' => ?_
  split
  · exact emitBinding_quiet _
  · exact renewed_quiet v v' _ _ (.cast · · value' sinfo')

private theorem walkBinding_notes (b : Binding) :
    (walkBinding go b).Notes (b.sites.flatMap Site.record) := by
  cases b with
  | bind mark v value =>
    simp only [Binding.sites, List.flatMap_cons, List.flatMap_nil, List.append_nil]
    exact walkBind_notes hgo mark v value
  | cast mark v value sinfo =>
    simp only [Binding.sites, List.flatMap_cons, List.flatMap_nil, List.append_nil]
    exact walkCast_notes hgo mark v value sinfo

private theorem walkBlockAs_notes (kind : BlockKind) (b : Block) :
    (walkBlockAs go kind b).Notes ((b.bindings.map .binding).flatMap Site.record) := by
  have hblock := Act.Notes.of_data (beginBlock kind) fun _ => rfl
  refine hblock.bind fun _ =>
    (visitBindings_notes hgo b.bindings).attempt_bind (fun r => ?_) fun f => ?_
  · refine .bind endBlock_quiet.attempt fun _ => .bind (.resume r) fun _ =>
      .bind (.resume _) fun _ => ?_
    split <;> exact .pure _
  · exact .of_right _ fun _ => (Act.fail_fails f).of_left _

private theorem walkVarDef_notes (v : Var) :
    (walkVarDef go v).Notes ((spanSites v.span).flatMap Site.record) := by
  have h : (walkVarDef go v).Notes ((spanSites v.span).flatMap Site.record ++ []) := by
    refine (visitSpan_notes hgo v.span).bind fun _ => ?_
    cases v.sinfo with
    | none => exact .pure v
    | some i =>
      rw [← Site.record_type i]
      refine (hgo (.type i)).then_quiet fun i' => ?_
      split
      · exact .pure v
      · exact .bind (freshMark_quiet _) fun _ => .bind (fun _ => rfl) fun _ => .pure _
  rwa [List.append_nil] at h

/-- One level of the default traversal. -/
private theorem walk_notes (s : Site) : (walk go s).Notes (s.below.flatMap Site.record) := by
  cases s with
  | expr e =>
    rw [Site.below, List.flatMap_singleton]
    exact (hgo (.exprKind e)).then_quiet normalize_quiet
  | exprKind e => exact walkExpr_notes hgo e
  | binding b =>
    rw [Site.below, List.flatMap_singleton]
    exact hgo (.bindingKind b)
  | bindingKind b => exact walkBinding_notes hgo b
  | block b =>
    rw [Site.below, List.flatMap_singleton]
    exact hgo (.blockKind b)
  | blockKind b => exact walkBlockAs_notes hgo b.kind b
  | varDef v =>
    rw [Site.below, List.flatMap_singleton]
    exact hgo (.varDefKind v)
  | varDefKind v => exact walkVarDef_notes hgo v
  | type i => exact .pure i
  | span i => exact .pure ()
  | dim d => exact .pure d

private theorem recording_notes (s : Site) : (recording go s).Notes s.record := by
  have hnote : (modifyData (· ++ [s]) : Build (List Site) Unit).Notes [s] :=
    fun t => ⟨[s], rfl, List.prefix_rfl, fun _ _ => rfl⟩
  rw [recording, Site.record_eq]
  split
  · exact hnote.bind fun _ => walk_notes hgo s
  · exact walk_notes hgo s

end Walks

/-- By induction on the fuel: without any, nothing is noted down. -/
private theorem recording_run_notes (fuel : Fuel) (s : Site) :
    (recording.run fuel s).Notes s.record := by
  induction fuel generalizing s with
  | spent => exact .fail .outOfFuel _
  | step rest ih => exact recording_notes (ih ()) s

variable {υ : Type} {ℓ : Relabeling} {go' : (s : Site) → Build υ s.Result}

theorem recording_tracks (s : Site) {α : Type} {g : s.Result → α} {act : Build υ α}
    (h : Act.Tracks ℓ g (walk go s) act) : Act.Tracks ℓ g (recording go s) act := by
  rw [recording]
  split
  · refine ⟨fun t => h.next_le { t with data := t.data ++ [s] }, fun t t' ht hstop => ?_⟩
    exact h.alike { t with data := t.data ++ [s] } t'
      ⟨ht.uniform, ht.builder, ht.remap, ht.supply⟩ hstop
  · exact h

private theorem keeps_recording (h : Keeps ℓ go go') : Keeps ℓ (recording go) (walk go') := by
  have hwalk := h.walk
  constructor
  · intro e
    exact recording_tracks (.expr e) (hwalk.expr e)
  · intro e
    exact recording_tracks (.exprKind e) (hwalk.exprKind e)
  · intro b
    exact recording_tracks (.binding b) (hwalk.binding b)
  · intro b
    exact recording_tracks (.bindingKind b) (hwalk.bindingKind b)
  · intro b
    exact recording_tracks (.block b) (hwalk.block b)
  · intro b
    exact recording_tracks (.blockKind b) (hwalk.blockKind b)
  · intro v
    exact recording_tracks (.varDef v) (hwalk.varDef v)
  · intro v
    exact recording_tracks (.varDefKind v) (hwalk.varDefKind v)
  · intro i
    exact recording_tracks (.type i) (hwalk.type i)
  · intro i
    exact recording_tracks (.span i) (hwalk.span i)
  · intro d
    exact recording_tracks (.dim d) (hwalk.dim d)

private theorem keeps_recording_run (fuel : Fuel) :
    Keeps ℓ (recording.run fuel) ((walk : Transformer υ).run fuel) := by
  induction fuel with
  | spent => constructor <;> exact fun _ => .fail .outOfFuel
  | step rest ih => exact keeps_recording (ih ())

/-- The recording traversal comes to what the default one comes to. -/
private theorem recording_run_eq (fuel : Fuel) (e : Expr) (log : List Site) (data : υ) (b : Builder)
    (r : Remap) (w : World) :
    ((recording.run fuel (.expr e)).exec ⟨log, b, r, w⟩).1 =
      (((walk : Transformer υ).run fuel (.expr e)).exec ⟨data, b, r, w⟩).1 := by
  let start : Session (List Site) := ⟨log, b, r, w⟩
  let ℓ : Relabeling := ⟨.refl Nat, w.next, w.next,
    ((recording.run fuel (.expr e)).exec start).2.world.next, fun _ _ => rfl⟩
  have hs : start.Relabels ℓ (⟨data, b, r, w⟩ : Session υ) :=
    ⟨Rules.uniform_refl _, b.relabel_refl.symm, r.relabel_refl.symm, 0, rfl, rfl⟩
  have he : ∀ e : Expr, e.relabel (Equiv.refl Nat) = e := fun e =>
    e.relabel_eq_self fun _ _ => rfl
  have hrun := (((keeps_recording_run (ℓ := ℓ) fuel).expr e).alike start _ hs le_rfl).1
  rw [he, funext he] at hrun
  exact (hrun.trans (relabelOutcome_refl _)).symm

/-- On every expression the default transformer makes the calls of the default visitor, on the same
nodes in the same order: all of them if it succeeds, and the first of them if it fails. -/
theorem calls_follow_visitor (e : Expr) (fuel : Fuel) (b : Builder) (r : Remap) (w : World) :
    ∃ calls, (Visitor.recording.run e.fuel (.expr e)).exec [] = (.ok (), calls) ∧
      let run := (recording.run fuel (.expr e)).exec ⟨[], b, r, w⟩
      run.1 = (((walk : Transformer Unit).run fuel (.expr e)).exec ⟨(), b, r, w⟩).1 ∧
      (∀ e', run.1 = .ok e' → run.2.data = calls) ∧
      ∀ fault, run.1 = .error fault → run.2.data <+: calls := by
  refine ⟨_, Visitor.recording_run (Site.height_le_fuel e) [], recording_run_eq fuel e [] () b r w, ?_⟩
  obtain ⟨noted, hd, hp, hok⟩ := recording_run_notes fuel (.expr e) ⟨[], b, r, w⟩
  rw [List.nil_append] at hd ⊢
  exact ⟨fun e' he => hd.trans (hok e' he), fun _ _ => hd ▸ hp⟩

end Transformer

end DataflowIR
