import DataflowIR.Proofs.Rewrite.Parts
import DataflowIR.Proofs.Scoping.Trace

namespace DataflowIR

open Scope (Mention Op)

/-- The variable mentioned is of the kind given, and something is mentioned that may stand. -/
def Scope.Mention.Fits (kind : Id → Bool) : Mention → Prop
  | .var id dataflow => dataflow = kind id
  | .misplaced => False
  | _ => True

def Scope.Op.Fits (kind : Id → Bool) : Op → Prop
  | .mention m => m.Fits kind
  | .define id dataflow => dataflow = kind id
  | _ => True

def Scope.Fit (kind : Id → Bool) (ops : List Op) : Prop :=
  ∀ op ∈ ops, op.Fits kind

/-- No identity is that of a dataflow variable and of a regular one. -/
def Function.OneKind (f : Function) : Prop :=
  ∀ a ∈ f.ops.filterMap Op.var?, ∀ b ∈ f.ops.filterMap Op.var?, a.1 = b.1 → a.2 = b.2

instance (f : Function) : Decidable f.OneKind :=
  inferInstanceAs (Decidable (∀ a ∈ f.ops.filterMap Op.var?,
    ∀ b ∈ f.ops.filterMap Op.var?, a.1 = b.1 → a.2 = b.2))

/-- The variables of a function whose check succeeds are each of a kind. -/
theorem Function.OneKind.fit {f : Function} (h : f.OneKind) {known : String → Bool}
    {w w' : Scope.Walk} (hr : Scope.run known f.ops w = some w') :
    ∃ kind, Scope.Fit kind f.ops := by
  refine ⟨fun id => decide ((id, true) ∈ f.ops.filterMap Op.var?), ?_⟩
  intro op hop
  have hvar : ∀ {id dataflow}, op.var? = some (id, dataflow) →
      dataflow = decide ((id, true) ∈ f.ops.filterMap Op.var?) := by
    intro id dataflow ho
    have hm : (id, dataflow) ∈ f.ops.filterMap Op.var? := List.mem_filterMap.mpr ⟨op, hop, ho⟩
    cases dataflow with
    | true => exact (decide_eq_true hm).symm
    | false =>
      refine (decide_eq_false ?_).symm
      intro ht
      exact Bool.false_ne_true (h _ hm _ ht rfl)
  cases op with
  | mention m =>
    cases m with
    | var => exact hvar rfl
    | misplaced =>
      rw [Scope.run_eq_none_of_misplaced hop] at hr
      cases hr
    | _ => trivial
  | define => exact hvar rfl
  | _ => trivial

theorem Expr.areNormal_of_fits {kind : Id → Bool} {es : List Expr}
    (h : ∀ m ∈ Expr.mentionsAll es, m.Fits kind) : Expr.areNormal es := by
  cases hn : Expr.areNormal es with
  | true => rfl
  | false => exact (h _ (Expr.misplaced_mem_mentionsAll es hn)).elim

namespace Scope.Fit

variable {kind : Id → Bool}

theorem append {ops ops' : List Op} (h : Fit kind (ops ++ ops')) : Fit kind ops ∧ Fit kind ops' :=
  List.forall_mem_append.mp h

theorem cons {op : Op} {ops : List Op} (h : Fit kind (op :: ops)) : op.Fits kind ∧ Fit kind ops :=
  List.forall_mem_cons.mp h

theorem nested {ops : List Op} (h : Fit kind (Scope.nested ops)) : Fit kind ops :=
  h.cons.2.append.1

theorem mentions {ms : List Mention} (h : Fit kind (ms.map .mention)) : ∀ m ∈ ms, m.Fits kind := by
  intro m hm
  exact h (.mention m) (List.mem_map_of_mem hm)

theorem item {asBody : Bool} {node : Node} {whole : Expr} {index : Nat}
    (h : Fit kind (Expr.ops asBody (.item node whole index))) : Fit kind (whole.ops false) :=
  h

theorem call {asBody : Bool} {node : Node} {callee : Expr} {args : List Expr}
    {attrs : Option Attrs} {sinfoArgs : List StructInfo}
    (h : Fit kind (Expr.ops asBody (.call node callee args attrs sinfoArgs))) :
    Fit kind (callee.ops false) ∧ ∀ m ∈ Expr.mentionsAll args, m.Fits kind := by
  have h := h.append
  exact ⟨h.1, h.2.cons.2.mentions⟩

theorem ite {asBody : Bool} {node : Node} {cond onTrue onFalse : Expr}
    (h : Fit kind (Expr.ops asBody (.ite node cond onTrue onFalse))) :
    Fit kind (cond.ops false) ∧ Fit kind (onTrue.ops true) ∧ Fit kind (onFalse.ops true) := by
  have h := h.cons.2.append
  exact ⟨h.1, h.2.append.1.nested, h.2.append.2.nested⟩

theorem seq {asBody : Bool} {node : Node} {blocks : List Block} {body : Expr}
    (h : Fit kind (Expr.ops asBody (.seq node blocks body))) :
    asBody ∧ Fit kind (Block.opsAll blocks) ∧ Fit kind (body.ops false) := by
  rw [Expr.ops] at h
  split at h
  · next hb => exact ⟨hb, h.append⟩
  · exact h.cons.1.elim

theorem function {asBody : Bool} {node : Node} {params : List Var} {body : Expr}
    {ret : StructInfo} {attrs : Attrs}
    (h : Fit kind (Expr.ops asBody (.function node params body ret attrs))) :
    (∀ v ∈ params, v.dataflow = kind v.id) ∧ Fit kind (body.ops true) := by
  have h := Fit.nested h
  refine ⟨?_, h.append.2.append.1⟩
  intro v hv
  exact h.append.1 (.define v.id v.dataflow) (List.mem_flatMap.mpr ⟨v, hv, by simp [Var.paramOps]⟩)

theorem bind {mark : Mark} {v : Var} {value : Expr} (h : Fit kind (Binding.bind mark v value).ops) :
    Fit kind (value.ops false) ∧ v.dataflow = kind v.id := by
  have h := h.append
  exact ⟨h.1, h.2.cons.1⟩

theorem cast {mark : Mark} {v : Var} {value : Expr} {sinfo : StructInfo}
    (h : Fit kind (Binding.cast mark v value sinfo).ops) :
    Fit kind (value.ops false) ∧ v.dataflow = kind v.id := by
  have h := h.append
  exact ⟨h.1, h.2.cons.2.cons.1⟩

theorem block {b : Block} (h : Fit kind b.ops) : Fit kind (Binding.opsAll b.bindings) := by
  cases b with
  | mk _ k bindings =>
    cases k with
    | plain => exact h
    | dataflow =>
      cases bindings with
      | nil => nofun
      | cons b bs =>
        have h := h.cons.2.append
        exact List.forall_mem_append.mpr ⟨h.1, h.2.append.1⟩

end Scope.Fit

section Normal

variable {p : Pass} {rules : Rules}

mutual

theorem Expr.Rebuilds.trail_eq {t t' : Trail} {e e' : Expr} (hn : e.isNormal)
    (h : Expr.Rebuilds p rules t e e' t') : t'.remap = t.remap ∧ t'.bound = t.bound := by
  match h with
  | .leaf | .var | .shape | .prim => exact ⟨rfl, rfl⟩
  | .tuple hf hs =>
    rw [hs.trail_eq.1, hs.trail_eq.2]
    exact Expr.BecomeAll.trail_eq hn hf
  | .item .. | .call .. | .ite .. | .seq .. | .function .. => cases hn

/-- Nothing is bound in a normal expression. -/
theorem Expr.Becomes.trail_eq {t t' : Trail} {e e' : Expr} (hn : e.isNormal)
    (h : Expr.Becomes p rules t e e' t') : t'.remap = t.remap ∧ t'.bound = t.bound := by
  match h with
  | .mk hr hf =>
    rw [hf.trail_eq.1, hf.trail_eq.2]
    exact Expr.Rebuilds.trail_eq hn hr

theorem Expr.BecomeAll.trail_eq {t t' : Trail} {es es' : List Expr} (hn : Expr.areNormal es)
    (h : Expr.BecomeAll p rules t es es' t') : t'.remap = t.remap ∧ t'.bound = t.bound := by
  match h with
  | .nil => exact ⟨rfl, rfl⟩
  | .cons he hs =>
    rw [Expr.areNormal, Bool.and_eq_true] at hn
    obtain ⟨hr, hb⟩ := Expr.Becomes.trail_eq hn.1 he
    obtain ⟨hr', hb'⟩ := Expr.BecomeAll.trail_eq hn.2 hs
    exact ⟨hr'.trans hr, hb'.trans hb⟩

end

end Normal

mutual

/-- The tags of all nodes of the expression. -/
def Expr.tags : Expr → List Nat
  | .leaf node _ | .shape node _ | .prim node _ _ => [node.tag]
  | .var v => [v.tag]
  | .tuple node fields => node.tag :: Expr.tagsAll fields
  | .item node whole _ => node.tag :: whole.tags
  | .call node callee args _ _ => node.tag :: (callee.tags ++ Expr.tagsAll args)
  | .ite node cond onTrue onFalse =>
    node.tag :: (cond.tags ++ (onTrue.tags ++ onFalse.tags))
  | .seq node blocks body => node.tag :: (Block.tagsAll blocks ++ body.tags)
  | .function node params body _ _ => node.tag :: (params.map Var.tag ++ body.tags)

def Expr.tagsAll : List Expr → List Nat
  | [] => []
  | e :: es => e.tags ++ Expr.tagsAll es

def Binding.tags : Binding → List Nat
  | .bind mark v value | .cast mark v value _ => mark.tag :: v.tag :: value.tags

def Binding.tagsAll : List Binding → List Nat
  | [] => []
  | b :: bs => b.tags ++ Binding.tagsAll bs

def Block.tags : Block → List Nat
  | .mk mark _ bindings => mark.tag :: Binding.tagsAll bindings

def Block.tagsAll : List Block → List Nat
  | [] => []
  | b :: bs => b.tags ++ Block.tagsAll bs

end

/-- All tags are below `base`. -/
def Below (base : Nat) (tags : List Nat) : Prop :=
  ∀ tag ∈ tags, tag < base

instance (base : Nat) (tags : List Nat) : Decidable (Below base tags) :=
  inferInstanceAs (Decidable (∀ tag ∈ tags, tag < base))

namespace Below

variable {base : Nat}

theorem append {tags tags' : List Nat} (h : Below base (tags ++ tags')) :
    Below base tags ∧ Below base tags' :=
  List.forall_mem_append.mp h

theorem cons {tag : Nat} {tags : List Nat} (h : Below base (tag :: tags)) :
    tag < base ∧ Below base tags :=
  List.forall_mem_cons.mp h

end Below

def Module.tags (m : Module) : List Nat :=
  m.toList.flatMap fun e => e.2.toExpr.tags

theorem Expr.tag_mem_tags (e : Expr) : e.tag ∈ e.tags := by
  cases e <;> simp [Expr.tags, Expr.tag, Expr.node, Var.tag]

/-- The kind of a variable after the pass. -/
def Pass.kindAfter (p : Pass) (dataflow : Bool) : Bool :=
  if p = .explicitMemory then false else dataflow

/-- What is made from here on, and the variables put in place of others so far, have tags from
`base` on. -/
structure Trail.After (base : Nat) (t : Trail) : Prop where
  next : base ≤ t.next
  fresh : ∀ {id v}, t.remap id = some v → base ≤ v.tag

namespace Trail.After

variable {base : Nat} {t t' : Trail}

theorem empty {next : Nat} (h : base ≤ next) : (Trail.empty next).After base := by
  exact ⟨h, nofun⟩

theorem of_remap (h : t.After base) (hr : t'.remap = t.remap) (hn : t.next ≤ t'.next) :
    t'.After base := by
  exact ⟨h.next.trans hn, fun hv => h.fresh (hr ▸ hv)⟩

theorem tick (h : t.After base) : t.tick.After base :=
  h.of_remap rfl (Nat.le_succ _)

theorem record (h : t.After base) (b : Binding) : (t.record b).After base :=
  h.of_remap (Trail.record_remap t b) (Trail.record_next t b).ge

/-- The end of a scope brings back the replacements from before. -/
theorem leave (h : t.After base) (h' : t'.After base) : (t'.leave t).After base := by
  exact ⟨h'.next, h.fresh⟩

/-- A variable that gets new struct info is replaced by a node of its own. -/
theorem retype (h : t.After base) {v v' : Var} {sinfo : Option StructInfo}
    (hr : t.retype v sinfo = (v', t')) : (t'.replaceIfChanged v v').After base := by
  have ht : t'.After base := h.of_remap (Trail.retype_eq hr).2.2.2.1 (Trail.retype_next_le hr)
  unfold Trail.replaceIfChanged
  split
  · exact ht
  · next hs =>
    have hv : v'.tag = t.next := by
      apply (Trail.retype_eq_or_tag hr).resolve_left
      rintro rfl
      exact hs (Var.sameAs_self v')
    refine ⟨ht.next, ?_⟩
    intro id w hw
    simp only [Trail.replace, Function.update_apply] at hw
    split at hw
    · cases hw
      exact hv ▸ h.next
    · exact ht.fresh hw

end Trail.After

/-- Variables are replaced by others of their identity, of the kind that the pass gives them. All of
them are made after the tag `base`. -/
structure Trail.Sound (p : Pass) (base : Nat) (kind : Id → Bool) (t : Trail) : Prop where
  next : base ≤ t.next
  id : ∀ {id v}, t.remap id = some v → v.id = id
  kind : ∀ {id v}, t.remap id = some v → v.dataflow = p.kindAfter (kind id)
  fresh : ∀ {id v}, t.remap id = some v → base ≤ v.tag

namespace Trail.Sound

variable {p : Pass} {base : Nat} {kind : Id → Bool} {t t' : Trail}

theorem empty (p : Pass) (kind : Id → Bool) {next : Nat} (h : base ≤ next) :
    (Trail.empty next).Sound p base kind := by
  exact ⟨h, nofun, nofun, nofun⟩

theorem after (h : t.Sound p base kind) : t.After base := by
  exact ⟨h.next, h.fresh⟩

theorem of_remap (h : t.Sound p base kind) (hr : t'.remap = t.remap) (hn : t.next ≤ t'.next) :
    t'.Sound p base kind := by
  exact ⟨h.next.trans hn, fun hv => h.id (hr ▸ hv), fun hv => h.kind (hr ▸ hv), fun hv => h.fresh
    (hr ▸ hv)⟩

theorem replace (h : t.Sound p base kind) {v : Var} {id : Id} (hid : v.id = id)
    (hk : v.dataflow = p.kindAfter (kind id)) (hf : base ≤ v.tag) :
    (t.replace id v).Sound p base kind := by
  have hcases : ∀ {j w}, (t.replace id v).remap j = some w →
      j = id ∧ w = v ∨ t.remap j = some w := by
    intro j w hw
    simp only [Trail.replace, Function.update_apply] at hw
    split at hw
    · next hj => exact .inl ⟨hj, (Option.some.inj hw).symm⟩
    · exact .inr hw
  refine ⟨h.next, ?_, ?_, ?_⟩
  · intro j w hw
    obtain ⟨rfl, rfl⟩ | hw := hcases hw
    · exact hid
    · exact h.id hw
  · intro j w hw
    obtain ⟨rfl, rfl⟩ | hw := hcases hw
    · exact hk
    · exact h.kind hw
  · intro j w hw
    obtain ⟨rfl, rfl⟩ | hw := hcases hw
    · exact hf
    · exact h.fresh hw

/-- A definition gives the variable back, or a new one that is put in its place. -/
theorem define (h : t.Sound p base kind) {v v' : Var}
    (hd : t.define p v = (v', t')) : t'.Sound p base kind ∧ v'.id = v.id ∧
      v'.dataflow = p.kindAfter v.dataflow ∧ v'.sinfo = v.sinfo ∧ (v' = v ∨ base ≤ v'.tag) := by
  unfold Trail.define at hd
  split at hd
  · next hp =>
    cases hd
    have ht : t.tick.Sound p base kind := h.of_remap rfl (Nat.le_succ _)
    refine ⟨ht.replace rfl ?_ h.next, rfl, ?_, rfl, .inr h.next⟩
    · simp [Pass.kindAfter, hp.1, Var.make]
    · simp [Pass.kindAfter, hp.1, Var.make]
  · next hp =>
    cases hd
    refine ⟨h, rfl, ?_, rfl, .inl rfl⟩
    unfold Pass.kindAfter
    split
    · next hp' => simpa [hp'] using hp
    · rfl

theorem defineAll (h : t.Sound p base kind) {vs vs' : List Var}
    (hd : t.defineAll p vs = (vs', t')) : t'.Sound p base kind := by
  induction vs generalizing t vs' with
  | nil =>
    cases hd
    exact h
  | cons v vs ih =>
    cases hv : t.define p v with
    | mk v' t1 =>
      cases hvs : t1.defineAll p vs with
      | mk ws t2 =>
        simp only [Trail.defineAll, hv, hvs] at hd
        cases hd
        exact ih (h.define hv).1 hvs

/-- The variable of a rewritten binding is the old one, or a new one that is put in its place. -/
theorem retype (h : t.Sound p base kind) {v v1 v' : Var} {sinfo : Option StructInfo}
    (hid : v1.id = v.id) (hk : v1.dataflow = p.kindAfter (kind v.id)) (hv : v1 = v ∨ base ≤ v1.tag)
    (hr : t.retype v1 sinfo = (v', t')) : (t'.replaceIfChanged v v').Sound p base kind := by
  have hn := Trail.retype_next_le hr
  obtain ⟨hid', hk', -, hrm, -⟩ := Trail.retype_eq hr
  have ht := h.of_remap hrm hn
  have hv' : v' = v ∨ base ≤ v'.tag := by
    obtain rfl | htag := Trail.retype_eq_or_tag hr
    · exact hv
    · exact .inr (h.next.trans htag.ge)
  unfold Trail.replaceIfChanged
  split
  · exact ht
  · next hs =>
    obtain rfl | hf := hv'
    · simp [Var.sameAs] at hs
    · exact ht.replace (hid'.trans hid) (hk'.trans hk) hf

theorem tick (h : t.Sound p base kind) : t.tick.Sound p base kind :=
  h.of_remap rfl (Nat.le_succ _)

theorem emits (h : t.Sound p base kind) {rules : Rules} {value : Expr} {v : Var} {b : Binding}
    (he : Emits rules t value v b t') : t'.Sound p base kind := by
  have hn := he.next_le
  cases he with
  | mk name hf hv =>
    exact h.of_remap (by simp [hf.trail_eq.1]) hn

/-- The end of a scope brings back the replacements from before. -/
theorem leave (h : t.Sound p base kind) (hn : t.next ≤ t'.next) : (t'.leave t).Sound p base kind :=
  h.of_remap rfl hn

theorem branch (h : t.Sound p base kind) (hn : t.next ≤ t'.next) :
    (t'.tick.leave t).Sound p base kind :=
  h.leave (hn.trans (Nat.le_succ _))

end Trail.Sound

section Sound

variable {p : Pass} {base : Nat} {kind : Id → Bool}

mutual

theorem Expr.Rebuilds.sound {t t' : Trail} {e e' : Expr} {asBody : Bool}
    (hrebuilds : Expr.Rebuilds p .standard t e e' t') :
    Scope.Fit kind (e.ops asBody) → t.Sound p base kind → t'.Sound p base kind := by
  match hrebuilds with
  | .leaf | .var | .shape | .prim =>
    intro _ ht
    exact ht
  | .tuple hf hs =>
    intro he ht
    have hn := Expr.areNormal_of_fits he.mentions
    exact ht.of_remap (hs.trail_eq.1.trans (hf.trail_eq hn).1) (hf.next_le.trans hs.next_le)
  | .item hw hs =>
    intro he ht
    exact (hw.sound he ht).of_remap hs.trail_eq.1 hs.next_le
  | .call hc ha hs hf =>
    intro he ht
    have hn := Expr.areNormal_of_fits he.call.2
    have h := (hc.sound he.call.1 ht).of_remap (ha.trail_eq hn).1 ha.next_le
    exact (h.of_remap hs.trail_eq.1 hs.next_le).of_remap hf.trail_eq.1 hf.next_le
  | .ite hc ht hf hs =>
    intro he h
    have h1 := hc.sound he.ite.1 h
    have hn1 := ht.next_le
    have hn2 := hf.next_le
    have hn3 := hs.next_le
    simp only [Trail.leave_next, Trail.tick_next] at hn2 hn3
    exact h1.of_remap hs.trail_eq.1 (by omega)
  | .seq hb hy hs =>
    intro he ht
    have h := hy.sound he.seq.2.2 (hb.sound he.seq.2.1 ht)
    exact h.of_remap hs.trail_eq.1 ((Nat.le_succ _).trans hs.next_le)
  | h@(.function _ _ _) =>
    intro _ ht
    exact ht.leave h.next_le

theorem Expr.Becomes.sound {t t' : Trail} {e e' : Expr} {asBody : Bool}
    (h : Expr.Becomes p .standard t e e' t') :
    Scope.Fit kind (e.ops asBody) → t.Sound p base kind → t'.Sound p base kind := by
  match h with
  | .mk hr hf =>
    intro he ht
    exact (hr.sound he ht).of_remap hf.trail_eq.1 hf.next_le

theorem Binding.Becomes.sound {bk : BlockKind} {t t' : Trail} {b : Binding} {out : List Binding}
    (hbecomes : Binding.Becomes p .standard bk t b out t') :
    Scope.Fit kind b.ops → t.Sound p base kind → t'.Sound p base kind := by
  match hbecomes with
  | .kept _ hy hd _ _ =>
    intro h ht
    exact (((hy.sound h.bind.1 ht).define hd).1).of_remap (by simp) (by simp)
  | .changed _ hy hd _ hr _ =>
    intro h ht
    obtain ⟨h2, hid, hk, -, hv⟩ := (hy.sound h.bind.1 ht).define hd
    have h3 := h2.retype hid (h.bind.2 ▸ hk) hv hr
    exact h3.of_remap (by simp) (by simp)
  | .lowered hl _ hsh hf hpa hal hca hd hr =>
    intro h ht
    obtain ⟨-, c, hc, hdp, -⟩ := Pass.lowered?_eq hl
    obtain rfl := Expr.eq_toExpr_of_asCall? hc
    have hn := Expr.areNormal_of_fits h.bind.1.call.2
    rw [(Transformer.destinationPassing?_eq hdp).1] at hn
    simp only [Expr.areNormal, Bool.and_eq_true] at hn
    have h1 := ht.of_remap (hsh.trail_eq hn.1).1 hsh.next_le
    have h2 := h1.of_remap (hf.trail_eq hn.2.1).1 hf.next_le
    have h3 := h2.of_remap (hpa.trail_eq hn.2.2.1).1 hpa.next_le
    obtain ⟨h6, hid, hk, -, hv⟩ := ((h3.tick.tick.emits hal).tick.emits hca).define hd
    have h7 := h6.retype hid (h.bind.2 ▸ hk) hv hr
    exact h7.of_remap (by simp) (by simp)
  | .keptCast hy hd _ _ =>
    intro h ht
    exact ((hy.sound h.cast.1 ht).define hd).1
  | .changedCast hy hd _ hr _ =>
    intro h ht
    obtain ⟨h2, hid, hk, -, hv⟩ := (hy.sound h.cast.1 ht).define hd
    have h3 := h2.retype hid (h.cast.2 ▸ hk) hv hr
    exact h3.of_remap (by simp) (by simp)

theorem Binding.BecomeAll.sound {bk : BlockKind} {t t' : Trail} {bs outs : List Binding}
    (hbecomes : Binding.BecomeAll p .standard bk t bs outs t') :
    Scope.Fit kind (Binding.opsAll bs) → t.Sound p base kind → t'.Sound p base kind := by
  match hbecomes with
  | .nil =>
    intro _ ht
    exact ht
  | .cons hb hs =>
    intro h ht
    exact hs.sound h.append.2 (hb.sound h.append.1 ht)

theorem Block.Becomes.sound {t t' : Trail} {b b' : Block}
    (hbecomes : Block.Becomes p .standard t b b' t') :
    Scope.Fit kind b.ops → t.Sound p base kind → t'.Sound p base kind := by
  match hbecomes with
  | .kept hb _ | .changed hb _ =>
    intro h ht
    exact (hb.sound h.block ht).tick

theorem Block.BecomeAll.sound {t t' : Trail} {bs bs' : List Block}
    (hbecomes : Block.BecomeAll p .standard t bs bs' t') :
    Scope.Fit kind (Block.opsAll bs) → t.Sound p base kind → t'.Sound p base kind := by
  match hbecomes with
  | .nil =>
    intro _ ht
    exact ht
  | .cons hb hs =>
    intro h ht
    exact hs.sound h.append.2 (hb.sound h.append.1 ht)

end

theorem Settles.eq_or_fresh {t t' : Trail} {same : Bool} {old e' : Expr} {new : Mark → Expr}
    {span : Option Span} (h : Settles t same old new span e' t') (hn : base ≤ t.next)
    (hnew : ∀ mark, (new mark).tag = mark.tag) : e' = old ∨ base ≤ e'.tag := by
  cases h with
  | same => exact .inl rfl
  | changed => exact .inr (hnew _ ▸ hn)

theorem Expr.Rebuilds.eq_or_fresh {t t' : Trail} {e e' : Expr}
    (h : Expr.Rebuilds p .standard t e e' t') (ht : t.After base) :
    e' = e ∨ base ≤ e'.tag := by
  have hn := ht.next
  cases h with
  | leaf | shape | prim => exact .inl rfl
  | @var _ v =>
    cases hv : t.remap v.id with
    | none => exact .inl rfl
    | some w => exact .inr (ht.fresh hv)
  | tuple hf hs => exact hs.eq_or_fresh (hn.trans hf.next_le) fun _ => rfl
  | item hw hs => exact hs.eq_or_fresh (hn.trans hw.next_le) fun _ => rfl
  | call hc ha hs hf =>
    have hn2 := hn.trans (hc.next_le.trans ha.next_le)
    cases hf with
    | kept => exact hs.eq_or_fresh hn2 fun _ => rfl
    | fused => exact .inr (hn2.trans hs.next_le)
  | ite hc ht hf hs =>
    have h1 := hc.next_le
    have h2 := ht.next_le
    have h3 := hf.next_le
    simp only [Trail.leave_next, Trail.tick_next] at h3
    exact hs.eq_or_fresh (by simp only [Trail.leave_next, Trail.tick_next]; omega) fun _ => rfl
  | seq hb hy hs =>
    have h1 := hb.next_le
    have h2 := hy.next_le
    exact hs.eq_or_fresh (by simp only [Trail.tick_next]; omega) fun _ => rfl
  | function hp hb hs =>
    have h1 := Trail.defineAll_next_le hp
    have h2 := hb.next_le
    exact hs.eq_or_fresh (by simp only [Trail.leave_next, Trail.tick_next]; omega) fun _ => rfl

theorem Expr.Becomes.eq_or_fresh {t t' : Trail} {e e' : Expr}
    (h : Expr.Becomes p .standard t e e' t') (ht : t.After base) :
    e' = e ∨ base ≤ e'.tag := by
  cases h with
  | mk hr hf =>
    cases hf with
    | kept => exact hr.eq_or_fresh ht
    | filled =>
      right
      rw [Expr.withSinfo, Expr.tag, Expr.node_withNode]
      exact ht.next.trans hr.next_le

theorem Expr.eq_of_sameAs {e e' : Expr} (h : e' = e ∨ base ≤ e'.tag) (he : Below base e.tags)
    (hs : e'.sameAs e) : e' = e := by
  apply h.resolve_right
  intro hf
  rw [Expr.sameAs, beq_iff_eq] at hs
  have := he e.tag e.tag_mem_tags
  omega

/-- An expression that comes back with its tag is the same. -/
theorem Expr.Becomes.eq_of_sameAs {t t' : Trail} {e e' : Expr}
    (h : Expr.Becomes p .standard t e e' t') (ht : t.Sound p base kind) (he : Below base e.tags)
    (hs : e'.sameAs e) : e' = e :=
  Expr.eq_of_sameAs (h.eq_or_fresh ht.after) he hs

theorem Expr.BecomeAll.eq_of_sameAs {t t' : Trail} {es es' : List Expr}
    (h : Expr.BecomeAll p .standard t es es' t') (hn : Expr.areNormal es)
    (ht : t.Sound p base kind) (he : Below base (Expr.tagsAll es))
    (hs : Transformer.allSame Expr.sameAs es' es) : es' = es := by
  induction es generalizing t es' with
  | nil =>
    cases h
    rfl
  | cons e es ih =>
    cases h with
    | cons h1 h2 =>
      rw [Expr.areNormal, Bool.and_eq_true] at hn
      rw [Transformer.allSame, Bool.and_eq_true] at hs
      rw [h1.eq_of_sameAs ht he.append.1 hs.1,
        ih h2 hn.2 (ht.of_remap (h1.trail_eq hn.1).1 h1.next_le) he.append.2 hs.2]

theorem Var.eq_of_sameAs {v v' : Var} (h : v' = v ∨ base ≤ v'.tag) (hv : v.tag < base)
    (hs : v'.sameAs v) : v' = v := by
  apply h.resolve_right
  intro hf
  rw [Var.sameAs, beq_iff_eq] at hs
  omega

theorem Binding.eq_of_sameAs {b b' : Binding} (h : b' = b ∨ base ≤ b'.tag) (hb : b.tag < base)
    (hs : b'.sameAs b) : b' = b := by
  apply h.resolve_right
  intro hf
  rw [Binding.sameAs, beq_iff_eq] at hs
  omega

theorem Block.eq_of_sameAs {b b' : Block} (h : b' = b ∨ base ≤ b'.tag) (hb : b.tag < base)
    (hs : b'.sameAs b) : b' = b := by
  apply h.resolve_right
  intro hf
  rw [Block.sameAs, beq_iff_eq] at hs
  omega

theorem Trail.Sound.params_eq_of_sameAs {t t' : Trail} (ht : t.Sound p base kind)
    {vs vs' : List Var} (hd : t.defineAll p vs = (vs', t')) (hb : Below base (vs.map Var.tag))
    (hs : Transformer.allSame Var.sameAs vs' vs) : vs' = vs := by
  induction vs generalizing t vs' with
  | nil =>
    cases hd
    rfl
  | cons v vs ih =>
    cases hv : t.define p v with
    | mk v' t1 =>
      cases hvs : t1.defineAll p vs with
      | mk ws t2 =>
        simp only [Trail.defineAll, hv, hvs] at hd
        cases hd
        rw [Transformer.allSame, Bool.and_eq_true] at hs
        obtain ⟨h1, -, -, -, hf⟩ := ht.define hv
        rw [Var.eq_of_sameAs hf hb.cons.1 hs.1, ih h1 hvs hb.cons.2 hs.2]

theorem Emits.tag_le {rules : Rules} {t t' : Trail} {value : Expr} {v : Var} {b : Binding}
    (h : Emits rules t value v b t') : t.next ≤ b.tag := by
  cases h with
  | mk name hf hv =>
    have hn := hf.next_le
    simp only [Binding.tag, Binding.mark]
    omega

theorem Binding.Becomes.eq_or_fresh {bk : BlockKind} {t t' : Trail} {b : Binding}
    {out : List Binding} (h : Binding.Becomes p .standard bk t b out t')
    (ht : t.Sound p base kind) : out = [b] ∨ ∃ b' rest, out = b' :: rest ∧ base ≤ b'.tag := by
  have hn := ht.next
  cases h with
  | kept | keptCast => exact .inl rfl
  | changed _ hy hd _ hr _ =>
    exact .inr ⟨_, _, rfl, hn.trans (hy.next_le.trans
      ((Trail.define_next_le hd).trans (Trail.retype_next_le hr)))⟩
  | changedCast hy hd _ hr _ =>
    exact .inr ⟨_, _, rfl, hn.trans (hy.next_le.trans
      ((Trail.define_next_le hd).trans (Trail.retype_next_le hr)))⟩
  | lowered _ _ hsh hf hpa hal _ _ _ =>
    have h1 := hsh.next_le
    have h2 := hf.next_le
    have h3 := hpa.next_le
    have h4 := hal.tag_le
    simp only [Trail.tick_next] at h4
    exact .inr ⟨_, _, rfl, by omega⟩

theorem Binding.BecomeAll.eq_of_sameAs {bk : BlockKind} {t t' : Trail} {bs out : List Binding}
    (h : Binding.BecomeAll p .standard bk t bs out t') (hf : Scope.Fit kind (Binding.opsAll bs))
    (ht : t.Sound p base kind) (hb : Below base (Binding.tagsAll bs))
    (hs : Transformer.allSame Binding.sameAs out bs) : out = bs := by
  induction bs generalizing t out with
  | nil =>
    cases h
    rfl
  | cons b bs ih =>
    cases h with
    | cons h1 h2 =>
      obtain rfl | ⟨b', rest, rfl, hfresh⟩ := h1.eq_or_fresh ht
      · rw [List.singleton_append, Transformer.allSame, Bool.and_eq_true] at hs
        rw [List.singleton_append,
          ih h2 hf.append.2 (h1.sound hf.append.1 ht) hb.append.2 hs.2]
      · rw [List.cons_append, Transformer.allSame, Bool.and_eq_true, Binding.sameAs,
          beq_iff_eq] at hs
        have hlt : b.tag < base := by
          cases b <;> exact hb.append.1.cons.1
        omega

theorem Block.BecomeAll.eq_of_sameAs {t t' : Trail} {bs bs' : List Block}
    (h : Block.BecomeAll p .standard t bs bs' t') (hf : Scope.Fit kind (Block.opsAll bs))
    (ht : t.Sound p base kind) (hb : Below base (Block.tagsAll bs))
    (hs : Transformer.allSame Block.sameAs bs' bs) : bs' = bs := by
  induction bs generalizing t bs' with
  | nil =>
    cases h
    rfl
  | cons b bs ih =>
    cases h with
    | cons h1 h2 =>
      rw [Transformer.allSame, Bool.and_eq_true] at hs
      rw [ih h2 hf.append.2 (h1.sound hf.append.1 ht) hb.append.2 hs.2]
      have hlt : b.tag < base := by
        cases b with
        | mk => exact hb.append.1.cons.1
      cases h1 with
      | kept => rfl
      | changed hbs =>
        have hfresh := ht.next.trans hbs.next_le
        rw [Block.eq_of_sameAs (.inr hfresh) hlt hs.1]

/-- A mention after the replacements. -/
def Trail.mention (t : Trail) : Mention → Mention
  | .var id dataflow => .var id ((t.remap id).elim dataflow Var.dataflow)
  | m => m

theorem Trail.mention_congr {t t' : Trail} (h : t'.remap = t.remap) : t'.mention = t.mention := by
  funext m
  cases m <;> simp only [mention, h]

@[simp] theorem Expr.mentions_withNode (n : Node) (e : Expr) :
    (e.withNode n).mentions = e.mentions := by
  cases e <;> rfl

mutual

theorem Expr.Rebuilds.mentions {t t' : Trail} {e e' : Expr} :
    Expr.Rebuilds p .standard t e e' t' → (∀ m ∈ e.mentions, m.Fits kind) → Below base e.tags →
      t.Sound p base kind → e'.mentions = e.mentions.map t.mention
  | @Expr.Rebuilds.leaf _ _ _ _ content, _, _, _ => by
    cases content <;> rfl
  | @Expr.Rebuilds.var _ _ _ v, _, _, ht => by
    cases hv : t.remap v.id with
    | none => simp [Expr.mentions, Trail.mention, hv]
    | some w => simp [Expr.mentions, Trail.mention, hv, ht.id hv]
  | .shape, _, _, _ | .prim, _, _, _ => rfl
  | .tuple hf hs, he, hb, ht => by
    have ih := hf.mentions he hb.cons.2 ht
    cases hs with
    | same h => rwa [hf.eq_of_sameAs (Expr.areNormal_of_fits he) ht hb.cons.2 h] at ih
    | changed => exact ih
  | .item .., he, _, _ | .call .., he, _, _ | .ite .., he, _, _ | .seq .., he, _, _
  | .function .., he, _, _ => (he .misplaced (List.mem_singleton_self _)).elim

theorem Expr.Becomes.mentions {t t' : Trail} {e e' : Expr}
    (h : Expr.Becomes p .standard t e e' t') :
    (∀ m ∈ e.mentions, m.Fits kind) → Below base e.tags → t.Sound p base kind → e'.mentions =
      e.mentions.map t.mention := by
  match h with
  | .mk hr hf =>
    intro he hb ht
    have ih := hr.mentions he hb ht
    rw [← ih]
    cases hf with
    | kept => rfl
    | filled => rw [Expr.withSinfo, Expr.mentions_withNode]

theorem Expr.BecomeAll.mentions {t t' : Trail} {es es' : List Expr}
    (hbecomes : Expr.BecomeAll p .standard t es es' t') :
    (∀ m ∈ Expr.mentionsAll es, m.Fits kind) → Below base (Expr.tagsAll es) → t.Sound p base kind →
      Expr.mentionsAll es' = (Expr.mentionsAll es).map t.mention := by
  match hbecomes with
  | .nil =>
    intro _ _ _
    rfl
  | .cons he hs =>
    intro h hb ht
    obtain ⟨h1, h2⟩ := List.forall_mem_append.mp h
    have hn := (Bool.and_eq_true_iff.mp (Expr.areNormal_of_fits h)).1
    obtain ⟨hr, -⟩ := he.trail_eq hn
    rw [Expr.mentionsAll, Expr.mentionsAll, List.map_append, he.mentions h1 hb.append.1 ht,
      hs.mentions h2 hb.append.2 (ht.of_remap hr he.next_le), Trail.mention_congr hr]

end

/-- Replacements keep the kind of variables, but where memory is made explicit. -/
theorem Trail.Sound.mention_eq {t : Trail} (ht : t.Sound p base kind) (hp : p ≠ .explicitMemory)
    {m : Mention} (hm : m.Fits kind) : t.mention m = m := by
  cases m with
  | var id dataflow =>
    cases hv : t.remap id with
    | none => simp [Trail.mention, hv]
    | some w =>
      have hk := ht.kind hv
      rw [Pass.kindAfter, if_neg hp] at hk
      rw [Trail.mention, hv, Option.elim_some, hk, hm]
  | _ => rfl

theorem Expr.BecomeAll.mentions_eq {t t' : Trail} {es es' : List Expr}
    (h : Expr.BecomeAll p .standard t es es' t') (hp : p ≠ .explicitMemory)
    (hf : ∀ m ∈ Expr.mentionsAll es, m.Fits kind) (hb : Below base (Expr.tagsAll es))
    (ht : t.Sound p base kind) : Expr.mentionsAll es' = Expr.mentionsAll es := by
  rw [h.mentions hf hb ht]
  exact (List.map_congr_left fun m hm => ht.mention_eq hp (hf m hm)).trans (List.map_id _)

end Sound

/-- The pass makes of a well-formed module one that is not. -/
def Pass.Breaks (p : Pass) (m : Module) (w : World) : Prop :=
  m.wellFormed = .ok () ∧
    ∃ m' w', (p.apply m).exec w = (.ok (some m'), w') ∧ m'.wellFormed ≠ .ok ()

theorem Pass.Breaks.of_changedModule? {p : Pass} {m : Module} {w : World}
    (hwf : m.wellFormed = .ok ())
    (h : (p.changedModule? m w).any fun m' => !m'.wellFormed.isOk) : p.Breaks m w := by
  obtain ⟨m', hm, hb⟩ := (Option.any_eq_true _ _).mp h
  refine ⟨hwf, m', _, apply_of_changedModule? hm, ?_⟩
  intro hwf
  rw [hwf] at hb
  cases hb

end DataflowIR
