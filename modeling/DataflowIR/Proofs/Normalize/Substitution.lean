import DataflowIR.Proofs.Scoping.Replacements

namespace DataflowIR

mutual

/-- Every use of a variable that `r` replaces is the replacement. Definitions stay. -/
def Expr.subst (r : Id → Option Var) : Expr → Expr
  | .leaf node content => .leaf node content
  | .var v => .var ((r v.id).getD v)
  | .shape node values => .shape node values
  | .prim node value dtype => .prim node value dtype
  | .tuple node fields => .tuple node (Expr.substAll r fields)
  | .item node whole index => .item node (whole.subst r) index
  | .call node callee args attrs sinfoArgs =>
    .call node (callee.subst r) (Expr.substAll r args) attrs sinfoArgs
  | .ite node cond onTrue onFalse =>
    .ite node (cond.subst r) (onTrue.subst r) (onFalse.subst r)
  | .seq node blocks body => .seq node (Block.substAll r blocks) (body.subst r)
  | .function node params body ret attrs => .function node params (body.subst r) ret attrs

def Expr.substAll (r : Id → Option Var) : List Expr → List Expr
  | [] => []
  | e :: es => e.subst r :: Expr.substAll r es

def Binding.subst (r : Id → Option Var) : Binding → Binding
  | .bind mark v value => .bind mark v (value.subst r)
  | .cast mark v value sinfo => .cast mark v (value.subst r) sinfo

def Binding.substAll (r : Id → Option Var) : List Binding → List Binding
  | [] => []
  | b :: bs => b.subst r :: Binding.substAll r bs

def Block.subst (r : Id → Option Var) : Block → Block
  | .mk mark kind bindings => .mk mark kind (Binding.substAll r bindings)

def Block.substAll (r : Id → Option Var) : List Block → List Block
  | [] => []
  | b :: bs => b.subst r :: Block.substAll r bs

end

def Mark.erased (m : Mark) : Mark :=
  ⟨0, m.span⟩

def Node.erased (n : Node) : Node :=
  ⟨n.toMark.erased, none⟩

/-- Of a variable, its identity and its kind are left. -/
def Var.erased (v : Var) : Var :=
  ⟨⟨⟨0, none⟩, none⟩, v.id, v.dataflow⟩

mutual

/-- The expression without tags, without the struct info of its nodes and variables, and without
blocks that have no bindings. -/
def Expr.erased : Expr → Expr
  | .leaf node content => .leaf node.erased content
  | .var v => .var v.erased
  | .shape node values => .shape node.erased values
  | .prim node value dtype => .prim node.erased value dtype
  | .tuple node fields => .tuple node.erased (Expr.erasedAll fields)
  | .item node whole index => .item node.erased whole.erased index
  | .call node callee args attrs sinfoArgs =>
    .call node.erased callee.erased (Expr.erasedAll args) attrs sinfoArgs
  | .ite node cond onTrue onFalse =>
    .ite node.erased cond.erased onTrue.erased onFalse.erased
  | .seq node blocks body => .seq node.erased (Block.erasedAll blocks) body.erased
  | .function node params body ret attrs =>
    .function node.erased (params.map Var.erased) body.erased ret attrs

def Expr.erasedAll : List Expr → List Expr
  | [] => []
  | e :: es => e.erased :: Expr.erasedAll es

def Binding.erased : Binding → Binding
  | .bind mark v value => .bind mark.erased v.erased value.erased
  | .cast mark v value sinfo => .cast mark.erased v.erased value.erased sinfo

def Binding.erasedAll : List Binding → List Binding
  | [] => []
  | b :: bs => b.erased :: Binding.erasedAll bs

def Block.erased : Block → Block
  | .mk mark kind bindings => .mk mark.erased kind (Binding.erasedAll bindings)

def Block.erasedAll : List Block → List Block
  | [] => []
  | b :: bs => if b.bindings.isEmpty then Block.erasedAll bs else b.erased :: Block.erasedAll bs

end

private theorem Expr.erased_withSinfo (e : Expr) (tag : Nat) (i : StructInfo) :
    (e.withSinfo tag i).erased = e.erased := by
  cases e <;> rfl

private theorem Trail.retype_erased {t t' : Trail} {v v' : Var} {sinfo : Option StructInfo}
    (h : t.retype v sinfo = (v', t')) : v'.erased = v.erased := by
  obtain ⟨hid, hk, -⟩ := Trail.retype_eq h
  rw [Var.erased, Var.erased, hid, hk]

private theorem Block.erasedAll_filter (bs : List Block) :
    Block.erasedAll (bs.filter fun b => !b.bindings.isEmpty) = Block.erasedAll bs := by
  induction bs with
  | nil => rfl
  | cons b bs ih =>
    rw [List.filter_cons, Block.erasedAll]
    cases h : b.bindings.isEmpty with
    | true => simpa using ih
    | false => simpa [Block.erasedAll, h] using ih

private theorem Block.isEmpty_of_erased {b b' : Block} (h : b'.erased = b.erased) :
    b'.bindings.isEmpty = b.bindings.isEmpty := by
  have hnil : ∀ bs : List Binding, (Binding.erasedAll bs).isEmpty = bs.isEmpty := by
    intro bs
    cases bs <;> rfl
  obtain ⟨mark, kind, bs⟩ := b
  obtain ⟨mark', kind', bs'⟩ := b'
  simp only [Block.erased, Block.mk.injEq] at h
  change bs'.isEmpty = bs.isEmpty
  rw [← hnil bs', h.2.2, hnil]

mutual

/-- The variables used. -/
def Expr.uses : Expr → List Var
  | .leaf .. | .shape .. | .prim .. => []
  | .var v => [v]
  | .tuple _ fields => Expr.usesAll fields
  | .item _ whole _ => whole.uses
  | .call _ callee args _ _ => callee.uses ++ Expr.usesAll args
  | .ite _ cond onTrue onFalse => cond.uses ++ (onTrue.uses ++ onFalse.uses)
  | .seq _ blocks body => Block.usesAll blocks ++ body.uses
  | .function _ _ body _ _ => body.uses

def Expr.usesAll : List Expr → List Var
  | [] => []
  | e :: es => e.uses ++ Expr.usesAll es

def Binding.uses : Binding → List Var
  | .bind _ _ value | .cast _ _ value _ => value.uses

def Binding.usesAll : List Binding → List Var
  | [] => []
  | b :: bs => b.uses ++ Binding.usesAll bs

def Block.uses : Block → List Var
  | .mk _ _ bindings => Binding.usesAll bindings

def Block.usesAll : List Block → List Var
  | [] => []
  | b :: bs => b.uses ++ Block.usesAll bs

end

mutual

/-- The variables bound, as parameters or by bindings. -/
def Expr.bound : Expr → List Var
  | .leaf .. | .var _ | .shape .. | .prim .. => []
  | .tuple _ fields => Expr.boundAll fields
  | .item _ whole _ => whole.bound
  | .call _ callee args _ _ => callee.bound ++ Expr.boundAll args
  | .ite _ cond onTrue onFalse => cond.bound ++ (onTrue.bound ++ onFalse.bound)
  | .seq _ blocks body => Block.boundAll blocks ++ body.bound
  | .function _ params body _ _ => params ++ body.bound

def Expr.boundAll : List Expr → List Var
  | [] => []
  | e :: es => e.bound ++ Expr.boundAll es

def Binding.bound : Binding → List Var
  | .bind _ v value | .cast _ v value _ => v :: value.bound

def Binding.boundAll : List Binding → List Var
  | [] => []
  | b :: bs => b.bound ++ Binding.boundAll bs

def Block.bound : Block → List Var
  | .mk _ _ bindings => Binding.boundAll bindings

def Block.boundAll : List Block → List Var
  | [] => []
  | b :: bs => b.bound ++ Block.boundAll bs

end

mutual

/-- All blocks in the expression. -/
def Expr.nestedBlocks : Expr → List Block
  | .leaf .. | .var _ | .shape .. | .prim .. => []
  | .tuple _ fields => Expr.nestedBlocksAll fields
  | .item _ whole _ => whole.nestedBlocks
  | .call _ callee args _ _ => callee.nestedBlocks ++ Expr.nestedBlocksAll args
  | .ite _ cond onTrue onFalse => cond.nestedBlocks ++ (onTrue.nestedBlocks ++ onFalse.nestedBlocks)
  | .seq _ blocks body => Block.nestedBlocksAll blocks ++ body.nestedBlocks
  | .function _ _ body _ _ => body.nestedBlocks

def Expr.nestedBlocksAll : List Expr → List Block
  | [] => []
  | e :: es => e.nestedBlocks ++ Expr.nestedBlocksAll es

def Binding.nestedBlocks : Binding → List Block
  | .bind _ _ value | .cast _ _ value _ => value.nestedBlocks

def Binding.nestedBlocksAll : List Binding → List Block
  | [] => []
  | b :: bs => b.nestedBlocks ++ Binding.nestedBlocksAll bs

/-- The block itself is the first. -/
def Block.nestedBlocks : Block → List Block
  | .mk mark kind bindings => .mk mark kind bindings :: Binding.nestedBlocksAll bindings

def Block.nestedBlocksAll : List Block → List Block
  | [] => []
  | b :: bs => b.nestedBlocks ++ Block.nestedBlocksAll bs

end

section Replacing

variable {r : Id → Option Var} {kind : Id → Bool} {base : Nat}

/-- What is asked of the variables used and bound in a part and of the tags of its nodes: each
variable is of one kind, those that are bound are not replaced, and a node with the tag of an old one
is the old one. -/
structure Substitutable (r : Id → Option Var) (kind : Id → Bool) (base : Nat)
    (used defined : List Var) (tags : List Nat) : Prop where
  uses : ∀ v ∈ used, v.dataflow = kind v.id
  same : ∀ v ∈ used, ∀ w, r v.id = some w → w.sameAs v → w = v
  bound : ∀ v ∈ defined, v.dataflow = kind v.id ∧ r v.id = none
  below : Below base tags

namespace Substitutable

variable {used used' defined defined' : List Var} {tag : Nat} {tags tags' : List Nat}

theorem append
    (h : Substitutable r kind base (used ++ used') (defined ++ defined') (tags ++ tags')) :
    Substitutable r kind base used defined tags ∧
      Substitutable r kind base used' defined' tags' := by
  have hu := List.forall_mem_append.mp h.uses
  have hs := List.forall_mem_append.mp h.same
  have hb := List.forall_mem_append.mp h.bound
  exact ⟨⟨hu.1, hs.1, hb.1, h.below.append.1⟩, hu.2, hs.2, hb.2, h.below.append.2⟩

/-- The parts of a node. -/
theorem parts (h : Substitutable r kind base used defined (tag :: tags)) :
    Substitutable r kind base used defined tags := by
  exact ⟨h.uses, h.same, h.bound, h.below.cons.2⟩

/-- The variable of a binding and the rest of it. -/
theorem binding {v : Var}
    (h : Substitutable r kind base used (v :: defined) (tag :: v.tag :: tags)) :
    v.dataflow = kind v.id ∧ r v.id = none ∧ Substitutable r kind base used defined tags := by
  have hb := List.forall_mem_cons.mp h.bound
  exact ⟨hb.1.1, hb.1.2, h.uses, h.same, hb.2, h.below.cons.2.cons.2⟩

theorem body {params : List Var}
    (h : Substitutable r kind base used (params ++ defined)
      (tag :: (params.map Var.tag ++ tags))) :
    Substitutable r kind base used defined tags := by
  exact ⟨h.uses, h.same, (List.forall_mem_append.mp h.bound).2, h.below.cons.2.append.2⟩

end Substitutable

/-- The variables that `r` replaces are replaced as it says, and others by variables of the same
identity and kind, made after the tag `base`. -/
structure Trail.Substitutes (r : Id → Option Var) (kind : Id → Bool) (base : Nat) (t : Trail) :
    Prop where
  next : base ≤ t.next
  given : ∀ {id v}, r id = some v → t.remap id = some v
  made : ∀ {id v}, r id = none → t.remap id = some v →
    v.id = id ∧ v.dataflow = kind id ∧ base ≤ v.tag

namespace Trail.Substitutes

variable {t t' : Trail}

theorem next_ne (h : t.Substitutes r kind base) {tag : Nat} (htag : tag < base) :
    t.next ≠ tag :=
  (htag.trans_le h.next).ne'

theorem of_remap (h : t.Substitutes r kind base) (hr : t'.remap = t.remap)
    (hn : t.next ≤ t'.next) : t'.Substitutes r kind base := by
  exact ⟨h.next.trans hn, fun hv => hr ▸ h.given hv, fun hv hw => h.made hv (hr ▸ hw)⟩

/-- After a scope the replacements are those from before it. -/
theorem leave (h : t.Substitutes r kind base) (hn : t.next ≤ t'.next) :
    (t'.tick.leave t).Substitutes r kind base :=
  h.of_remap rfl (hn.trans (Nat.le_succ _))

theorem settles {same : Bool} {old e' : Expr} {new : Mark → Expr} {span : Option Span}
    (h : t.Substitutes r kind base) (hs : Settles t same old new span e' t') :
    t'.Substitutes r kind base :=
  h.of_remap hs.trail_eq.1 hs.next_le

theorem replace (h : t.Substitutes r kind base) {v v' : Var} (hv : r v.id = none)
    (hid : v'.id = v.id) (hk : v'.dataflow = kind v.id) (hf : base ≤ v'.tag) :
    (t.replace v.id v').Substitutes r kind base := by
  refine ⟨h.next, ?_, ?_⟩
  · intro id w hw
    have hne : id ≠ v.id := fun he => by rw [he, hv] at hw; cases hw
    simp only [Trail.replace, Function.update_of_ne hne]
    exact h.given hw
  · intro id w hi hw
    by_cases he : id = v.id
    · subst he
      simp only [Trail.replace, Function.update_self, Option.some.injEq] at hw
      subst hw
      exact ⟨hid, hk, hf⟩
    · simp only [Trail.replace, Function.update_of_ne he] at hw
      exact h.made hi hw

/-- The variable of a rebuilt binding is the old one, or a new one that is put in its place. -/
theorem retype (h : t.Substitutes r kind base) {v v' : Var} {sinfo : Option StructInfo}
    (hk : v.dataflow = kind v.id) (hv : r v.id = none) (hr : t.retype v sinfo = (v', t')) :
    (t'.replaceIfChanged v v').Substitutes r kind base := by
  have hn := Trail.retype_next_le hr
  obtain ⟨hid, hk', -, hrm, -⟩ := Trail.retype_eq hr
  have ht := h.of_remap hrm hn
  unfold Trail.replaceIfChanged
  split
  · exact ht
  · next hs =>
    obtain rfl | htag := Trail.retype_eq_or_tag hr
    · exact absurd (Var.sameAs_self v') hs
    · exact ht.replace hv hid (hk'.trans hk) (h.next.trans htag.ge)

end Trail.Substitutes

/-- What comes back for a part is the `target`, apart from what is erased; only the part itself comes
back as the same node. -/
structure StandsFor {α β : Type} (erased : α → β) (same : α → α → Bool) (old target new : α) :
    Prop where
  erased : erased new = erased target
  same : same new old → new = old

theorem Settles.standsFor {t t' : Trail} {same : Bool} {old target e' : Expr} {new : Mark → Expr}
    {span : Option Span} (h : Settles t same old new span e' t') (ht : t.Substitutes r kind base)
    (hold : old.tag < base) (htag : ∀ mark, (new mark).tag = mark.tag)
    (hsame : same = true → old.erased = target.erased)
    (hnew : ∀ tag, (new ⟨tag, span⟩).erased = target.erased) :
    StandsFor Expr.erased Expr.sameAs old target e' := by
  cases h with
  | same h => exact ⟨hsame h, fun _ => rfl⟩
  | changed =>
    refine ⟨hnew _, fun hs => ?_⟩
    rw [Expr.sameAs, beq_iff_eq, htag] at hs
    exact absurd hs (ht.next_ne hold)

variable {rules : Rules}

mutual

theorem Expr.Rebuilds.substitutes {t t' : Trail} {e e' : Expr}
    (h : Expr.Rebuilds .normalize rules t e e' t') :
    Substitutable r kind base e.uses e.bound e.tags → t.Substitutes r kind base →
      t'.Substitutes r kind base ∧ StandsFor Expr.erased Expr.sameAs e (e.subst r) e' := by
  match e, e', h with
  | _, _, .leaf | _, _, .shape | _, _, .prim =>
    intro _ ht
    exact ⟨ht, rfl, fun _ => rfl⟩
  | .var v, _, .var =>
    intro he ht
    have hv : v ∈ (Expr.var v).uses := List.mem_singleton_self v
    refine ⟨ht, ?_⟩
    cases hr : r v.id with
    | some w =>
      have hg := ht.given hr
      constructor
      · simp only [Expr.subst, hr, hg, Option.getD_some]
      · intro hs
        simp only [hg, Option.getD_some] at hs ⊢
        rw [he.same v hv w hr hs]
    | none =>
      cases hm : t.remap v.id with
      | none => exact ⟨by simp only [Expr.subst, hr, Option.getD_none], fun _ => rfl⟩
      | some w =>
        obtain ⟨hid, hk, hf⟩ := ht.made hr hm
        constructor
        · simp only [Expr.subst, hr, Option.getD_some, Option.getD_none, Expr.erased, Var.erased,
            hid, hk, he.uses v hv]
        · intro hs
          have hb : v.tag < base := he.below v.tag (List.mem_singleton_self _)
          have heq : w.tag = v.tag := beq_iff_eq.mp hs
          omega
  | .tuple node fields, _, .tuple hf hs =>
    intro he ht
    obtain ⟨h1, hx⟩ := hf.substitutes he.parts ht
    refine ⟨h1.settles hs, hs.standsFor h1 he.below.cons.1 (fun _ => rfl) ?_ ?_⟩
    · intro hsame
      rw [Expr.subst, Expr.erased, Expr.erased, ← hx.erased, hx.same hsame]
    · intro tag
      rw [Expr.subst, Expr.mkTuple, Expr.erased, Expr.erased, hx.erased]
      rfl
  | .item node whole index, _, .item hw hs =>
    intro he ht
    obtain ⟨h1, hx⟩ := hw.substitutes he.parts ht
    refine ⟨h1.settles hs, hs.standsFor h1 he.below.cons.1 (fun _ => rfl) ?_ ?_⟩
    · intro hsame
      rw [Expr.subst, Expr.erased, Expr.erased, ← hx.erased, hx.same hsame]
    · intro tag
      rw [Expr.subst, Expr.mkItem, Expr.erased, Expr.erased, hx.erased]
      rfl
  | .call node callee args attrs sinfoArgs, _, .call hc ha hs hf =>
    intro he ht
    obtain ⟨hec, hea⟩ := he.parts.append
    obtain ⟨h1, hx⟩ := hc.substitutes hec ht
    obtain ⟨h2, hxs⟩ := ha.substitutes hea h1
    cases hf with
    | fused _ _ _ hp => cases hp
    | kept =>
      refine ⟨h2.settles hs, hs.standsFor h2 he.below.cons.1 (fun _ => rfl) ?_ ?_⟩
      · intro hsame
        obtain ⟨hsa, hsc⟩ := Bool.and_eq_true_iff.mp hsame
        rw [Expr.subst, Expr.erased, Expr.erased, ← hx.erased, hx.same hsc, ← hxs.erased,
          hxs.same hsa]
      · intro tag
        rw [Expr.subst, Expr.mkCall, Expr.erased, Expr.erased, hx.erased, hxs.erased]
        rfl
  | .ite node cond onTrue onFalse, _, .ite hc htr hf hs =>
    intro he ht
    obtain ⟨hec, heb⟩ := he.parts.append
    obtain ⟨het, hef⟩ := heb.append
    obtain ⟨h1, hx⟩ := hc.substitutes hec ht
    obtain ⟨h2, hy⟩ := htr.substitutes het h1
    have hn2 := htr.next_le
    obtain ⟨-, hz⟩ := hf.substitutes hef (h1.leave hn2)
    have h3 := h1.leave (hn2.trans (Nat.le_of_succ_le hf.next_le))
    refine ⟨h3.settles hs, hs.standsFor h3 he.below.cons.1 (fun _ => rfl) ?_ ?_⟩
    · intro hsame
      obtain ⟨hsame, hsz⟩ := Bool.and_eq_true_iff.mp hsame
      obtain ⟨hsx, hsy⟩ := Bool.and_eq_true_iff.mp hsame
      rw [Expr.subst, Expr.erased, Expr.erased, ← hx.erased, hx.same hsx, ← hy.erased,
        hy.same hsy, ← hz.erased, hz.same hsz]
    · intro tag
      rw [Expr.subst, Expr.mkIte, Expr.erased, Expr.erased, hx.erased, hy.erased, hz.erased]
      rfl
  | .seq node blocks body, _, .seq hb hy hs =>
    intro he ht
    obtain ⟨heb, hey⟩ := he.parts.append
    obtain ⟨h1, hx⟩ := hb.substitutes heb ht
    obtain ⟨h2, hy⟩ := hy.substitutes hey h1
    have h3 := h2.of_remap (Trail.tick_remap _) (Nat.le_succ _)
    refine ⟨h3.settles hs, hs.standsFor h3 he.below.cons.1 (fun _ => rfl) ?_ ?_⟩
    · intro hsame
      obtain ⟨hsb, hsy⟩ := Bool.and_eq_true_iff.mp hsame
      rw [Expr.subst, Expr.erased, Expr.erased, ← hx.erased, hx.same hsb, ← hy.erased,
        hy.same hsy]
    · intro tag
      rw [Expr.subst, Expr.mkSeq, Expr.erased, Expr.erased, Block.erasedAll_filter, hx.erased,
        hy.erased]
      rfl
  | .function node params body ret attrs, _, .function hp hb hs =>
    intro he ht
    obtain ⟨hparams, htrail⟩ :=
      Prod.mk.inj (hp.symm.trans (Trail.defineAll_eq Pass.normalize_ne t params))
    obtain ⟨-, hx⟩ := hb.substitutes he.body (htrail ▸ ht)
    subst hparams htrail
    have h1 := ht.leave hb.next_le
    refine ⟨ht.of_remap rfl (hb.next_le.trans (Nat.le_of_succ_le hs.next_le)),
      hs.standsFor h1 he.below.cons.1 (fun _ => rfl) ?_ ?_⟩
    · intro hsame
      have hsx := (Bool.and_eq_true_iff.mp hsame).2
      rw [Expr.subst, Expr.erased, Expr.erased, ← hx.erased, hx.same hsx]
    · intro tag
      rw [Expr.subst, Expr.mkFunction, Expr.erased, Expr.erased, hx.erased]
      rfl

theorem Expr.Becomes.substitutes {t t' : Trail} {e e' : Expr}
    (h : Expr.Becomes .normalize rules t e e' t') :
    Substitutable r kind base e.uses e.bound e.tags → t.Substitutes r kind base →
      t'.Substitutes r kind base ∧ StandsFor Expr.erased Expr.sameAs e (e.subst r) e' := by
  match h with
  | .mk hr hf =>
    intro he ht
    obtain ⟨h1, hx⟩ := hr.substitutes he ht
    cases hf with
    | kept => exact ⟨h1, hx⟩
    | filled i =>
      refine ⟨h1.of_remap rfl (Nat.le_succ _), (Expr.erased_withSinfo _ _ _).trans hx.erased, ?_⟩
      intro hsame
      rw [Expr.sameAs, Expr.withSinfo, Expr.tag, Expr.node_withNode, beq_iff_eq] at hsame
      exact absurd hsame (h1.next_ne (he.below e.tag e.tag_mem_tags))

theorem Expr.BecomeAll.substitutes {t t' : Trail} {es es' : List Expr}
    (hbecomes : Expr.BecomeAll .normalize rules t es es' t') :
    Substitutable r kind base (Expr.usesAll es) (Expr.boundAll es) (Expr.tagsAll es) →
      t.Substitutes r kind base → t'.Substitutes r kind base ∧
      StandsFor Expr.erasedAll (Transformer.allSame Expr.sameAs) es (Expr.substAll r es) es' := by
  match hbecomes with
  | .nil =>
    intro _ ht
    exact ⟨ht, rfl, fun _ => rfl⟩
  | .cons he hs =>
    intro h ht
    obtain ⟨h1, hx⟩ := he.substitutes h.append.1 ht
    obtain ⟨h2, hxs⟩ := hs.substitutes h.append.2 h1
    refine ⟨h2, ?_, ?_⟩
    · rw [Expr.substAll, Expr.erasedAll, Expr.erasedAll, hx.erased, hxs.erased]
    · intro hsame
      rw [Transformer.allSame, Bool.and_eq_true] at hsame
      rw [hx.same hsame.1, hxs.same hsame.2]

theorem Binding.Becomes.substitutes {block : BlockKind} {t t' : Trail} {b : Binding}
    {out : List Binding} (h : Binding.Becomes .normalize rules block t b out t') :
    Substitutable r kind base b.uses b.bound b.tags → t.Substitutes r kind base →
      t'.Substitutes r kind base ∧ ∃ b', out = [b'] ∧
      StandsFor Binding.erased Binding.sameAs b (b.subst r) b' := by
  match b, out, h with
  | .bind mark v value, _, .kept _ hy hd hs _ =>
    intro hb ht
    obtain ⟨-, -, hval⟩ := hb.binding
    rw [Trail.define_eq Pass.normalize_ne] at hd
    obtain ⟨rfl, rfl⟩ := Prod.mk.inj hd
    obtain ⟨h1, hx⟩ := hy.substitutes hval ht
    refine ⟨h1.of_remap (Trail.record_remap _ _) (Trail.record_next _ _).ge, _, rfl, ?_, fun _ =>
      rfl⟩
    rw [Binding.subst, Binding.erased, Binding.erased, ← hx.erased,
      hx.same (Bool.and_eq_true_iff.mp hs).2]
  | .bind mark v value, _, .changed _ hy hd _ hr _ =>
    intro hb ht
    obtain ⟨hk, hv, hval⟩ := hb.binding
    rw [Trail.define_eq Pass.normalize_ne] at hd
    obtain ⟨rfl, rfl⟩ := Prod.mk.inj hd
    obtain ⟨h1, hx⟩ := hy.substitutes hval ht
    have h2 := h1.retype hk hv hr
    have hne := h2.next_ne hb.below.cons.1
    rw [Trail.replaceIfChanged_next] at hne
    refine ⟨h2.of_remap (Trail.record_remap _ _) ?_, _, rfl, ?_,
      fun hs => absurd (beq_iff_eq.mp hs) hne⟩
    · rw [Trail.record_next]
      exact Nat.le_succ _
    · rw [Binding.subst, Binding.erased, Binding.erased, hx.erased, Trail.retype_erased hr]
      rfl
  | .bind _ _ _, _, .lowered hl _ _ _ _ _ _ _ _ =>
    intro _ _
    cases hl
  | .cast mark v value sinfo, _, .keptCast hy hd hs _ =>
    intro hb ht
    obtain ⟨-, -, hval⟩ := hb.binding
    rw [Trail.define_eq Pass.normalize_ne] at hd
    obtain ⟨rfl, rfl⟩ := Prod.mk.inj hd
    obtain ⟨h1, hx⟩ := hy.substitutes hval ht
    refine ⟨h1, _, rfl, ?_, fun _ => rfl⟩
    rw [Binding.subst, Binding.erased, Binding.erased, ← hx.erased,
      hx.same (Bool.and_eq_true_iff.mp hs).2]
  | .cast mark v value sinfo, _, .changedCast hy hd _ hr _ =>
    intro hb ht
    obtain ⟨hk, hv, hval⟩ := hb.binding
    rw [Trail.define_eq Pass.normalize_ne] at hd
    obtain ⟨rfl, rfl⟩ := Prod.mk.inj hd
    obtain ⟨h1, hx⟩ := hy.substitutes hval ht
    have h2 := h1.retype hk hv hr
    have hne := h2.next_ne hb.below.cons.1
    rw [Trail.replaceIfChanged_next] at hne
    refine ⟨h2.of_remap rfl (Nat.le_succ _), _, rfl, ?_,
      fun hs => absurd (beq_iff_eq.mp hs) hne⟩
    rw [Binding.subst, Binding.erased, Binding.erased, hx.erased, Trail.retype_erased hr]
    rfl

theorem Binding.BecomeAll.substitutes {block : BlockKind} {t t' : Trail} {bs outs : List Binding}
    (hbecomes : Binding.BecomeAll .normalize rules block t bs outs t') :
    Substitutable r kind base (Binding.usesAll bs) (Binding.boundAll bs) (Binding.tagsAll bs) →
      t.Substitutes r kind base → t'.Substitutes r kind base ∧
      StandsFor Binding.erasedAll (Transformer.allSame Binding.sameAs) bs (Binding.substAll r bs)
      outs := by
  match hbecomes with
  | .nil =>
    intro _ ht
    exact ⟨ht, rfl, fun _ => rfl⟩
  | .cons hb hs =>
    intro h ht
    obtain ⟨h1, b', rfl, hx⟩ := hb.substitutes h.append.1 ht
    obtain ⟨h2, hxs⟩ := hs.substitutes h.append.2 h1
    refine ⟨h2, ?_, ?_⟩
    · rw [List.singleton_append, Binding.substAll, Binding.erasedAll, Binding.erasedAll, hx.erased,
        hxs.erased]
    · intro hsame
      rw [List.singleton_append, Transformer.allSame, Bool.and_eq_true] at hsame
      rw [List.singleton_append, hx.same hsame.1, hxs.same hsame.2]

theorem Block.Becomes.substitutes {t t' : Trail} {b b' : Block}
    (hbecomes : Block.Becomes .normalize rules t b b' t') :
    Substitutable r kind base b.uses b.bound b.tags → t.Substitutes r kind base →
      t'.Substitutes r kind base ∧ StandsFor Block.erased Block.sameAs b (b.subst r) b' := by
  match b, b', hbecomes with
  | .mk mark kind bindings, _, .kept hb hs =>
    intro h ht
    obtain ⟨h1, hx⟩ := hb.substitutes h.parts ht
    refine ⟨h1.of_remap rfl (Nat.le_succ _), ?_, fun _ => rfl⟩
    have hout := hx.same (Bool.and_eq_true_iff.mp hs).2
    have herased : Binding.erasedAll bindings = Binding.erasedAll (Binding.substAll r bindings) :=
      (congrArg Binding.erasedAll hout).symm.trans hx.erased
    rw [Block.subst, Block.erased, Block.erased, herased]
  | .mk mark kind bindings, _, .changed hb _ =>
    intro h ht
    obtain ⟨h1, hx⟩ := hb.substitutes h.parts ht
    refine ⟨h1.of_remap rfl (Nat.le_succ _), ?_,
      fun hs => absurd (beq_iff_eq.mp hs) (h1.next_ne h.below.cons.1)⟩
    rw [Block.subst, Block.erased, Block.erased, hx.erased]
    rfl

theorem Block.BecomeAll.substitutes {t t' : Trail} {bs bs' : List Block}
    (hbecomes : Block.BecomeAll .normalize rules t bs bs' t') :
    Substitutable r kind base (Block.usesAll bs) (Block.boundAll bs) (Block.tagsAll bs) →
      t.Substitutes r kind base → t'.Substitutes r kind base ∧
      StandsFor Block.erasedAll (Transformer.allSame Block.sameAs) bs (Block.substAll r bs) bs'
      := by
  match hbecomes with
  | .nil =>
    intro _ ht
    exact ⟨ht, rfl, fun _ => rfl⟩
  | .cons hb hs =>
    intro h ht
    obtain ⟨h1, hx⟩ := hb.substitutes h.append.1 ht
    obtain ⟨h2, hxs⟩ := hs.substitutes h.append.2 h1
    refine ⟨h2, ?_, ?_⟩
    · rw [Block.substAll, Block.erasedAll, Block.erasedAll, Block.isEmpty_of_erased hx.erased,
        hx.erased, hxs.erased]
    · intro hsame
      rw [Transformer.allSame, Bool.and_eq_true] at hsame
      rw [hx.same hsame.1, hxs.same hsame.2]

end

end Replacing

/-- Variables of which no two with one identity are of different kinds have a kind for each
identity. -/
theorem exists_kind {vs : List Var}
    (h : ∀ v ∈ vs, ∀ w ∈ vs, v.id = w.id → v.dataflow = w.dataflow) :
    ∃ kind : Id → Bool, ∀ v ∈ vs, v.dataflow = kind v.id := by
  refine ⟨fun id => decide (∃ w ∈ vs, w.id = id ∧ w.dataflow), fun v hv => ?_⟩
  cases hk : v.dataflow with
  | true => exact (decide_eq_true ⟨v, hv, rfl, hk⟩).symm
  | false =>
    refine (decide_eq_false ?_).symm
    rintro ⟨w, hw, hid, hdataflow⟩
    rw [h w hw v hv hid, hk] at hdataflow
    cases hdataflow

variable {σ : Type}

/-- Tags tell the nodes of the expression apart: those made later have other tags, and a variable is
replaced by one with its own tag only where that is the variable itself. -/
structure Session.Distinguishes (s : Session σ) (e : Expr) : Prop where
  used : Below s.world.next e.tags
  replaced : ∀ v ∈ e.uses, ∀ w, s.remap.get? v.id = some w → w.sameAs v → w = v

/-- The default traversal is substitution by the replacements that it starts with, applied once,
whatever the rules of inference and the state of the builder. -/
theorem walk_substitutes (fuel : Fuel) {e e' : Expr} {s s' : Session σ}
    (hbound : ∀ v ∈ e.bound, s.remap.get? v.id = none)
    (hkind : ∀ v ∈ e.bound ++ e.uses, ∀ w ∈ e.bound ++ e.uses, v.id = w.id →
      v.dataflow = w.dataflow)
    (htags : s.Distinguishes e)
    (h : ((Transformer.walk : Transformer σ).run fuel (.expr e)).exec s = (.ok e', s')) :
    e'.erased = (e.subst s.remap.get?).erased := by
  obtain ⟨-, hbecomes⟩ := (Transformer.faithful_walk s.builder.rules fuel).expr rfl h
  obtain ⟨kind, hfit⟩ := exists_kind hkind
  have he : Substitutable s.remap.get? kind s.world.next e.uses e.bound e.tags :=
    ⟨fun v hv => hfit v (List.mem_append_right _ hv), htags.replaced,
      fun v hv => ⟨hfit v (List.mem_append_left _ hv), hbound v hv⟩, htags.used⟩
  -- At first only what is given is replaced.
  have ht : s.trail.Substitutes s.remap.get? kind s.world.next := by
    refine ⟨le_refl _, fun hv => hv, fun hnone hsome => ?_⟩
    cases hnone.symm.trans hsome
  exact (hbecomes.substitutes he ht).2.erased

namespace Replaced

def var (index : Nat) (hint : String) (sinfo : Option StructInfo) : Var :=
  ⟨⟨⟨index, none⟩, sinfo⟩, ⟨index, hint⟩, false⟩

def tensor : StructInfo :=
  .tensorOfShape [.int 4] (.float 32)

def y : Var := var 0 "y" (some tensor)

def z : Var := var 1 "z" (some tensor)

def w : Var := var 2 "w" (some tensor)

/-- A variable without struct info, replaced once that of its value is known. -/
def total : Var := var 3 "total" none

/-- A sum of `y` and `z`, and after it a block without bindings. -/
def source : Expr :=
  .mkSeq ⟨10, none⟩ [
    .mk ⟨7, none⟩ .plain [
      .bind ⟨6, none⟩ total (.mkCall ⟨5, none⟩ (.mkOp 4 "relax.add") [.var y, .var z] none [])],
    .mk ⟨8, none⟩ .plain []] (.mkTuple ⟨9, none⟩ [.var total, .var y])

/-- `y` is replaced by `z`, and `z` by `w`. -/
def start : Session Unit :=
  { Session.new () .standard ⟨11, []⟩ with
    remap := (Remap.empty.insert y.id z).insert z.id w }

example : (source.subst start.remap.get?).uses = [z, w, total, z] := by decide +kernel

def run : Except Fault Expr × Session Unit :=
  (Transformer.walk.run source.fuel (.expr source)).exec start

end Replaced

open Replaced in
theorem walk_substitutes_once :
    ∃ e', run = (.ok e', run.2) ∧ e'.erased = (source.subst start.remap.get?).erased := by
  have hok : run.1.isOk := by decide +kernel
  obtain ⟨e', hrun⟩ := Act.eq_ok_of_isOk hok
  have hbound : ∀ v ∈ source.bound, start.remap.get? v.id = none := by decide +kernel
  have hkind : ∀ v ∈ source.bound ++ source.uses, ∀ w ∈ source.bound ++ source.uses,
      v.id = w.id → v.dataflow = w.dataflow := by decide +kernel
  have hused : Below start.world.next source.tags := by decide +kernel
  have hreplaced : ∀ v ∈ source.uses, ∀ w ∈ start.remap.get? v.id, w.sameAs v → w = v := by
    decide +kernel
  exact ⟨e', hrun, walk_substitutes (s := start) source.fuel hbound hkind ⟨hused, hreplaced⟩ hrun⟩

end DataflowIR
