import DataflowIR.Proofs.Fusion.Scoping
import DataflowIR.Proofs.Normalize.References
import DataflowIR.Proofs.Normalize.Substitution

namespace DataflowIR

open Scope (Op)

/-- Of a part: the variables used and bound in it are of the kind given for their identity, and none
of its blocks is without bindings. -/
structure Orderly (kind : Id → Bool) (used bound : List Var) (blocks : List Block) : Prop where
  used : ∀ v ∈ used, v.dataflow = kind v.id
  bound : ∀ v ∈ bound, v.dataflow = kind v.id
  blocks : ∀ b ∈ blocks, b.bindings ≠ []

namespace Orderly

variable {kind : Id → Bool} {used used' bound bound' : List Var} {blocks blocks' : List Block}

theorem append (h : Orderly kind (used ++ used') (bound ++ bound') (blocks ++ blocks')) :
    Orderly kind used bound blocks ∧ Orderly kind used' bound' blocks' := by
  have hu := List.forall_mem_append.mp h.used
  have hb := List.forall_mem_append.mp h.bound
  have hbl := List.forall_mem_append.mp h.blocks
  exact ⟨⟨hu.1, hb.1, hbl.1⟩, ⟨hu.2, hb.2, hbl.2⟩⟩

theorem binding {v : Var} (h : Orderly kind used (v :: bound) blocks) :
    v.dataflow = kind v.id ∧ Orderly kind used bound blocks := by
  have hb := List.forall_mem_cons.mp h.bound
  exact ⟨hb.1, ⟨h.used, hb.2, h.blocks⟩⟩

theorem body {params : List Var} (h : Orderly kind used (params ++ bound) blocks) :
    Orderly kind used bound blocks := by
  exact ⟨h.used, (List.forall_mem_append.mp h.bound).2, h.blocks⟩

theorem block {b : Block} (h : Orderly kind used bound (b :: blocks)) :
    b.bindings ≠ [] ∧ Orderly kind used bound blocks := by
  have hbl := List.forall_mem_cons.mp h.blocks
  exact ⟨hbl.1, ⟨h.used, h.bound, hbl.2⟩⟩

end Orderly

/-- What replaces a variable is of its identity and of the kind given for that. -/
def Trail.OfKind (kind : Id → Bool) (t : Trail) : Prop :=
  ∀ id v, t.remap id = some v → v.id = id ∧ v.dataflow = kind id

namespace Trail.OfKind

variable {kind : Id → Bool} {t t' : Trail}

theorem empty (kind : Id → Bool) (next : Nat) : (Trail.empty next).OfKind kind :=
  nofun

theorem of_remap (h : t.OfKind kind) (hr : t'.remap = t.remap) : t'.OfKind kind := by
  intro id v hv
  exact h id v (hr ▸ hv)

theorem defineAll (h : t.OfKind kind) {vs vs' : List Var}
    (hd : t.defineAll .normalize vs = (vs', t')) : t'.OfKind kind := by
  rw [Trail.defineAll_eq Pass.normalize_ne] at hd
  cases hd
  exact h

private theorem keepsIds (h : t.OfKind kind) : t.KeepsIds := by
  intro id v hv
  exact (h id v hv).1

/-- A variable that gets new struct info is replaced by the new one. -/
theorem retype (h : t.OfKind kind) {v v' : Var} {sinfo : Option StructInfo}
    (hv : v.dataflow = kind v.id) (hr : t.retype v sinfo = (v', t')) :
    (t'.replaceIfChanged v v').OfKind kind := by
  obtain ⟨hid, hk, -, hrm, -⟩ := Trail.retype_eq hr
  have ht : t'.OfKind kind := h.of_remap hrm
  unfold Trail.replaceIfChanged
  split
  · exact ht
  · intro id w hw
    simp only [Trail.replace, Function.update_apply] at hw
    split at hw
    · next hj =>
      cases hw
      exact ⟨hid.trans hj.symm, by rw [hk, hv, hj]⟩
    · exact ht id w hw

end Trail.OfKind

/-- The two have the same operations, wherever they stand, and as arguments, fields and factors they
mention the same. -/
structure Expr.SameOps (e e' : Expr) : Prop where
  ops : ∀ asBody, e'.ops asBody = e.ops asBody
  mentions : e'.mentions = e.mentions
  factors : e'.factorMentions? = e.factorMentions?

namespace Expr.SameOps

theorem refl (e : Expr) : e.SameOps e := by
  exact ⟨fun _ => rfl, rfl, rfl⟩

theorem mentions_withNode (n : Node) (e : Expr) : (e.withNode n).mentions = e.mentions := by
  cases e <;> rfl

theorem fills {rules : Rules} {t t' : Trail} {e e1 e' : Expr} (h : e.SameOps e1)
    (hf : Fills rules t e1 e' t') : e.SameOps e' := by
  cases hf with
  | kept => exact h
  | filled i =>
    refine ⟨?_, ?_, ?_⟩
    · intro asBody
      rw [Expr.withSinfo, Expr.ops_withNode, h.ops]
    · rw [Expr.withSinfo, mentions_withNode, h.mentions]
    · rw [Expr.withSinfo, Expr.factorMentions?_withNode, h.factors]

/-- Where the node does not come back, it was made anew of parts that have the same operations. -/
theorem settles {t t' : Trail} {same : Bool} {old e' : Expr} {new : Mark → Expr}
    {span : Option Span} (hs : Settles t same old new span e' t')
    (h : ∀ mark, old.SameOps (new mark)) : old.SameOps e' := by
  cases hs with
  | same => exact .refl old
  | changed => exact h _

/-- A call of the same operator or of a function with the same operations. -/
theorem call {t t' : Trail} {rules : Rules} {node node' : Node} {callee callee' : Expr}
    {args args' : List Expr} {attrs : Option Attrs} {sinfoArgs : List StructInfo}
    (hc : callee.SameOps callee') (hop : callee'.asOp? = callee.asOp?)
    (ha : Expr.BecomeAll .normalize rules t args args' t') (hk : t.KeepsIds)
    (hm : Expr.mentionsAll args' = Expr.mentionsAll args) :
    Expr.SameOps (.call node callee args attrs sinfoArgs)
      (.call node' callee' args' attrs sinfoArgs) := by
  have hsum : (Call.mk node' callee' args' attrs sinfoArgs).sinfoOp =
      (Call.mk node callee args attrs sinfoArgs).sinfoOp :=
    Call.sinfoOp_congr (Call.summand?_becomes hop ha hk) rfl
  have hfac : (Call.mk node' callee' args' attrs sinfoArgs).toExpr.factorMentions? =
      (Call.mk node callee args attrs sinfoArgs).toExpr.factorMentions? := by
    rw [Call.factorMentions?_toExpr, Call.factorMentions?_toExpr, hm, ha.length_eq, Call.isOp,
      Call.isOp, hop]
  refine ⟨?_, rfl, hfac⟩
  intro asBody
  rw [Expr.ops, Expr.ops, hc.ops, hsum, hm]

end Expr.SameOps

private theorem Block.ops_congr {mark mark' : Mark} {kind : BlockKind} {bs out : List Binding}
    (hlen : out.length = bs.length) (h : Binding.opsAll out = Binding.opsAll bs) :
    (Block.mk mark' kind out).ops = (Block.mk mark kind bs).ops := by
  cases kind with
  | plain => exact h
  | dataflow =>
    cases bs with
    | nil =>
      obtain rfl := List.eq_nil_of_length_eq_zero hlen
      rfl
    | cons b bs =>
      cases out with
      | nil => cases hlen
      | cons b' out =>
        rw [Binding.opsAll, Binding.opsAll] at h
        rw [Block.ops, Block.ops, ← List.append_assoc, ← List.append_assoc, h]

section Rewrite

variable {rules : Rules} {kind : Id → Bool}

mutual

theorem Expr.Rebuilds.sameOps {t t' : Trail} {e e' : Expr}
    (hrebuilds : Expr.Rebuilds .normalize rules t e e' t') :
    Orderly kind e.uses e.bound e.nestedBlocks → t.OfKind kind → e.SameOps e' ∧ t'.OfKind kind := by
  match hrebuilds with
  | .leaf | .shape | .prim =>
    intro _ ht
    exact ⟨.refl _, ht⟩
  | @Expr.Rebuilds.var _ _ _ v =>
    intro he ht
    refine ⟨?_, ht⟩
    cases hv : t.remap v.id with
    | none => exact .refl _
    | some w =>
      obtain ⟨hid, hk⟩ := ht v.id w hv
      have hd : w.dataflow = v.dataflow := hk.trans (he.used v List.mem_cons_self).symm
      have hm : Expr.mentions (.var w) = Expr.mentions (.var v) := by
        rw [Expr.mentions, Expr.mentions, hid, hd]
      exact ⟨fun _ => congrArg (List.map Op.mention) hm, hm, rfl⟩
  | .tuple hf hs =>
    intro he ht
    obtain ⟨hm, ht1⟩ := hf.sameMentions he ht
    refine ⟨.settles hs ?_, ht1.of_remap hs.trail_eq.1⟩
    intro mark
    exact ⟨fun _ => congrArg (List.map Op.mention) hm, hm, rfl⟩
  | .item hw hs =>
    intro he ht
    obtain ⟨hwhole, ht1⟩ := hw.sameOps he ht
    refine ⟨.settles hs ?_, ht1.of_remap hs.trail_eq.1⟩
    intro mark
    exact ⟨fun _ => hwhole.ops false, rfl, rfl⟩
  | .call hc ha hs hf =>
    intro he ht
    obtain ⟨hcallee, ht1⟩ := hc.sameOps he.append.1 ht
    obtain ⟨hm, ht2⟩ := ha.sameMentions he.append.2 ht1
    have h3 := ht2.of_remap hs.trail_eq.1
    cases hf with
    | fused _ _ _ hp => cases hp
    | kept =>
      refine ⟨.settles hs ?_, h3⟩
      intro mark
      exact .call hcallee hc.asOp? ha ht1.keepsIds hm
  | .ite hc ht hf hs =>
    intro he h
    obtain ⟨hcond, h1⟩ := hc.sameOps he.append.1 h
    obtain ⟨htrue, -⟩ := ht.sameOps he.append.2.append.1 h1
    obtain ⟨hfalse, -⟩ := hf.sameOps he.append.2.append.2 (h1.of_remap rfl)
    refine ⟨.settles hs ?_, h1.of_remap hs.trail_eq.1⟩
    intro mark
    refine ⟨?_, rfl, rfl⟩
    intro asBody
    rw [Expr.mkIte, Expr.ops, Expr.ops, hcond.ops, htrue.ops, hfalse.ops]
  | @Expr.Rebuilds.seq _ _ _ _ _ _ _ _ blocks' _ _ _ hb hy hs =>
    intro he ht
    obtain ⟨hblocks, hne, ht1⟩ := hb.sameOps he.append.1 ht
    obtain ⟨hbody, ht2⟩ := hy.sameOps he.append.2 ht1
    refine ⟨.settles hs ?_, ht2.of_remap hs.trail_eq.1⟩
    intro mark
    refine ⟨?_, rfl, rfl⟩
    intro asBody
    -- No block became empty, so none is dropped.
    have hall : ∀ b : Block, b ∈ blocks' → (!b.bindings.isEmpty) = true := by
      intro b hmem
      simpa using hne b hmem
    rw [Expr.mkSeq, List.filter_eq_self.mpr hall, Expr.ops, Expr.ops, hblocks, hbody.ops]
  | .function hp hb hs =>
    intro he ht
    obtain ⟨hbody, -⟩ := hb.sameOps he.body (ht.defineAll hp)
    rw [Trail.defineAll_eq Pass.normalize_ne] at hp
    cases hp
    refine ⟨.settles hs ?_, ht.of_remap rfl⟩
    intro mark
    refine ⟨?_, rfl, rfl⟩
    intro asBody
    rw [Expr.mkFunction, Expr.ops, Expr.ops, hbody.ops]
    rfl

theorem Expr.Becomes.sameOps {t t' : Trail} {e e' : Expr}
    (hbecomes : Expr.Becomes .normalize rules t e e' t') :
    Orderly kind e.uses e.bound e.nestedBlocks → t.OfKind kind → e.SameOps e' ∧ t'.OfKind kind := by
  match hbecomes with
  | .mk hr hf =>
    intro he ht
    obtain ⟨h, ht1⟩ := hr.sameOps he ht
    exact ⟨h.fills hf, ht1.of_remap hf.trail_eq.1⟩

theorem Expr.BecomeAll.sameMentions {t t' : Trail} {es es' : List Expr}
    (hbecomes : Expr.BecomeAll .normalize rules t es es' t') :
    Orderly kind (Expr.usesAll es) (Expr.boundAll es) (Expr.nestedBlocksAll es) → t.OfKind kind →
      Expr.mentionsAll es' = Expr.mentionsAll es ∧ t'.OfKind kind := by
  match hbecomes with
  | .nil =>
    intro _ ht
    exact ⟨rfl, ht⟩
  | .cons he hs =>
    intro h ht
    obtain ⟨hhead, ht1⟩ := he.sameOps h.append.1 ht
    obtain ⟨htail, ht2⟩ := hs.sameMentions h.append.2 ht1
    exact ⟨by rw [Expr.mentionsAll, Expr.mentionsAll, hhead.mentions, htail], ht2⟩

theorem Binding.Becomes.sameOps {bk : BlockKind} {t t' : Trail} {b : Binding} {out : List Binding}
    (h : Binding.Becomes .normalize rules bk t b out t') :
    Orderly kind b.uses b.bound b.nestedBlocks → t.OfKind kind →
      (∃ b', out = [b'] ∧ b'.ops = b.ops) ∧ t'.OfKind kind := by
  match h with
  | .kept _ hy hd _ _ =>
    intro he ht
    obtain ⟨-, ht1⟩ := hy.sameOps he.binding.2 ht
    rw [Trail.define_eq Pass.normalize_ne] at hd
    cases hd
    exact ⟨⟨_, rfl, rfl⟩, ht1.of_remap (Trail.record_remap _ _)⟩
  | .changed _ hy hd _ hr _ =>
    intro he ht
    obtain ⟨hvalue, ht1⟩ := hy.sameOps he.binding.2 ht
    rw [Trail.define_eq Pass.normalize_ne] at hd
    cases hd
    obtain ⟨hid, hk, -, -, -⟩ := Trail.retype_eq hr
    refine ⟨⟨_, rfl, ?_⟩, (ht1.retype he.binding.1 hr).of_remap (by simp)⟩
    rw [Binding.ops, Binding.ops, hvalue.ops, hvalue.factors, hid, hk]
  | .lowered hl .. =>
    intro _ _
    simp [Pass.lowered?] at hl
  | .keptCast hy hd _ _ =>
    intro he ht
    obtain ⟨-, ht1⟩ := hy.sameOps he.binding.2 ht
    rw [Trail.define_eq Pass.normalize_ne] at hd
    cases hd
    exact ⟨⟨_, rfl, rfl⟩, ht1⟩
  | .changedCast hy hd _ hr _ =>
    intro he ht
    obtain ⟨hvalue, ht1⟩ := hy.sameOps he.binding.2 ht
    rw [Trail.define_eq Pass.normalize_ne] at hd
    cases hd
    obtain ⟨hid, hk, -, -, -⟩ := Trail.retype_eq hr
    refine ⟨⟨_, rfl, ?_⟩, (ht1.retype he.binding.1 hr).of_remap (Trail.tick_remap _)⟩
    rw [Binding.ops, Binding.ops, hvalue.ops, hid, hk]

theorem Binding.BecomeAll.sameOps {bk : BlockKind} {t t' : Trail} {bs out : List Binding}
    (hbecomes : Binding.BecomeAll .normalize rules bk t bs out t') :
    Orderly kind (Binding.usesAll bs) (Binding.boundAll bs) (Binding.nestedBlocksAll bs) →
      t.OfKind kind → (out.length = bs.length ∧ Binding.opsAll out = Binding.opsAll bs) ∧
      t'.OfKind kind := by
  match hbecomes with
  | .nil =>
    intro _ ht
    exact ⟨⟨rfl, rfl⟩, ht⟩
  | .cons hb hs =>
    intro h ht
    obtain ⟨⟨b', rfl, hops⟩, ht1⟩ := hb.sameOps h.append.1 ht
    obtain ⟨⟨hlen, htail⟩, ht2⟩ := hs.sameOps h.append.2 ht1
    refine ⟨⟨by simp [hlen], ?_⟩, ht2⟩
    rw [List.singleton_append, Binding.opsAll, Binding.opsAll, hops, htail]

theorem Block.Becomes.sameOps {t t' : Trail} {b b' : Block}
    (h : Block.Becomes .normalize rules t b b' t') :
    Orderly kind b.uses b.bound b.nestedBlocks → t.OfKind kind → b'.ops = b.ops ∧
      b'.bindings ≠ [] ∧ t'.OfKind kind := by
  match h with
  | @Block.Becomes.kept _ _ _ _ (.mk ..) _ hb _ =>
    intro he ht
    obtain ⟨-, ht1⟩ := hb.sameOps he.block.2 ht
    exact ⟨rfl, he.block.1, ht1.of_remap rfl⟩
  | @Block.Becomes.changed _ _ _ _ (.mk mark bk bs) out hb _ =>
    intro he ht
    obtain ⟨⟨hlen, hops⟩, ht1⟩ := hb.sameOps he.block.2 ht
    have hne : out ≠ [] := by
      rintro rfl
      exact he.block.1 (List.eq_nil_of_length_eq_zero hlen.symm)
    exact ⟨Block.ops_congr hlen hops, hne, ht1.of_remap rfl⟩

theorem Block.BecomeAll.sameOps {t t' : Trail} {bs bs' : List Block}
    (hbecomes : Block.BecomeAll .normalize rules t bs bs' t') :
    Orderly kind (Block.usesAll bs) (Block.boundAll bs) (Block.nestedBlocksAll bs) →
      t.OfKind kind → Block.opsAll bs' = Block.opsAll bs ∧ (∀ b ∈ bs', b.bindings ≠ []) ∧
      t'.OfKind kind := by
  match hbecomes with
  | .nil =>
    intro _ ht
    exact ⟨rfl, nofun, ht⟩
  | .cons hb hs =>
    intro h ht
    obtain ⟨hops, hne, ht1⟩ := hb.sameOps h.append.1 ht
    obtain ⟨htail, hrest, ht2⟩ := hs.sameOps h.append.2 ht1
    refine ⟨?_, List.forall_mem_cons.mpr ⟨hne, hrest⟩, ht2⟩
    rw [Block.opsAll, Block.opsAll, hops, htail]

end

end Rewrite

theorem Function.Becomes.ops_eq {next : Nat} {kind : Id → Bool} {f f' : Function}
    (h : Function.Becomes .normalize next f f')
    (hf : Orderly kind f.toExpr.uses f.toExpr.bound f.toExpr.nestedBlocks) : f'.ops = f.ops := by
  cases h with
  | same => rfl
  | changed _ hb _ => exact (hb.sameOps hf (.empty kind _)).1.ops false

/-- No identity is that of a dataflow variable and of a regular one, used or bound. -/
def Function.UnmixedKinds (f : Function) : Prop :=
  ∀ v ∈ f.toExpr.uses ++ f.toExpr.bound, ∀ w ∈ f.toExpr.uses ++ f.toExpr.bound,
    v.id = w.id → v.dataflow = w.dataflow

instance (f : Function) : Decidable f.UnmixedKinds :=
  inferInstanceAs (Decidable (∀ v ∈ f.toExpr.uses ++ f.toExpr.bound,
    ∀ w ∈ f.toExpr.uses ++ f.toExpr.bound, v.id = w.id → v.dataflow = w.dataflow))

def Module.nestedBlocks (m : Module) : List Block :=
  m.toList.flatMap fun e => e.2.toExpr.nestedBlocks

/-- Where no block is without bindings and each identity is of one kind, normalization does not
change whether a module is well formed. -/
theorem normalize_wellFormed_iff {m m' : Module} {w w' : World}
    (hblocks : ∀ b ∈ m.nestedBlocks, b.bindings ≠ []) (hkinds : ∀ e ∈ m.toList, e.2.UnmixedKinds)
    (h : (Pass.normalize.apply m).exec w = (.ok (some m'), w')) :
    m'.wellFormed = .ok () ↔ m.wellFormed = .ok () := by
  have hbec := Pass.apply_becomes h
  rw [Module.wellFormed_iff_run, Module.wellFormed_iff_run, hbec.contains]
  apply hbec.forall_iff (P := fun f => ∃ w, Scope.run m.contains f.ops .start = some w)
    (Q := fun f => ∃ w, Scope.run m.contains f.ops .start = some w)
  intro g f f' hm hf
  obtain ⟨kind, hk⟩ := exists_kind (hkinds (g, f) hm)
  obtain ⟨hused, hbound⟩ := List.forall_mem_append.mp hk
  have hbl : ∀ b ∈ f.toExpr.nestedBlocks, b.bindings ≠ [] := by
    intro b hb
    exact hblocks b (List.mem_flatMap.mpr ⟨(g, f), hm, hb⟩)
  rw [hf.ops_eq ⟨hused, hbound, hbl⟩]

namespace Renewed

/-- `l` is used after its block. -/
def late : Module :=
  module [.mk ⟨11, none⟩ .dataflow [.bind ⟨12, none⟩ l pair, .bind ⟨13, none⟩ g (.var x)],
    .mk ⟨14, none⟩ .plain [.bind ⟨15, none⟩ h (.var l)]] h

end Renewed

open Renewed in
/-- Of two modules in which `l` gets new struct info, one stays well formed and the other does not
become so. -/
theorem normalize_wellFormed_iff_renewed :
    (∃ m' w', (Pass.normalize.apply stale).exec world = (.ok (some m'), w') ∧
      m'.wellFormed = .ok ()) ∧
    ∃ m' w', (Pass.normalize.apply late).exec world = (.ok (some m'), w') ∧
      m'.wellFormed ≠ .ok () := by
  have hs : (Pass.normalize.changedModule? stale world).isSome := by decide +kernel
  have hl : (Pass.normalize.changedModule? late world).isSome := by decide +kernel
  obtain ⟨m', hm⟩ := Option.isSome_iff_exists.mp hs
  obtain ⟨n', hn⟩ := Option.isSome_iff_exists.mp hl
  have hm := Pass.apply_of_changedModule? hm
  have hn := Pass.apply_of_changedModule? hn
  have hill : late.wellFormed.isOk = false := by decide +kernel
  have hstale : ∀ b ∈ stale.nestedBlocks, b.bindings.isEmpty = false := by decide +kernel
  have hlate : ∀ b ∈ late.nestedBlocks, b.bindings.isEmpty = false := by decide +kernel
  refine ⟨⟨m', _, hm, ?_⟩, ⟨n', _, hn, ?_⟩⟩
  · exact (normalize_wellFormed_iff (fun b hb => by simpa using hstale b hb)
      (by decide +kernel) hm).mpr rfl
  · intro hwf
    rw [(normalize_wellFormed_iff (fun b hb => by simpa using hlate b hb)
      (by decide +kernel) hn).mp hwf] at hill
    cases hill

end DataflowIR
