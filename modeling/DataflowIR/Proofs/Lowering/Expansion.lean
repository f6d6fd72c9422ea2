import DataflowIR.Proofs.Lowering.Scoping

namespace DataflowIR

open Transformer Session

/-- Some traversal that makes memory explicit comes from `s` to `s'`, with `r` for the place. -/
def Site.Lowers (place : Site) (s : Session Unit) (r : place.Result) (s' : Session Unit) : Prop :=
  ∃ fuel, (makeMemoryExplicit.run fuel place).exec s = (.ok r, s')

namespace Binding

/-- A variable is bound to a call of the operator on three arguments. -/
def PassesDestination (b : Binding) : Prop :=
  ∃ mark v node opNode shape f packed attrs sinfoArgs, b = .bind mark v
    (.call node (.leaf opNode (.op "relax.call_dps")) [shape, f, packed] attrs sinfoArgs)

/-- The bindings that take the place of a binding visited in the session `s`. -/
inductive Expands (s : Session Unit) : Binding → List Binding → Prop
  | lowered {mark v node opNode shape f packed attrs sinfoArgs out shape' f' packed' s1 s2 s3
        allocMark alloc allocNode allocOp callMark called callNode tag v'}
      (hout : out = (sinfoArgs.head?.or v.sinfo).getD .object)
      (hsh : (Site.expr shape).Lowers s shape' s1) (hf : (Site.expr f).Lowers s1 f' s2)
      (hpa : (Site.expr packed).Lowers s2 packed' s3)
      (hid : v'.id = v.id) (hreg : v'.dataflow = false) :
      Expands s
        (.bind mark v (.call node (.leaf opNode (.op "relax.call_dps")) [shape, f, packed] attrs
          sinfoArgs))
        [.bind allocMark alloc
            (.call allocNode (.leaf allocOp (.op "relax.builtin.alloc_tensor")) [shape'] none [out]),
          .bind callMark called
            (.call callNode f' (packed'.asTuple?.getD [packed'] ++ [.var alloc]) none []),
          .bind ⟨tag, mark.span⟩ v' (.var alloc)]
  | single {b b'} (hb : ¬ b.PassesDestination) (hkind : b'.kind = b.kind)
      (hid : b'.var.id = b.var.id) (hspan : b'.span = b.span) :
      Expands s b [b']

/-- The bindings are visited in order, and what each is expanded into comes after what those
before it are expanded into. -/
inductive ExpandAll : Session Unit → List Binding → List Binding → Session Unit → Prop
  | nil {s} : ExpandAll s [] [] s
  | cons {s s1 s' b out bs outs} (hv : (Site.binding b).Lowers s () s1) (hb : b.Expands s out)
      (hs : ExpandAll s1 bs outs s') : ExpandAll s (b :: bs) (out ++ outs) s'

private theorem Expands.length_pos {s : Session Unit} {b : Binding} {out : List Binding}
    (h : b.Expands s out) : 0 < out.length := by
  cases h <;> exact Nat.succ_pos _

/-- A binding that takes one place is not lowered, and may stand for itself. -/
theorem Expands.self_of_length {s : Session Unit} {b : Binding} {out : List Binding}
    (h : b.Expands s out) (hlen : out.length ≤ 1) : b.Expands s [b] := by
  cases h with
  | lowered => exact absurd hlen (by simp)
  | single hb => exact .single hb rfl rfl rfl

theorem ExpandAll.length_le {s s' : Session Unit} {bs outs : List Binding}
    (h : ExpandAll s bs outs s') : bs.length ≤ outs.length := by
  induction h with
  | nil => exact le_rfl
  | cons _ hb _ ih =>
    have := hb.length_pos
    rw [List.length_cons, List.length_append]
    omega

/-- Where there are no more bindings than before, each takes one place. -/
theorem ExpandAll.self_of_length {s s' : Session Unit} {bs outs : List Binding}
    (h : ExpandAll s bs outs s') (hlen : outs.length ≤ bs.length) : ExpandAll s bs bs s' := by
  induction h with
  | nil => exact .nil
  | cons hv hb hs ih =>
    have hpos := hb.length_pos
    have hle := hs.length_le
    rw [List.length_cons, List.length_append] at hlen
    exact .cons hv (hb.self_of_length (by omega)) (ih (by omega))

private theorem passesDestination_iff {mark : Mark} {v : Var} {value : Expr} :
    (Binding.bind mark v value).PassesDestination ↔
      (Pass.explicitMemory.lowered? v value).isSome := by
  constructor
  · rintro ⟨_, _, _, _, _, _, _, _, _, h⟩
    cases h
    rfl
  · intro h
    obtain ⟨⟨out, shape, f, packed⟩, hl⟩ := Option.isSome_iff_exists.mp h
    obtain ⟨node, opNode, attrs, sinfoArgs, rfl⟩ := Pass.lowered?_eq_call hl
    exact ⟨mark, v, node, opNode, shape, f, packed, attrs, sinfoArgs, rfl⟩

end Binding

/-- The value comes as it is, but for its struct info. -/
private theorem Emits.eq_bind {rules : Rules} {t t' : Trail} {node : Node} {callee : Expr}
    {args : List Expr} {attrs : Option Attrs} {sinfoArgs : List StructInfo} {v : Var} {b : Binding}
    (h : Emits rules t (.call node callee args attrs sinfoArgs) v b t') :
    ∃ mark node', b = .bind mark v (.call node' callee args attrs sinfoArgs) := by
  cases h with
  | mk name hf hv =>
    cases hf with
    | kept => exact ⟨_, _, rfl⟩
    | filled => exact ⟨_, _, rfl⟩

/-- The variable is regular when it is defined, and stays so when it gets its struct info. -/
private theorem Trail.define_explicitMemory {t t' : Trail} {v v' : Var}
    (h : t.define .explicitMemory v = (v', t')) : v'.id = v.id ∧ v'.dataflow = false := by
  unfold define at h
  split at h
  · cases h
    exact ⟨rfl, rfl⟩
  · next hv =>
    cases h
    exact ⟨rfl, by simpa using hv⟩

/-- Where it is not lowered, a binding becomes one binding of its kind. -/
theorem Binding.Becomes.single {p : Pass} {rules : Rules} {kind : BlockKind} {t t' : Trail}
    {b : Binding} {out : List Binding} (h : Binding.Becomes p rules kind t b out t')
    (hl : ∀ mark v value, b = .bind mark v value → p.lowered? v value = none) :
    ∃ b', out = [b'] ∧ b'.kind = b.kind ∧ b'.var.id = b.var.id ∧ b'.span = b.span := by
  have hvar : ∀ {t1 t2 t3 : Trail} {v v1 v' : Var} {sinfo : Option StructInfo},
      t1.define p v = (v1, t2) → t2.retype v1 sinfo = (v', t3) → v'.id = v.id := by
    intro t1 t2 t3 v v1 v' sinfo hd hr
    rw [(Trail.retype_eq hr).1]
    unfold Trail.define at hd
    split at hd <;> cases hd <;> rfl
  cases h with
  | kept | keptCast => exact ⟨_, rfl, rfl, rfl, rfl⟩
  | changed _ _ hd _ hr | changedCast _ hd _ hr => exact ⟨_, rfl, rfl, hvar hd hr, rfl⟩
  | lowered hl' =>
    rw [hl _ _ _ rfl] at hl'
    cases hl'

namespace Transformer

variable {rules : Rules} {s s' : Session Unit} {frame : Frame} {rest : List Frame}

/-- By cases on the binding: a lowered one is visited operand by operand, and any other becomes one
binding. -/
private theorem lowerBinding_expands (fuel : Fuel) (hf : s.builder.frames = frame :: rest)
    (hp : frame.kind = .plain) {b : Binding}
    (h : (lowerBinding (makeMemoryExplicit.run fuel) b).exec s = (.ok (), s')) : ∃ out,
      s.Keeps (⟨frame.kind, frame.bindings ++ out⟩ :: rest) s' ∧ b.Expands s out := by
  have hgo := faithful_run .explicitMemory s.builder.rules fuel
  by_cases hl : b.PassesDestination
  · obtain ⟨mark, v, node, opNode, shape, f, packed, attrs, sinfoArgs, rfl⟩ := hl
    obtain ⟨shape', s1, f', s2, packed', s3, alloc, b4, t4, called, b5, t5, v1, t6, v', t7, h1, h2,
      h3, e4, e5, hd, ht, -, ke⟩ := lowerCall_emits hgo rfl hf hp h
    obtain ⟨allocMark, allocNode, rfl⟩ := e4.eq_bind
    obtain ⟨callMark, callNode, rfl⟩ := e5.eq_bind
    obtain ⟨hid, hreg⟩ := Trail.define_explicitMemory hd
    obtain ⟨hid', hreg', -⟩ := Trail.retype_eq ht
    exact ⟨_, ke, .lowered rfl ⟨fuel, h1⟩ ⟨fuel, h2⟩ ⟨fuel, h3⟩ (hid'.trans hid)
      (hreg'.trans hreg)⟩
  · obtain ⟨out, hk, hb⟩ := lowerBinding_ok hgo rfl hf hp h
    obtain ⟨b', rfl, hkind, hid, hspan⟩ := hb.single fun mark v value hv => by
      subst hv
      rwa [Binding.passesDestination_iff, Option.not_isSome_iff_eq_none] at hl
    exact ⟨_, hk, .single hl hkind hid hspan⟩

/-- By induction on the bindings, of which each only appends to the block that is open. -/
private theorem visitBindings_expand (fuel : Fuel) (hf : s.builder.frames = frame :: rest)
    (hp : frame.kind = .plain) {bs : List Binding}
    (h : (visitBindings (makeMemoryExplicit.run fuel) bs).exec s = (.ok (), s')) : ∃ out,
      s'.builder.frames = ⟨frame.kind, frame.bindings ++ out⟩ :: rest ∧
      Binding.ExpandAll s bs out s' := by
  induction bs generalizing s frame with
  | nil =>
    obtain ⟨-, rfl⟩ := Act.exec_pure_ok.mp h
    exact ⟨[], by rw [List.append_nil]; exact hf, .nil⟩
  | cons b bs ih =>
    obtain ⟨_, s1, hb, hbs⟩ := Act.exec_bind_ok.mp h
    obtain ⟨out, hk, he⟩ : ∃ out, s.Keeps (⟨frame.kind, frame.bindings ++ out⟩ :: rest) s1 ∧
        b.Expands s out := by
      match fuel, hb with
      | .step rest', hb =>
        change ((makeMemoryExplicit.run (rest' ())) (.bindingKind b)).exec s = _ at hb
        match rest' (), hb with
        | .step rest'', hb => exact lowerBinding_expands (rest'' ()) hf hp hb
    obtain ⟨outs, hfs, hes⟩ := ih hk.frames hp hbs
    exact ⟨out ++ outs, by rw [hfs, List.append_assoc], .cons ⟨fuel, hb⟩ he hes⟩

/-- A block that was rewritten holds what its bindings are expanded into, in their order and nothing
else: three bindings for a destination-passing call bound to a variable, and one for every other
binding. The bindings are visited in a block of their own that is begun before the first of them
and ended after the last. -/
theorem block_expands {fuel : Fuel} {b b' : Block}
    (h : (makeMemoryExplicit.run fuel (.block b)).exec s = (.ok b', s')) :
    ∃ s0 s1 visited, (beginBlock .plain).exec s = (.ok (), s0) ∧
      Binding.ExpandAll s0 b.bindings b'.bindings s1 ∧ endBlock.exec s1 = (.ok visited, s') := by
  obtain ⟨fuel, h⟩ : ∃ fuel, (walkBlockAs (makeMemoryExplicit.run fuel) .plain b).exec s =
      (.ok b', s') := by
    match fuel, h with
    | .step rest, h =>
      change ((makeMemoryExplicit.run (rest ())) (.blockKind b)).exec s = _ at h
      match rest (), h with
      | .step rest, h => exact ⟨rest (), h⟩
  simp only [walkBlockAs, Act.exec_bind_ok, Act.exec_attempt_ok, Act.exec_resume_ok] at h
  obtain ⟨_, s0, h0, visited, s1, h1, block, s2, h2, _, _, ⟨rfl, rfl⟩, _, _, ⟨rfl, rfl⟩, h⟩ := h
  obtain ⟨out, hf, he⟩ := visitBindings_expand fuel (beginBlock_ok h0).2.frames rfl h1
  obtain ⟨rfl, -, -⟩ := endBlock_ok hf h2
  split at h
  · next hs =>
    -- The same node comes back, so that every binding takes one place.
    obtain ⟨rfl, rfl⟩ := Act.exec_pure_ok.mp h
    have hlen := length_of_allSame ((Bool.and_eq_true _ _).mp hs).2
    exact ⟨s0, s1, _, h0, he.self_of_length hlen.le, h2⟩
  · obtain ⟨rfl, rfl⟩ := Act.exec_pure_ok.mp h
    exact ⟨s0, s1, _, h0, he, h2⟩

end Transformer

namespace Destinations

/-- A call is lowered in the block, and another one in a function that is bound there. -/
def nested : Block :=
  .mk ⟨8, none⟩ .dataflow
    [.bind ⟨9, none⟩ inner written,
      .bind ⟨10, none⟩ second (.mkFunction ⟨11, none⟩ []
        (.mkSeq ⟨12, none⟩ [.mk ⟨13, none⟩ .plain [.bind ⟨14, none⟩ first written]] (.var first))
        none .empty),
      .bind ⟨15, none⟩ first (.var inner)]

end Destinations

open Destinations in
theorem Transformer.block_expands_nested : ∃ b' s', (makeMemoryExplicit.run (Fuel.ofNat 40)
      (.block nested)).exec (.new () .standard world) = (.ok b', s') ∧
    ∃ s0 s1 visited, (beginBlock .plain).exec (.new () .standard world) = (.ok (), s0) ∧
      Binding.ExpandAll s0 nested.bindings b'.bindings s1 ∧
        endBlock.exec s1 = (.ok visited, s') := by
  have hok : ((makeMemoryExplicit.run (Fuel.ofNat 40) (.block nested)).exec
      (.new () .standard world)).1.isOk := by decide +kernel
  obtain ⟨b', h⟩ := Act.eq_ok_of_isOk hok
  exact ⟨b', _, h, block_expands h⟩

open Destinations in
example : (((Transformer.makeMemoryExplicit.run (Fuel.ofNat 40) (.block nested)).exec
    (.new () .standard world)).1.toOption.map fun b => b.bindings.map fun b => b.var.id.hint) =
      some ["alloc", "call", "inner", "second", "first"] := by
  decide +kernel

end DataflowIR
