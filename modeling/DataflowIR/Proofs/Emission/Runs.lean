import DataflowIR.Proofs.Emission.Steps
import DataflowIR.Proofs.Normalize.Substitution

namespace DataflowIR

open Session Transformer

/-- Something done between moments, with what is emitted at them. -/
inductive Emissions.Around (E : Emissions) (d : Bool) (before after : List Moment)
    (core : Nat → List Binding → List Binding → Nat → Prop) :
    Nat → List Binding → List Binding → Nat → Prop
  | mk {n n1 n2 n' x g l y} (hb : E.Row d before n x n1) (h : core n1 g l n2)
      (ha : E.Row d after n2 y n') :
      Around E d before after core n (x ++ (g ++ y)) (x ++ (l ++ y)) n'

namespace Emissions.Around

variable {E : Emissions} {d : Bool} {core : Nat → List Binding → List Binding → Nat → Prop}
variable {before before' after after' : List Moment} {n n1 n2 n' : Nat} {x g l y : List Binding}

theorem opened (hb : E.Row d before n x n1) (h : core n1 g l n2) (hn : n2 ≤ n') :
    E.Around d before [] core n (x ++ g) (x ++ l) n' := by
  simpa using Around.mk hb h (.nil hn)

theorem bare (h : core n g l n1) (hn : n1 ≤ n') : E.Around d [] [] core n g l n' :=
  opened (.nil (le_refl n)) h hn

/-- What is emitted before and after. -/
theorem between (hb : E.Row d before' n x n1) (h : E.Around d before after core n1 g l n2)
    (ha : E.Row d after' n2 y n') :
    E.Around d (before' ++ before) (after ++ after') core n (x ++ (g ++ y)) (x ++ (l ++ y)) n' := by
  cases h with
  | mk hb' h ha' => simpa using Around.mk (hb.append hb') h (ha'.append ha)

/-- What is done may go on, so long as nothing is emitted. -/
theorem finish {core' : Nat → List Binding → List Binding → Nat → Prop}
    (h : E.Around d before after core n g l n1) (hn : n1 ≤ n')
    (hc : ∀ {m g l m'}, m' ≤ n1 → core m g l m' → core' m g l m') :
    E.Around d before after core' n g l n' := by
  cases h with
  | mk hb h ha =>
    have ha' := ha.append (.nil hn)
    rw [List.append_nil, List.append_nil] at ha'
    exact .mk hb (hc ha.le h) ha'

end Emissions.Around

/-- What is done between the entry of a binding and its exit. -/
inductive Binding.Rebuilds (E : Emissions) (V : Id → Var → Prop) (d : Bool) (b : Binding) :
    Nat → List Binding → List Binding → Nat → Prop
  | mk {n n1 n' b' v' value' g l y} (hv : Expr.Visits E V d n b.value g l value' n1)
      (hd : E.Row d b.moments n1 y n') (hk : v'.id = b.var.id ∧ v'.dataflow = b.var.dataflow)
      (hs : Remakes n' (value'.sameAs b.value) b (b.rebuilt · v' value') b') :
      Rebuilds E V d b n (g ++ (y ++ [b'])) (l ++ (y ++ [b'])) n'

namespace Site

/-- What is done at a place, apart from the moments around it. -/
def Core (E : Emissions) (V : Id → Var → Prop) (d : Bool) :
    (site : Site) → site.Result → Nat → List Binding → List Binding → Nat → Prop
  | .expr e, e' | .exprKind e, e' => fun n g l n' =>
    ∃ e1, Expr.Walks E V d n e g l e1 n' ∧ Refills n' e1 e'
  | .binding b, _ | .bindingKind b, _ => Binding.Rebuilds E V d b
  | .block b, b' | .blockKind b, b' => fun n g l n' =>
    g = [] ∧ ∃ out, Binding.VisitAll E V (b.kind == .dataflow) n b.bindings out l n' ∧
      Remakes n' (allSame Binding.sameAs out b.bindings) b (.mk · b.kind out) b'
  | .varDef v, v' | .varDefKind v, v' => fun n g l n' =>
    v' = v ∧ l = g ∧ E.Row d (spanMoments v.span ++ v.sinfo.elim [] StructInfo.moments) n g n'
  | .type i, i' => fun n g l n' => i' = i ∧ g = [] ∧ l = [] ∧ n ≤ n'
  | .span _, _ => fun n g l n' => g = [] ∧ l = [] ∧ n ≤ n'
  | .dim d, d' => fun n g l n' => d' = d ∧ g = [] ∧ l = [] ∧ n ≤ n'

/-- The moments between that before a place and what is done there. -/
def opening : Site → List Moment
  | .expr e => .before (.exprKind e) :: spanMoments e.span
  | .exprKind e => spanMoments e.span
  | .binding b => [.before (.bindingKind b)]
  | .block b => [.before (.blockKind b)]
  | .varDef v => [.before (.varDefKind v)]
  | _ => []

def closing : Site → List Moment
  | .expr e => [.after (.exprKind e)]
  | .binding b => [.after (.bindingKind b)]
  | .block b => [.after (.blockKind b)]
  | .varDef v => [.after (.varDefKind v)]
  | _ => []

/-- What the default does at a place. -/
def Passes (E : Emissions) (V : Id → Var → Prop) (d : Bool) (site : Site) (r : site.Result) :
    Nat → List Binding → List Binding → Nat → Prop :=
  E.Around d site.opening site.closing (site.Core E V d r)

/-- What is done at a place when handlers emit around it. -/
def Visits (E : Emissions) (V : Id → Var → Prop) (d : Bool) (site : Site) (r : site.Result) :
    Nat → List Binding → List Binding → Nat → Prop :=
  E.Around d (.before site :: site.opening) (site.closing ++ [.after site]) (site.Core E V d r)

/-- The variables bound at a place. -/
def bound : Site → List Var
  | .expr e | .exprKind e => e.bound
  | .binding b | .bindingKind b => b.bound
  | .block b | .blockKind b => b.bound
  | _ => []

end Site

/-- Later uses may refer to any variable of the same identity and kind. -/
def Var.Replaceable (V : Id → Var → Prop) (v : Var) : Prop :=
  ∀ v', v'.id = v.id → v'.dataflow = v.dataflow → V v.id v'

section Runs

variable {σ : Type} {E : Emissions} {V : Id → Var → Prop}
variable {go : (s : Site) → Build σ s.Result} {s s' : Session σ}

/-- Wherever the traversal succeeds, it does what the relation says. -/
def Transformer.Conforms (E : Emissions) (V : Id → Var → Prop)
    (go : (s : Site) → Build σ s.Result) : Prop :=
  ∀ (site : Site) {r s s'}, s.remap.Within V → (∀ v ∈ site.bound, v.Replaceable V) →
    (go site).exec s = (.ok r, s') → ∃ g l, s.Gets V g l s' ∧
      site.Visits E V s.builder.inDataflow r s.world.next g l s'.world.next

namespace Transformer.Conforms

theorem expr (hgo : Conforms E V go) (hs : s.remap.Within V) {e e' : Expr}
    (hv : ∀ v ∈ e.bound, v.Replaceable V) (h : (go (.expr e)).exec s = (.ok e', s')) :
    ∃ g l, s.Gets V g l s' ∧
      Expr.Visits E V s.builder.inDataflow s.world.next e g l e' s'.world.next := by
  obtain ⟨g, l, hg, hv⟩ := hgo (.expr e) hs hv h
  cases hv with
  | mk hb h ha =>
    obtain ⟨e1, hw, hf⟩ := h
    exact ⟨_, _, hg, .mk hb hw hf ha⟩

theorem binding (hgo : Conforms E V go) (hs : s.remap.Within V) {b : Binding}
    (hv : ∀ v ∈ b.bound, v.Replaceable V) (h : (go (.binding b)).exec s = (.ok (), s')) :
    ∃ g l, s.Gets V g l s' ∧
      Binding.Visits E V s.builder.inDataflow s.world.next b g l s'.world.next := by
  obtain ⟨g, l, hg, hv⟩ := hgo (.binding b) hs hv h
  cases hv with
  | mk hb h ha =>
    cases h with
    | mk hv hd hk hs =>
      refine ⟨_, _, hg, ?_⟩
      simpa using Binding.Visits.mk hb hv hd hk hs ha

theorem block (hgo : Conforms E V go) (hs : s.remap.Within V) {b b' : Block}
    (hv : ∀ v ∈ b.bound, v.Replaceable V) (h : (go (.block b)).exec s = (.ok b', s')) :
    ∃ g l, s.Gets V g l s' ∧
      Block.Visits E V s.builder.inDataflow s.world.next b g l b' s'.world.next := by
  obtain ⟨g, l, hg, hv⟩ := hgo (.block b) hs hv h
  cases hv with
  | mk hb h ha =>
    obtain ⟨rfl, out, hv, hs⟩ := h
    exact ⟨_, _, hg, .mk hb hv hs ha⟩

/-- Definitions come back as they were. -/
theorem varDef (hgo : Conforms E V go) {v v' : Var} (hs : s.remap.Within V)
    (h : (go (.varDef v)).exec s = (.ok v', s')) : v = v' ∧ ∃ x, s.Gets V x x s' ∧
      E.Row s.builder.inDataflow v.moments s.world.next x s'.world.next := by
  obtain ⟨g, l, hg, hv⟩ := hgo (.varDef v) hs nofun h
  cases hv with
  | mk hb h ha =>
    obtain ⟨rfl, rfl, hr⟩ := h
    refine ⟨rfl, _, hg, ?_⟩
    simpa [Var.moments, Site.opening, Site.closing] using hb.append (hr.append ha)

theorem type (hgo : Conforms E V go) {i i' : StructInfo} (hs : s.remap.Within V)
    (h : (go (.type i)).exec s = (.ok i', s')) : i = i' ∧ ∃ x, s.Gets V x x s' ∧
      E.Row s.builder.inDataflow i.moments s.world.next x s'.world.next := by
  obtain ⟨g, l, hg, hv⟩ := hgo (.type i) hs nofun h
  cases hv with
  | mk hb h ha =>
    obtain ⟨rfl, rfl, rfl, hn⟩ := h
    exact ⟨rfl, _, hg, hb.append (ha.of_le hn)⟩

theorem dim (hgo : Conforms E V go) {d d' : Dim} (hs : s.remap.Within V)
    (h : (go (.dim d)).exec s = (.ok d', s')) : d = d' ∧ ∃ x, s.Gets V x x s' ∧
      E.Row s.builder.inDataflow d.moments s.world.next x s'.world.next := by
  obtain ⟨g, l, hg, hv⟩ := hgo (.dim d) hs nofun h
  cases hv with
  | mk hb h ha =>
    obtain ⟨rfl, rfl, rfl, hn⟩ := h
    exact ⟨rfl, _, hg, hb.append (ha.of_le hn)⟩

theorem visitSpan (hgo : Conforms E V go) (hs : s.remap.Within V) {span : Option Span}
    (h : (visitSpan go span).exec s = (.ok (), s')) : ∃ x, s.Gets V x x s' ∧
      E.Row s.builder.inDataflow (spanMoments span) s.world.next x s'.world.next := by
  cases span with
  | none =>
    obtain ⟨-, rfl⟩ := Act.exec_pure_ok.mp h
    exact ⟨[], .refl s, .nil (le_refl _)⟩
  | some i =>
    obtain ⟨g, l, hg, hv⟩ := hgo (.span i) hs nofun h
    cases hv with
    | mk hb h ha =>
      obtain ⟨rfl, rfl, hn⟩ := h
      exact ⟨_, hg, hb.append (ha.of_le hn)⟩

/-- A list whose elements come back as they were. -/
theorem each {α : Type} {one : α → Build σ α} {moments : α → List Moment}
    (hone : ∀ {a a' s s'}, s.remap.Within V → (one a).exec s = (.ok a', s') → a = a' ∧
      ∃ x, s.Gets V x x s' ∧
        E.Row s.builder.inDataflow (moments a) s.world.next x s'.world.next)
    (visit : List α → Build σ (List α)) (hnil : visit [] = pure [])
    (hcons : ∀ a as, visit (a :: as) = do return (← one a) :: (← visit as)) {as as' : List α}
    (hs : s.remap.Within V) (h : (visit as).exec s = (.ok as', s')) : as = as' ∧
      ∃ x, s.Gets V x x s' ∧
        E.Row s.builder.inDataflow (as.flatMap moments) s.world.next x s'.world.next := by
  induction as generalizing as' s s' with
  | nil =>
    rw [hnil] at h
    obtain ⟨rfl, rfl⟩ := Act.exec_pure_ok.mp h
    exact ⟨rfl, [], .refl s, .nil (le_refl _)⟩
  | cons a as ih =>
    simp only [hcons, Act.exec_bind_ok] at h
    obtain ⟨_, _, ha, _, _, has, hp⟩ := h
    obtain ⟨rfl, x, kx, rx⟩ := hone hs ha
    obtain ⟨rfl, y, ky, ry⟩ := ih (kx.remap hs) has
    obtain ⟨rfl, rfl⟩ := Act.exec_pure_ok.mp hp
    rw [kx.inDataflow] at ry
    exact ⟨rfl, _, kx.trans ky, rx.append ry⟩

theorem visitDims (hgo : Conforms E V go) (hs : s.remap.Within V) {ds ds' : List Dim}
    (h : (visitDims go ds).exec s = (.ok ds', s')) : ds = ds' ∧ ∃ x, s.Gets V x x s' ∧
      E.Row s.builder.inDataflow (ds.flatMap Dim.moments) s.world.next x s'.world.next := by
  exact each hgo.dim (Transformer.visitDims go) rfl (fun _ _ => rfl) hs h

theorem visitTypes (hgo : Conforms E V go) (hs : s.remap.Within V) {is is' : List StructInfo}
    (h : (visitTypes go is).exec s = (.ok is', s')) : is = is' ∧ ∃ x, s.Gets V x x s' ∧
      E.Row s.builder.inDataflow (is.flatMap StructInfo.moments) s.world.next x s'.world.next := by
  exact each hgo.type (Transformer.visitTypes go) rfl (fun _ _ => rfl) hs h

theorem visitVarDefs (hgo : Conforms E V go) (hs : s.remap.Within V) {vs vs' : List Var}
    (h : (visitVarDefs go vs).exec s = (.ok vs', s')) : vs = vs' ∧ ∃ x, s.Gets V x x s' ∧
      E.Row s.builder.inDataflow (vs.flatMap Var.moments) s.world.next x s'.world.next := by
  exact each hgo.varDef (Transformer.visitVarDefs go) rfl (fun _ _ => rfl) hs h

theorem visitExprs (hgo : Conforms E V go) (hs : s.remap.Within V) {es es' : List Expr}
    (hv : ∀ v ∈ Expr.boundAll es, v.Replaceable V)
    (h : (visitExprs go es).exec s = (.ok es', s')) : ∃ g l, s.Gets V g l s' ∧
      Expr.VisitAll E V s.builder.inDataflow s.world.next es g l es' s'.world.next := by
  induction es generalizing es' s s' with
  | nil =>
    obtain ⟨rfl, rfl⟩ := Act.exec_pure_ok.mp h
    exact ⟨[], [], .refl s, .nil⟩
  | cons e es ih =>
    simp only [Transformer.visitExprs, Act.exec_bind_ok] at h
    obtain ⟨_, _, he, _, _, hes, hp⟩ := h
    obtain ⟨hve, hves⟩ := List.forall_mem_append.mp hv
    obtain ⟨g, l, k, r⟩ := hgo.expr hs hve he
    obtain ⟨g', l', k', r'⟩ := ih (k.remap hs) hves hes
    obtain ⟨rfl, rfl⟩ := Act.exec_pure_ok.mp hp
    rw [k.inDataflow] at r'
    exact ⟨_, _, k.trans k', .cons r r'⟩

theorem visitBindings (hgo : Conforms E V go) (hs : s.remap.Within V) {bs : List Binding}
    (hv : ∀ v ∈ Binding.boundAll bs, v.Replaceable V)
    (h : (visitBindings go bs).exec s = (.ok (), s')) : ∃ g l, s.Gets V g l s' ∧
      Binding.VisitAll E V s.builder.inDataflow s.world.next bs g l s'.world.next := by
  induction bs generalizing s with
  | nil =>
    obtain ⟨-, rfl⟩ := Act.exec_pure_ok.mp h
    exact ⟨[], [], .refl s, .nil⟩
  | cons b bs ih =>
    simp only [Transformer.visitBindings, Act.exec_bind_ok] at h
    obtain ⟨_, _, hb, hbs⟩ := h
    obtain ⟨hvb, hvbs⟩ := List.forall_mem_append.mp hv
    obtain ⟨g, l, k, r⟩ := hgo.binding hs hvb hb
    obtain ⟨g', l', k', r'⟩ := ih (k.remap hs) hvbs hbs
    rw [k.inDataflow] at r'
    exact ⟨_, _, k.trans k', .cons r r'⟩

theorem visitBlocks (hgo : Conforms E V go) (hs : s.remap.Within V) {bs bs' : List Block}
    (hv : ∀ v ∈ Block.boundAll bs, v.Replaceable V)
    (h : (visitBlocks go bs).exec s = (.ok bs', s')) : ∃ g l, s.Gets V g l s' ∧
      Block.VisitAll E V s.builder.inDataflow s.world.next bs g l bs' s'.world.next := by
  induction bs generalizing bs' s s' with
  | nil =>
    obtain ⟨rfl, rfl⟩ := Act.exec_pure_ok.mp h
    exact ⟨[], [], .refl s, .nil⟩
  | cons b bs ih =>
    simp only [Transformer.visitBlocks, Act.exec_bind_ok] at h
    obtain ⟨_, _, hb, _, _, hbs, hp⟩ := h
    obtain ⟨hvb, hvbs⟩ := List.forall_mem_append.mp hv
    obtain ⟨g, l, k, r⟩ := hgo.block hs hvb hb
    obtain ⟨g', l', k', r'⟩ := ih (k.remap hs) hvbs hbs
    obtain ⟨rfl, rfl⟩ := Act.exec_pure_ok.mp hp
    rw [k.inDataflow] at r'
    exact ⟨_, _, k.trans k', .cons r r'⟩

end Transformer.Conforms

section Walks

theorem settle_gets {α : Type} {same : Bool} {old e' : α} {new : Mark → α} {span : Option Span}
    (h : (if same = true then pure old
      else do return new (← freshMark span) : Build σ α).exec s = (.ok e', s')) :
    s.Gets V [] [] s' ∧ Remakes s.world.next same old new e' := by
  cases same with
  | true =>
    obtain ⟨rfl, rfl⟩ := Act.exec_pure_ok.mp h
    exact ⟨.refl s, .same rfl⟩
  | false =>
    obtain ⟨m, _, hm, hp⟩ := Act.exec_bind_ok.mp h
    obtain ⟨ht, k⟩ := freshMark_gets (V := V) hm
    obtain ⟨rfl, rfl⟩ := Act.exec_pure_ok.mp hp
    exact ⟨k, .changed ht.ge⟩

private theorem remapIfChanged_gets {v v' : Var} (hv : V v.id v')
    (h : (remapIfChanged v v').exec s = (.ok (), s')) : s.Gets V [] [] s' := by
  unfold remapIfChanged at h
  split at h
  · obtain ⟨-, rfl⟩ := Act.exec_pure_ok.mp h
    exact .refl s
  · exact setRemap_gets hv h

/-- A rebuilt binding, with the variable that takes its new struct info. -/
private theorem renewed_gets {b : Binding} {value : Expr} {sinfo : Option StructInfo}
    {span : Option Span} (hv : b.var.Replaceable V) (h : (do
      let v' ← retype b.var sinfo
      remapIfChanged b.var v'
      emitBinding (b.rebuilt (← freshMark span) v' value) : Build σ Unit).exec s = (.ok (), s')) :
    ∃ mark v', s.Gets V [b.rebuilt mark v' value] [b.rebuilt mark v' value] s' ∧
      (v'.id = b.var.id ∧ v'.dataflow = b.var.dataflow) ∧ s.world.next ≤ mark.tag := by
  simp only [Act.exec_bind_ok] at h
  obtain ⟨v', s1, h1, _, s2, h2, mark, s3, h3, h⟩ := h
  obtain ⟨hk, k1⟩ := retype_gets (V := V) h1
  have k2 := k1.quiet (remapIfChanged_gets (hv v' hk.1 hk.2) h2)
  obtain ⟨ht, k3⟩ := freshMark_gets (V := V) h3
  obtain ⟨-, -, k4⟩ := emitBinding_gets (V := V) h
  exact ⟨mark, v', (k2.trans k3).trans k4, hk, by have := k2.next; omega⟩

variable (hgo : Conforms E V go) (hs : s.remap.Within V)

include hgo hs

/-- What is emitted around the result comes to stand before it. -/
theorem inScope_gets {e e' : Expr} {params : List Var} (hv : ∀ v ∈ e.bound, v.Replaceable V)
    (h : (inScope go e params).exec s = (.ok e', s')) : ∃ l, s.Gets V [] l s' ∧
      Expr.Scoped E V s.world.next e l e' s'.world.next := by
  simp only [inScope, Act.exec_bind_ok, Act.exec_attempt_ok, Act.exec_resume_ok] at h
  obtain ⟨_, s1, h1, _, s2, h2, _, s3, h3, visited, s4, h4, block, s5, h5, scope, s6, h6, remap, s7,
    h7, _, _, ⟨rfl, rfl⟩, _, _, ⟨rfl, rfl⟩, _, _, ⟨rfl, rfl⟩, _, _, ⟨rfl, rfl⟩, h⟩ := h
  have k12 := (openRemap_gets (V := V) h1).trans (beginScope_gets h2)
  obtain ⟨g, l, k4, v4⟩ := hgo.expr (by rw [beginBlock_ok_iff.mp h3]; exact k12.remap hs) hv h4
  obtain ⟨⟨mark, rfl, -⟩, hn5, k5⟩ := endBlock_gets h3 k4 h5
  have k67 := (endScope_gets (V := V) h6).trans (closeRemap_gets h7)
  have k : s.Gets V [] l s7 := (k12.trans k5).quiet k67
  have hn : s4.world.next ≤ s7.world.next := hn5.trans k67.next
  have hn3 : s3.world.next = s.world.next := by
    rw [beginBlock_ok_iff.mp h3]
    cases h1
    cases h2
    rfl
  rw [hn3, show s3.builder.inDataflow = false by rw [beginBlock_ok_iff.mp h3]; rfl] at v4
  split at h
  · next he =>
    obtain ⟨rfl, rfl⟩ := Act.exec_pure_ok.mp h
    obtain rfl : g = [] := List.isEmpty_iff.mp he
    exact ⟨l, k, .bare v4 hn⟩
  · next he =>
    obtain ⟨m, s8, h8, h⟩ := Act.exec_bind_ok.mp h
    obtain ⟨hm, k8⟩ := freshMark_gets (V := V) h8
    obtain ⟨hf, k9⟩ := normalize_gets (V := V) h
    refine ⟨l, (k.quiet k8).quiet k9, ?_⟩
    have hg : g ≠ [] := fun h => he (List.isEmpty_iff.mpr h)
    have hn9 := hn.trans (k8.next.trans k9.next)
    cases hf with
    | kept => exact .prefaced v4 hg (hn.trans hm.ge) hn9
    | filled ht => exact .prefaced v4 hg (hn.trans (k8.next.trans ht)) hn9

/-- The rebuilt node takes its tag after its parts are visited. -/
private theorem walkFunctionScope_gets {f : Function} {e' : Expr}
    (hv : ∀ v ∈ f.toExpr.bound, v.Replaceable V)
    (h : (walkFunctionScope go f).exec s = (.ok e', s')) : ∃ g l n', s.Gets V g l s' ∧
      Expr.Walks E V s.builder.inDataflow s.world.next f.toExpr g l e' n' ∧
      n' ≤ s'.world.next := by
  simp only [walkFunctionScope, Act.exec_bind_ok, Act.exec_attempt_ok, Act.exec_resume_ok] at h
  obtain ⟨_, s1, h1, result, s2, h2, remap, s3, h3, _, _, ⟨rfl, rfl⟩, _, _, ⟨rfl, rfl⟩, h⟩ := h
  obtain ⟨rfl, rfl⟩ := Act.exec_pure_ok.mp h
  have k1 := openRemap_gets (V := V) h1
  obtain rfl := openRemap_ok h1
  simp only [walkFunction, Act.exec_bind_ok] at h2
  obtain ⟨params, sp, hp, ret, st, ht, body, sb, hb, h2⟩ := h2
  obtain ⟨rfl, x, kp, rp⟩ := hgo.visitVarDefs (k1.remap hs) hp
  have hst := kp.remap (k1.remap hs)
  obtain ⟨rfl, y, kt, rt⟩ := hgo.type hst ht
  obtain ⟨l, kb, vb⟩ := inScope_gets hgo (kt.remap hst) (List.forall_mem_append.mp hv).2 hb
  rw [allSame_refl Var.sameAs_self, decide_eq_true rfl, Bool.true_and, Bool.true_and] at h2
  obtain ⟨ks, rs⟩ := settle_gets (V := V) h2
  have k := ((k1.trans (kp.trans kt)).trans kb).quiet (ks.quiet (closeRemap_gets h3))
  rw [kp.inDataflow] at rt
  rw [List.nil_append, List.append_nil] at k
  exact ⟨_, _, _, k, .function (rp.append rt) vb rs,
    ks.next.trans (closeRemap_gets (V := V) h3).next⟩

private theorem walkSeq_gets {node : Node} {blocks : List Block} {body e' : Expr}
    (hv : ∀ v ∈ (Expr.seq node blocks body).bound, v.Replaceable V)
    (h : (walkSeq go node blocks body).exec s = (.ok e', s')) : ∃ g l n', s.Gets V g l s' ∧
      Expr.Walks E V s.builder.inDataflow s.world.next (.seq node blocks body) g l e' n' ∧
      n' ≤ s'.world.next := by
  simp only [walkSeq, Act.exec_bind_ok, Act.exec_attempt_ok, Act.exec_resume_ok] at h
  obtain ⟨blocks', s1, h1, _, s2, h2, visited, s3, h3, block, s4, h4, _, _, ⟨rfl, rfl⟩, _, _,
    ⟨rfl, rfl⟩, h⟩ := h
  obtain ⟨hvb, hvy⟩ := List.forall_mem_append.mp hv
  obtain ⟨g, l, k1, v1⟩ := hgo.visitBlocks hs hvb h1
  have h2' := beginBlock_ok_iff.mp h2
  obtain ⟨g', l', k3, v3⟩ := hgo.expr (by rw [h2']; exact k1.remap hs) hvy h3
  obtain ⟨⟨mark, rfl, -⟩, hn4, k4⟩ := endBlock_gets h2 k3 h4
  obtain ⟨ks, rs⟩ := settle_gets (V := V) h
  subst h2'
  have k := k1.trans (k4.quiet ks)
  rw [List.append_nil] at k
  exact ⟨_, _, _, k, .seq v1 v3 (.of_le hn4 rs), hn4.trans ks.next⟩

private theorem walkIte_gets {node : Node} {cond onTrue onFalse e' : Expr}
    (hv : ∀ v ∈ (Expr.ite node cond onTrue onFalse).bound, v.Replaceable V)
    (h : (walkIte go node cond onTrue onFalse).exec s = (.ok e', s')) : ∃ g l n', s.Gets V g l s' ∧
      Expr.Walks E V s.builder.inDataflow s.world.next (.ite node cond onTrue onFalse) g l e' n' ∧
      n' ≤ s'.world.next := by
  simp only [walkIte, Act.exec_bind_ok] at h
  obtain ⟨cond', s1, h1, onTrue', s2, h2, onFalse', s3, h3, h⟩ := h
  obtain ⟨hvc, hvb⟩ := List.forall_mem_append.mp hv
  obtain ⟨hvt, hvf⟩ := List.forall_mem_append.mp hvb
  obtain ⟨g, l, k1, v1⟩ := hgo.expr hs hvc h1
  have hs1 := k1.remap hs
  obtain ⟨l1, k2, v2⟩ := inScope_gets hgo hs1 hvt h2
  obtain ⟨l2, k3, v3⟩ := inScope_gets hgo (k2.remap hs1) hvf h3
  obtain ⟨ks, rs⟩ := settle_gets (V := V) h
  have k := k1.trans ((k2.trans k3).quiet ks)
  rw [List.nil_append, List.append_nil] at k
  exact ⟨_, _, _, k, .ite v1 v2 v3 rs, ks.next⟩

private theorem walkCall_gets {c : Call} {e' : Expr} (hv : ∀ v ∈ c.toExpr.bound, v.Replaceable V)
    (h : (walkCall go c).exec s = (.ok e', s')) : ∃ g l n', s.Gets V g l s' ∧
      Expr.Walks E V s.builder.inDataflow s.world.next c.toExpr g l e' n' ∧
      n' ≤ s'.world.next := by
  simp only [walkCall, Act.exec_bind_ok] at h
  obtain ⟨callee, s1, h1, _, s2, h2, args, s3, h3, h⟩ := h
  obtain ⟨hvc, hva⟩ := List.forall_mem_append.mp hv
  obtain ⟨g, l, k1, v1⟩ := hgo.expr hs hvc h1
  have hs1 := k1.remap hs
  obtain ⟨rfl, x, k2, r2⟩ := hgo.visitTypes hs1 h2
  obtain ⟨g', l', k3, v3⟩ := hgo.visitExprs (k2.remap hs1) hva h3
  rw [decide_eq_true rfl, Bool.and_true] at h
  obtain ⟨ks, rs⟩ := settle_gets (V := V) h
  have k := k1.trans (k2.trans (k3.quiet ks))
  rw [k1.inDataflow] at r2
  rw [k2.inDataflow, k1.inDataflow] at v3
  exact ⟨_, _, _, k, .call v1 r2 v3 rs, ks.next⟩

private theorem walkExpr_gets {e e' : Expr} (hv : ∀ v ∈ e.bound, v.Replaceable V)
    (h : (walkExpr go e).exec s = (.ok e', s')) : ∃ g l, s.Gets V g l s' ∧
      (Site.exprKind e).Passes E V s.builder.inDataflow e' s.world.next g l s'.world.next := by
  simp only [walkExpr, Act.exec_bind_ok] at h
  obtain ⟨_, s1, h1, h⟩ := h
  obtain ⟨x, k1, r1⟩ := hgo.visitSpan hs h1
  have hs1 := k1.remap hs
  suffices hw : ∃ g l n', s1.Gets V g l s' ∧
      Expr.Walks E V s1.builder.inDataflow s1.world.next e g l e' n' ∧ n' ≤ s'.world.next by
    obtain ⟨g, l, n', k, w, hn⟩ := hw
    rw [k1.inDataflow] at w
    refine ⟨_, _, k1.trans k, ?_⟩
    exact .opened r1 ⟨e', w, .kept⟩ hn
  cases e with
  | leaf node content =>
    obtain ⟨rfl, rfl⟩ := Act.exec_pure_ok.mp h
    exact ⟨_, _, _, .refl _, .leaf, le_refl _⟩
  | var v =>
    obtain ⟨_, _, hg, hp⟩ := Act.exec_bind_ok.mp h
    cases hg
    obtain ⟨rfl, rfl⟩ := Act.exec_pure_ok.mp hp
    refine ⟨_, _, _, .refl _, .var ?_, le_refl _⟩
    cases hw : s1.remap.get? v.id with
    | none => exact .inl rfl
    | some w => exact .inr (hs1.table hw)
  | shape node values =>
    obtain ⟨_, _, hd, hp⟩ := Act.exec_bind_ok.mp h
    obtain ⟨rfl, x, k, r⟩ := hgo.visitDims hs1 hd
    rw [if_pos rfl] at hp
    obtain ⟨rfl, rfl⟩ := Act.exec_pure_ok.mp hp
    exact ⟨_, _, _, k, .shape r, le_refl _⟩
  | prim node value dtype =>
    obtain ⟨_, _, hd, hp⟩ := Act.exec_bind_ok.mp h
    obtain ⟨rfl, x, k, r⟩ := hgo.dim hs1 hd
    rw [if_pos rfl] at hp
    obtain ⟨rfl, rfl⟩ := Act.exec_pure_ok.mp hp
    exact ⟨_, _, _, k, .prim r, le_refl _⟩
  | tuple node fields =>
    obtain ⟨fields', _, hf, hp⟩ := Act.exec_bind_ok.mp h
    obtain ⟨g, l, k, v⟩ := hgo.visitExprs hs1 hv hf
    obtain ⟨ks, rs⟩ := settle_gets (V := V) hp
    exact ⟨_, _, _, k.quiet ks, .tuple v rs, ks.next⟩
  | item node whole index =>
    obtain ⟨whole', _, hw, hp⟩ := Act.exec_bind_ok.mp h
    obtain ⟨g, l, k, v⟩ := hgo.expr (e := whole) hs1 hv hw
    obtain ⟨ks, rs⟩ := settle_gets (V := V) hp
    exact ⟨_, _, _, k.quiet ks, .item v rs, ks.next⟩
  | call node callee args attrs sinfoArgs =>
    exact walkCall_gets (c := ⟨node, callee, args, attrs, sinfoArgs⟩) hgo hs1 hv h
  | ite node cond onTrue onFalse => exact walkIte_gets hgo hs1 hv h
  | seq node blocks body => exact walkSeq_gets hgo hs1 hv h
  | function node params body ret attrs =>
    exact walkFunctionScope_gets (f := ⟨node, params, body, ret, attrs⟩) hgo hs1 hv h

/-- The binding as it was, or of a new value to a variable with its struct info. -/
private theorem walkBinding_gets {b : Binding} (hv : ∀ v ∈ b.bound, v.Replaceable V)
    (h : (walkBinding go b).exec s = (.ok (), s')) : ∃ g l n', s.Gets V g l s' ∧
      Binding.Rebuilds E V s.builder.inDataflow b s.world.next g l n' ∧ n' ≤ s'.world.next := by
  cases b with
  | bind mark v value =>
    obtain ⟨hvv, hvy⟩ := List.forall_mem_cons.mp hv
    simp only [walkBinding, walkBind, Act.exec_bind_ok] at h
    obtain ⟨value', s1, h1, v1, s2, h2, h⟩ := h
    obtain ⟨g, l, k1, w1⟩ := hgo.expr hs hvy h1
    obtain ⟨rfl, y, k2, r2⟩ := hgo.varDef (k1.remap hs) h2
    rw [k1.inDataflow] at r2
    rw [Var.sameAs_self, Bool.true_and] at h
    split at h
    · next hsame =>
      obtain ⟨-, hn, ke⟩ := emitBinding_gets (V := V) h
      exact ⟨_, _, _, k1.trans (k2.trans ke), .mk w1 r2 ⟨rfl, rfl⟩ (.same hsame), hn.ge⟩
    · obtain ⟨m, v', ke, hk, ht⟩ := renewed_gets (b := .bind mark v value) hvv h
      exact ⟨_, _, _, k1.trans (k2.trans ke), .mk w1 r2 hk (.changed ht), ke.next⟩
  | cast mark v value sinfo =>
    obtain ⟨hvv, hvy⟩ := List.forall_mem_cons.mp hv
    simp only [walkBinding, walkCast, Act.exec_bind_ok] at h
    obtain ⟨value', s1, h1, _, s2, h2, v1, s3, h3, h⟩ := h
    obtain ⟨g, l, k1, w1⟩ := hgo.expr hs hvy h1
    have hs1 := k1.remap hs
    obtain ⟨rfl, x, k2, r2⟩ := hgo.type hs1 h2
    obtain ⟨rfl, y, k3, r3⟩ := hgo.varDef (k2.remap hs1) h3
    rw [k1.inDataflow] at r2
    rw [k2.inDataflow, k1.inDataflow] at r3
    have r := r2.append r3
    have k23 := k2.trans k3
    rw [Var.sameAs_self, Bool.true_and, decide_eq_true rfl, Bool.and_true] at h
    split at h
    · next hsame =>
      obtain ⟨-, hn, ke⟩ := emitBinding_gets (V := V) h
      exact ⟨_, _, _, k1.trans (k23.trans ke), .mk w1 r ⟨rfl, rfl⟩ (.same hsame), hn.ge⟩
    · obtain ⟨m, v', ke, hk, ht⟩ := renewed_gets (b := .cast mark v value sinfo) hvv h
      exact ⟨_, _, _, k1.trans (k23.trans ke), .mk w1 r hk (.changed ht), ke.next⟩

private theorem walkBlockAs_gets {b b' : Block} (hv : ∀ v ∈ b.bound, v.Replaceable V)
    (h : (walkBlockAs go b.kind b).exec s = (.ok b', s')) : ∃ l n', s.Gets V [] l s' ∧
      (∃ out, Binding.VisitAll E V (b.kind == .dataflow) s.world.next b.bindings out l n' ∧
        Remakes n' (allSame Binding.sameAs out b.bindings) b (.mk · b.kind out) b') ∧
      n' ≤ s'.world.next := by
  simp only [walkBlockAs, Act.exec_bind_ok, Act.exec_attempt_ok, Act.exec_resume_ok] at h
  obtain ⟨_, s1, h1, visited, s2, h2, block, s3, h3, _, _, ⟨rfl, rfl⟩, _, _, ⟨rfl, rfl⟩, h⟩ := h
  have h1' := beginBlock_ok_iff.mp h1
  have hvb : ∀ v ∈ Binding.boundAll b.bindings, v.Replaceable V := by
    cases b
    exact hv
  obtain ⟨out, l, k2, v2⟩ := hgo.visitBindings (by rw [h1']; exact hs) hvb h2
  obtain ⟨⟨mark, rfl, ht⟩, hn, k3⟩ := endBlock_gets h1 k2 h3
  subst h1'
  simp only [decide_true, Bool.true_and] at h
  split at h
  · next hsame =>
    obtain ⟨rfl, rfl⟩ := Act.exec_pure_ok.mp h
    exact ⟨l, _, k3, ⟨out, v2, .same hsame⟩, hn⟩
  · obtain ⟨rfl, rfl⟩ := Act.exec_pure_ok.mp h
    have hm : s2.world.next ≤ (Mark.mk mark.tag b.span).tag := ht
    exact ⟨l, _, k3, ⟨out, v2, .changed hm⟩, hn⟩

private theorem walkVarDef_gets {v v' : Var} (h : (walkVarDef go v).exec s = (.ok v', s')) :
    v = v' ∧ ∃ x, s.Gets V x x s' ∧ E.Row s.builder.inDataflow
      (spanMoments v.span ++ v.sinfo.elim [] StructInfo.moments) s.world.next x s'.world.next := by
  simp only [walkVarDef, Act.exec_bind_ok] at h
  obtain ⟨_, s1, h1, h⟩ := h
  obtain ⟨x, k1, r1⟩ := hgo.visitSpan hs h1
  cases hi : v.sinfo with
  | none =>
    rw [hi] at h
    obtain ⟨rfl, rfl⟩ := Act.exec_pure_ok.mp h
    exact ⟨rfl, x, k1, by simpa using r1⟩
  | some i =>
    simp only [hi, Act.exec_bind_ok] at h
    obtain ⟨_, s2, h2, h⟩ := h
    obtain ⟨rfl, y, k2, r2⟩ := hgo.type (k1.remap hs) h2
    rw [if_pos rfl] at h
    obtain ⟨rfl, rfl⟩ := Act.exec_pure_ok.mp h
    rw [k1.inDataflow] at r2
    exact ⟨rfl, _, k1.trans k2, r1.append r2⟩

/-- What the default does at a place, given what the traversal does below it. -/
private theorem walk_gets (site : Site) {r : site.Result} (hv : ∀ v ∈ site.bound, v.Replaceable V)
    (h : (walk go site).exec s = (.ok r, s')) : ∃ g l, s.Gets V g l s' ∧
      site.Passes E V s.builder.inDataflow r s.world.next g l s'.world.next := by
  cases site with
  | expr e =>
    obtain ⟨e1, s1, h1, h⟩ := Act.exec_bind_ok.mp h
    obtain ⟨g, l, k, hp⟩ := hgo (.exprKind e) hs hv h1
    obtain ⟨hf, kn⟩ := normalize_gets (V := V) h
    refine ⟨g, l, k.quiet kn, ?_⟩
    apply Emissions.Around.finish hp kn.next
    rintro m g l m' hm ⟨e0, hw, h0⟩
    exact ⟨e0, hw, h0.trans hm hf⟩
  | exprKind e => exact walkExpr_gets hgo hs hv h
  | binding b => exact hgo (.bindingKind b) hs hv h
  | bindingKind b =>
    obtain ⟨g, l, n', k, hr, hn⟩ := walkBinding_gets hgo hs hv h
    refine ⟨g, l, k, ?_⟩
    exact .bare hr hn
  | block b => exact hgo (.blockKind b) hs hv h
  | blockKind b =>
    obtain ⟨l, n', k, hr, hn⟩ := walkBlockAs_gets hgo hs hv h
    refine ⟨[], l, k, ?_⟩
    exact .bare ⟨rfl, hr⟩ hn
  | varDef v => exact hgo (.varDefKind v) hs hv h
  | varDefKind v =>
    obtain ⟨rfl, x, k, hr⟩ := walkVarDef_gets hgo hs h
    refine ⟨x, x, k, ?_⟩
    exact .bare ⟨rfl, rfl, hr⟩ (le_refl _)
  | type i =>
    obtain ⟨rfl, rfl⟩ := Act.exec_pure_ok.mp h
    exact ⟨[], [], .refl _, .bare ⟨rfl, rfl, rfl, le_refl _⟩ (le_refl _)⟩
  | span i =>
    obtain ⟨-, rfl⟩ := Act.exec_pure_ok.mp h
    exact ⟨[], [], .refl _, .bare ⟨rfl, rfl, le_refl _⟩ (le_refl _)⟩
  | dim d =>
    obtain ⟨rfl, rfl⟩ := Act.exec_pure_ok.mp h
    exact ⟨[], [], .refl _, .bare ⟨rfl, rfl, rfl, le_refl _⟩ (le_refl _)⟩

end Walks

/-- One place more is visited as the relation says. -/
private theorem Transformer.Surrounds.visits {t : Transformer σ} {site : Site} {r : site.Result}
    (ht : t.Surrounds E site) (hgo : Conforms E V go) (hs : s.remap.Within V)
    (hv : ∀ v ∈ site.bound, v.Replaceable V) (h : (t go site).exec s = (.ok r, s')) :
    ∃ g l, s.Gets V g l s' ∧
      site.Visits E V s.builder.inDataflow r s.world.next g l s'.world.next := by
  cases ht with
  | handled before after hb ha ht =>
    simp only [ht, Act.exec_bind_ok] at h
    obtain ⟨_, s1, h1, r, s2, h2, _, s3, h3, h⟩ := h
    obtain ⟨rfl, rfl⟩ := Act.exec_pure_ok.mp h
    obtain ⟨x, k1, e1⟩ := hb V _ _ _ h1
    obtain ⟨g, l, k2, w⟩ := walk_gets hgo (k1.remap hs) _ hv h2
    obtain ⟨y, k3, e3⟩ := ha r V _ _ _ h3
    rw [k1.inDataflow] at w
    rw [k2.inDataflow, k1.inDataflow] at e3
    exact ⟨_, _, k1.trans (k2.trans k3), .between (.one e1) w (.one e3)⟩
  | @hooked e before after hb ha ht =>
    simp only [ht, Act.exec_bind_ok] at h
    obtain ⟨_, s1, h1, e1, s2, h2, r, s3, h3, _, s4, h4, h⟩ := h
    obtain ⟨rfl, rfl⟩ := Act.exec_pure_ok.mp h
    obtain ⟨x, k1, m1⟩ := hb V _ _ _ h1
    obtain ⟨g, l, k2, w⟩ := walk_gets hgo (k1.remap hs) (.exprKind e) hv h2
    obtain ⟨hf, k3⟩ := normalize_gets (V := V) h3
    obtain ⟨y, k4, m4⟩ := ha r V _ _ _ h4
    have w' : (Site.exprKind e).Passes E V s1.builder.inDataflow r s1.world.next g l
        s3.world.next := by
      apply Emissions.Around.finish w k3.next
      rintro m g l m' hm ⟨e0, hw, h0⟩
      exact ⟨e0, hw, h0.trans hm hf⟩
    have k23 := k2.quiet k3
    rw [k1.inDataflow] at w'
    rw [k23.inDataflow, k1.inDataflow] at m4
    exact ⟨_, _, k1.trans (k23.trans k4), .between (.one m1) w' (.one m4)⟩

/-- A traversal whose transformer emits around the default does what the relation says. -/
theorem Transformer.run_conforms {t : Transformer σ}
    (ht : ∀ site, t.Surrounds E site) (fuel : Fuel) : Conforms E V (run t fuel) := by
  induction fuel with
  | spent =>
    intro site r s s' _ _ h
    cases h
  | step rest ih => exact fun site _ _ _ hs hv h => (ht site).visits (ih ()) hs hv h

end Runs

end DataflowIR
