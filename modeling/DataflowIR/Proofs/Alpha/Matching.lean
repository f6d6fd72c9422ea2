import DataflowIR.Proofs.Alpha.Hygiene
import DataflowIR.Proofs.Alpha.Resemblance

namespace DataflowIR

namespace Renaming

theorem given_eq_some {r r' : Renaming} {test : Bool} :
    r.given test = some r' ↔ test = true ∧ r = r' := by
  cases test <;> simp [given]

theorem define_eq_some {r r' : Renaming} {v w : Var} :
    r.define v w = some r' ↔ v.signature = w.signature ∧ r.insert v.id w.id = r' := by
  unfold define
  split
  · next h => simp [Var.signature, h]
  · next h => simp [Var.signature, h]

private theorem isSome_define {r : Renaming} {v w : Var} (h : v.signature = w.signature) :
    (r.define v w).isSome := by
  rw [define_eq_some.mpr ⟨h, rfl⟩, Option.isSome_some]

private theorem signature_of_defineAll : ∀ {vs ws : List Var} {r r' : Renaming},
    r.defineAll vs ws = some r' → vs.map Var.signature = ws.map Var.signature
  | [], [], _, _, _ => rfl
  | v :: vs, w :: ws, r, r', h => by
    simp only [defineAll, Option.bind_eq_some_iff, define_eq_some] at h
    obtain ⟨r1, ⟨hs, -⟩, h⟩ := h
    rw [List.map_cons, List.map_cons, hs, signature_of_defineAll h]

end Renaming

open Renaming

mutual

theorem Expr.resembles_of_match? {r r' : Renaming} : {a b : Expr} →
    Expr.match? r a b = some r' → Expr.Resembles a b
  | a, b, h => by
    by_cases hs : a.sameAs b
    · exact .same hs
    match a with
    | .leaf node content =>
      cases b with
      | leaf =>
        simp only [Expr.match?, if_neg hs, given_eq_some] at h
        exact .leaf hs h.1
      | _ => simp [Expr.match?, hs] at h
    | .var v =>
      cases b with
      | var =>
        simp only [Expr.match?, if_neg hs, given_eq_some, agrees, Bool.and_eq_true, beq_iff_eq] at h
        exact .var hs h.1.1
      | _ => simp [Expr.match?, hs] at h
    | .shape node values =>
      cases b with
      | shape =>
        simp only [Expr.match?, if_neg hs, given_eq_some, beq_iff_eq] at h
        obtain ⟨rfl, -⟩ := h
        exact .shape hs
      | _ => simp [Expr.match?, hs] at h
    | .prim node value dtype =>
      cases b with
      | prim =>
        simp only [Expr.match?, if_neg hs, given_eq_some, Bool.and_eq_true, beq_iff_eq] at h
        obtain ⟨⟨rfl, rfl⟩, -⟩ := h
        exact .prim hs
      | _ => simp [Expr.match?, hs] at h
    | .tuple node fields =>
      cases b with
      | tuple =>
        simp only [Expr.match?, if_neg hs] at h
        exact .tuple hs (Expr.resembleAll_of_matchAll? h)
      | _ => simp [Expr.match?, hs] at h
    | .item node whole index =>
      cases b with
      | item =>
        simp only [Expr.match?, if_neg hs, Option.ite_none_right_eq_some, beq_iff_eq] at h
        obtain ⟨rfl, h⟩ := h
        exact .item hs (Expr.resembles_of_match? h)
      | _ => simp [Expr.match?, hs] at h
    | .call node callee args attrs sinfoArgs =>
      cases b with
      | call =>
        simp only [Expr.match?, if_neg hs, Option.ite_none_right_eq_some, Bool.and_eq_true,
          beq_iff_eq, Option.bind_eq_some_iff] at h
        obtain ⟨⟨ha, rfl⟩, r1, h1, h2⟩ := h
        exact .call hs ha (Expr.resembles_of_match? h1) (Expr.resembleAll_of_matchAll? h2)
      | _ => simp [Expr.match?, hs] at h
    | .ite node cond onTrue onFalse =>
      cases b with
      | ite =>
        simp only [Expr.match?, if_neg hs, Option.bind_eq_some_iff] at h
        obtain ⟨r1, h1, r2, h2, h3⟩ := h
        exact .ite hs (Expr.resembles_of_match? h1) (Expr.resembles_of_match? h2)
          (Expr.resembles_of_match? h3)
      | _ => simp [Expr.match?, hs] at h
    | .seq node blocks body =>
      cases b with
      | seq =>
        simp only [Expr.match?, if_neg hs, Option.bind_eq_some_iff] at h
        obtain ⟨r1, h1, h2⟩ := h
        exact .seq hs (Block.resembleAll_of_matchAll? h1) (Expr.resembles_of_match? h2)
      | _ => simp [Expr.match?, hs] at h
    | .function node params body ret attrs =>
      cases b with
      | function =>
        simp only [Expr.match?, if_neg hs, Option.bind_eq_some_iff, Option.ite_none_right_eq_some,
          Bool.and_eq_true, beq_iff_eq] at h
        obtain ⟨r1, h1, ⟨rfl, ha⟩, h2⟩ := h
        exact .function hs (signature_of_defineAll h1) ha (Expr.resembles_of_match? h2)
      | _ => simp [Expr.match?, hs] at h

theorem Expr.resembleAll_of_matchAll? {r r' : Renaming} {as bs : List Expr} :
    Expr.matchAll? r as bs = some r' → Expr.ResembleAll as bs := by
  match as, bs with
  | [], [] =>
    intro _
    exact .nil
  | [], _ :: _ | _ :: _, [] =>
    intro h
    simp [Expr.matchAll?] at h
  | a :: as, b :: bs =>
    intro h
    simp only [Expr.matchAll?, Option.bind_eq_some_iff] at h
    obtain ⟨r1, h1, h2⟩ := h
    exact .cons (Expr.resembles_of_match? h1) (Expr.resembleAll_of_matchAll? h2)

theorem Binding.resembles_of_match? {r r' : Renaming} {a b : Binding} :
    Binding.match? r a b = some r' → Binding.Resembles a b := by
  match a, b with
  | .bind _ v value, .bind _ w value' =>
    intro h
    simp only [Binding.match?, Option.bind_eq_some_iff, define_eq_some] at h
    obtain ⟨r1, h1, h2, -⟩ := h
    exact .bind h2 (Expr.resembles_of_match? h1)
  | .cast _ v value sinfo, .cast _ w value' sinfo' =>
    intro h
    simp only [Binding.match?, Option.ite_none_right_eq_some, beq_iff_eq, Option.bind_eq_some_iff,
      define_eq_some] at h
    obtain ⟨rfl, r1, h1, h2, -⟩ := h
    exact .cast h2 (Expr.resembles_of_match? h1)
  | .bind _ _ _, .cast _ _ _ _ | .cast _ _ _ _, .bind _ _ _ =>
    intro h
    simp [Binding.match?] at h

theorem Binding.resembleAll_of_matchAll? {r r' : Renaming} {as bs : List Binding} :
    Binding.matchAll? r as bs = some r' → Binding.ResembleAll as bs := by
  match as, bs with
  | [], [] =>
    intro _
    exact .nil
  | [], _ :: _ | _ :: _, [] =>
    intro h
    simp [Binding.matchAll?] at h
  | a :: as, b :: bs =>
    intro h
    simp only [Binding.matchAll?, Option.bind_eq_some_iff] at h
    obtain ⟨r1, h1, h2⟩ := h
    exact .cons (Binding.resembles_of_match? h1) (Binding.resembleAll_of_matchAll? h2)

theorem Block.resembles_of_match? {r r' : Renaming} {a b : Block} :
    Block.match? r a b = some r' → Block.Resembles a b := by
  match a, b with
  | .mk _ kind bindings, .mk _ kind' bindings' =>
    intro h
    simp only [Block.match?, Option.ite_none_right_eq_some, beq_iff_eq] at h
    obtain ⟨rfl, h⟩ := h
    exact .mk (Binding.resembleAll_of_matchAll? h)

theorem Block.resembleAll_of_matchAll? {r r' : Renaming} {as bs : List Block} :
    Block.matchAll? r as bs = some r' → Block.ResembleAll as bs := by
  match as, bs with
  | [], [] =>
    intro _
    exact .nil
  | [], _ :: _ | _ :: _, [] =>
    intro h
    simp [Block.matchAll?] at h
  | a :: as, b :: bs =>
    intro h
    simp only [Block.matchAll?, Option.bind_eq_some_iff] at h
    obtain ⟨r1, h1, h2⟩ := h
    exact .cons (Block.resembles_of_match? h1) (Block.resembleAll_of_matchAll? h2)

end

/-- The renaming takes the binders around the left place to those around the right one, in their
order, and replaces no identity that is not in `N`. -/
structure Renaming.Links (N : Id → Prop) (r : Renaming) (bs cs : List Id) : Prop where
  linked : bs.map r.get? = cs.map some
  nodup : cs.Nodup
  named : ∀ y ∈ cs, N y
  rest : ∀ x, ¬ N x → r.get? x = none

namespace Renaming.Links

variable {N : Id → Prop} {r : Renaming} {bs cs : List Id} {v w : Var}

theorem empty (N : Id → Prop) : Renaming.Links N .empty [] [] := by
  exact ⟨rfl, List.nodup_nil, nofun, fun _ _ => rfl⟩

theorem length_eq (h : r.Links N bs cs) : bs.length = cs.length := by
  simpa using congrArg List.length h.linked

theorem define (h : r.Links N bs cs) (hv : v.Fresh N bs) (hw : w.Fresh N cs) :
    Renaming.Links N (r.insert v.id w.id) (Var.enter bs [v]) (Var.enter cs [w]) where
  linked := by
    have hkept : bs.map (r.insert v.id w.id).get? = bs.map r.get? := by
      refine List.map_congr_left fun x hx => ?_
      rw [IdTable.get?_insert, if_neg]
      rintro rfl
      exact hv.2 hx
    simp [Var.enter_singleton, hkept, h.linked, IdTable.get?_insert]
  nodup := List.nodup_cons.mpr ⟨hw.2, h.nodup⟩
  named := List.forall_mem_cons.mpr ⟨hw.1, h.named⟩
  rest := by
    intro x hx
    rw [IdTable.get?_insert, if_neg]
    · exact h.rest x hx
    · rintro rfl
      exact hx hv.1

theorem defineAll {vs ws : List Var} (h : r.Links N bs cs) (hv : Var.FreshAll N bs vs)
    (hw : Var.FreshAll N cs ws) (hs : vs.map Var.signature = ws.map Var.signature) :
    ∃ r' : Renaming, r.defineAll vs ws = some r' ∧
      r'.Links N (Var.enter bs vs) (Var.enter cs ws) := by
  induction vs generalizing ws r bs cs with
  | nil =>
    obtain rfl : ws = [] := List.map_eq_nil_iff.mp hs.symm
    exact ⟨r, rfl, h⟩
  | cons v vs ih =>
    obtain ⟨w, ws, rfl, hvw, hs⟩ := List.map_eq_cons_iff.mp hs.symm
    obtain ⟨r', hr, hl⟩ := ih (h.define hv.1 hw.1) hv.2 hw.2 hs.symm
    refine ⟨r', ?_, by rwa [Var.enter_cons, Var.enter_cons (v := w)]⟩
    rw [Renaming.defineAll, define_eq_some.mpr ⟨hvw.symm, rfl⟩, Option.bind_some, hr]

/-- The binders that go out of scope do not matter to those around them. -/
theorem leave {vs ws : List Var} (h : r.Links N (Var.enter bs vs) (Var.enter cs ws))
    (hl : bs.length = cs.length) : r.Links N bs cs := by
  have hm := h.linked
  rw [Var.enter, Var.enter, List.map_append, List.map_append] at hm
  exact ⟨(List.append_inj' hm (by simpa using hl)).2,
    h.nodup.sublist (List.sublist_append_right _ _),
    fun y hy => h.named y (List.mem_append_right _ hy), h.rest⟩

/-- A binder and the one linked to it have the same number of binders inside them. -/
private theorem exists_linked (h : r.Links N bs cs) {x : Id} (hx : x ∈ bs) :
    ∃ y ∈ cs, r.get? x = some y ∧ cs.idxOf y = bs.idxOf x := by
  have hi : bs.idxOf x < bs.length := List.idxOf_lt_length_of_mem hx
  have hj : bs.idxOf x < cs.length := h.length_eq ▸ hi
  refine ⟨cs[bs.idxOf x], List.getElem_mem hj, ?_, h.nodup.idxOf_getElem _ hj⟩
  have hm := congrArg (·[bs.idxOf x]?) h.linked
  simpa [List.getElem?_eq_getElem, hi, hj] using hm

/-- Uses correspond where they are uses of linked binders or of one free identity. -/
private theorem agrees_iff (h : r.Links N bs cs) (hv : v.id ∈ bs ∨ ¬ N v.id)
    (hd : v.dataflow = w.dataflow) : r.agrees v w ↔ Label.use bs v = Label.use cs w := by
  have hr : r.agrees v w ↔ (r.get? v.id).getD v.id = w.id := by simp [agrees, hd]
  rw [hr, Label.use, Label.use, hd]
  by_cases hb : v.id ∈ bs
  -- `v` stands for the variable of the linked binder, which is not free on the right.
  · obtain ⟨y, hy, hget, hidx⟩ := h.exists_linked hb
    rw [hget, if_pos hb, Option.getD_some, ← hidx]
    split
    · rw [Label.bound.injEq, and_iff_left rfl, List.idxOf_inj hy]
    · next hc => exact iff_of_false (fun he => hc (he ▸ hy)) nofun
  -- `v` stands for itself, and is not in `N`, as the binders on the right are.
  · have hn : ¬ N v.id := hv.resolve_left hb
    rw [h.rest _ hn, if_neg hb, Option.getD_none]
    split
    · next hc => exact iff_of_false (fun he => hn (he ▸ h.named _ hc)) nofun
    · rw [Label.free.injEq, and_iff_left rfl]

end Renaming.Links

section Links

variable {N : Id → Prop}

theorem isSome_bind_iff {α β : Type} {o : Option α} {f : α → Option β} {P Q : Prop}
    (ho : o.isSome ↔ P) (hf : ∀ x, o = some x → ((f x).isSome ↔ Q)) :
    (o.bind f).isSome ↔ P ∧ Q := by
  cases o with
  | none => simpa using fun hp => absurd (ho.mpr hp) nofun
  | some x => rw [Option.bind_some, hf x rfl, and_iff_right (ho.mp rfl)]

private theorem isSome_bind_of_isSome {α β : Type} {o : Option α} {f : α → Option β}
    (hf : ∀ x, (f x).isSome) : (o.bind f).isSome ↔ o.isSome := by
  rw [isSome_bind_iff Iff.rfl fun x _ => iff_true_intro (hf x), and_true]

mutual

/-- After a comparison the binders around it are linked as before. -/
theorem Expr.Resembles.links {a b : Expr} {r r' : Renaming} {bs cs : List Id}
    (ha : a.Hygienic N bs) (hb : b.Hygienic N cs) (hl : r.Links N bs cs)
    (hresembles : Expr.Resembles a b) : Expr.match? r a b = some r' → r'.Links N bs cs := by
  match hresembles with
  | .same hs =>
    intro h
    rw [Expr.match?.eq_def, if_pos hs, Option.some.injEq] at h
    exact h ▸ hl
  | .leaf hn _ | .var hn _ | .shape hn | .prim hn =>
    intro h
    simp only [Expr.match?, if_neg hn, given_eq_some] at h
    exact h.2 ▸ hl
  | .tuple hn hf =>
    intro h
    simp only [Expr.match?, if_neg hn] at h
    exact hf.links ha hb hl h
  | .item hn hw =>
    intro h
    simp only [Expr.match?, if_neg hn, Option.ite_none_right_eq_some] at h
    refine hw.links ?_ ?_ hl h.2
    · exact ha
    · exact hb
  | .call hn _ hc hargs =>
    intro h
    simp only [Expr.match?, if_neg hn, Option.ite_none_right_eq_some, Option.bind_eq_some_iff] at h
    obtain ⟨-, r1, h1, h2⟩ := h
    exact hargs.links ha.2 hb.2 (hc.links ha.1 hb.1 hl h1) h2
  | .ite hn hc ht hf =>
    intro h
    simp only [Expr.match?, if_neg hn, Option.bind_eq_some_iff] at h
    obtain ⟨r1, h1, r2, h2, h3⟩ := h
    have hl2 := ht.links ha.2.1 hb.2.1 (hc.links ha.1 hb.1 hl h1) h2
    exact hf.links ha.2.2 hb.2.2 hl2 h3
  | .seq hn hbs hy =>
    intro h
    simp only [Expr.match?, if_neg hn, Option.bind_eq_some_iff] at h
    obtain ⟨r1, h1, h2⟩ := h
    -- The entries of the bindings stay in the renaming after the end of the sequence.
    exact (hy.links ha.2 hb.2 (hbs.links ha.1 hb.1 hl h1) h2).leave hl.length_eq
  | .function hn hp _ hy =>
    intro h
    simp only [Expr.match?, if_neg hn, Option.bind_eq_some_iff, Option.ite_none_right_eq_some] at h
    obtain ⟨r1, h1, -, h2⟩ := h
    obtain ⟨r2, hr, hl2⟩ := hl.defineAll ha.1 hb.1 hp
    obtain rfl : r1 = r2 := Option.some.inj (h1.symm.trans hr)
    exact (hy.links ha.2 hb.2 hl2 h2).leave hl.length_eq

theorem Expr.ResembleAll.links {as bs : List Expr} {r r' : Renaming} {cs ds : List Id}
    (ha : Expr.HygienicAll N cs as) (hb : Expr.HygienicAll N ds bs) (hl : r.Links N cs ds)
    (hresembles : Expr.ResembleAll as bs) :
    Expr.matchAll? r as bs = some r' → r'.Links N cs ds := by
  match hresembles with
  | .nil =>
    intro h
    simp only [Expr.matchAll?, Option.some.injEq] at h
    exact h ▸ hl
  | .cons he hs =>
    intro h
    simp only [Expr.matchAll?, Option.bind_eq_some_iff] at h
    obtain ⟨r1, h1, h2⟩ := h
    exact hs.links ha.2 hb.2 (he.links ha.1 hb.1 hl h1) h2

theorem Binding.Resembles.links {a b : Binding} {r r' : Renaming} {bs cs : List Id}
    (ha : a.Hygienic N bs) (hb : b.Hygienic N cs) (hl : r.Links N bs cs)
    (hresembles : Binding.Resembles a b) :
    Binding.match? r a b = some r' → r'.Links N (Var.enter bs [a.var]) (Var.enter cs [b.var]) := by
  match hresembles with
  | .bind _ hv =>
    intro h
    simp only [Binding.match?, Option.bind_eq_some_iff, define_eq_some] at h
    obtain ⟨r1, h1, -, rfl⟩ := h
    exact (hv.links ha.1 hb.1 hl h1).define ha.2 hb.2
  | .cast _ hv =>
    intro h
    simp only [Binding.match?, Option.ite_none_right_eq_some, Option.bind_eq_some_iff,
      define_eq_some] at h
    obtain ⟨-, r1, h1, -, rfl⟩ := h
    exact (hv.links ha.1 hb.1 hl h1).define ha.2 hb.2

theorem Binding.ResembleAll.links {as bs : List Binding} {r r' : Renaming} {cs ds : List Id}
    (ha : Binding.HygienicAll N cs as) (hb : Binding.HygienicAll N ds bs) (hl : r.Links N cs ds)
    (hresembles : Binding.ResembleAll as bs) :
    Binding.matchAll? r as bs = some r' →
      r'.Links N (Var.enter cs (as.map Binding.var)) (Var.enter ds (bs.map Binding.var)) := by
  match hresembles with
  | .nil =>
    intro h
    simp only [Binding.matchAll?, Option.some.injEq] at h
    exact h ▸ hl
  | .cons he hs =>
    intro h
    simp only [Binding.matchAll?, Option.bind_eq_some_iff] at h
    obtain ⟨r1, h1, h2⟩ := h
    have hl2 := hs.links ha.2 hb.2 (he.links ha.1 hb.1 hl h1) h2
    rwa [← Var.enter_cons, ← Var.enter_cons] at hl2

theorem Block.Resembles.links {a b : Block} {r r' : Renaming} {bs cs : List Id}
    (ha : a.Hygienic N bs) (hb : b.Hygienic N cs) (hl : r.Links N bs cs)
    (hresembles : Block.Resembles a b) :
    Block.match? r a b = some r' → r'.Links N (Var.enter bs a.vars) (Var.enter cs b.vars) := by
  match hresembles with
  | .mk hbs =>
    intro h
    simp only [Block.match?, Option.ite_none_right_eq_some] at h
    exact hbs.links ha hb hl h.2

theorem Block.ResembleAll.links {as bs : List Block} {r r' : Renaming} {cs ds : List Id}
    (ha : Block.HygienicAll N cs as) (hb : Block.HygienicAll N ds bs) (hl : r.Links N cs ds)
    (hresembles : Block.ResembleAll as bs) :
    Block.matchAll? r as bs = some r' →
      r'.Links N (Var.enter cs (as.flatMap Block.vars)) (Var.enter ds (bs.flatMap Block.vars)) := by
  match hresembles with
  | .nil =>
    intro h
    simp only [Block.matchAll?, Option.some.injEq] at h
    exact h ▸ hl
  | .cons he hs =>
    intro h
    simp only [Block.matchAll?, Option.bind_eq_some_iff] at h
    obtain ⟨r1, h1, h2⟩ := h
    have hl2 := hs.links ha.2 hb.2 (he.links ha.1 hb.1 hl h1) h2
    rwa [← Var.enter_append, ← Var.enter_append] at hl2

end

mutual

/-- The comparison succeeds exactly where it ends at shared nodes and at variables of the same
binders. -/
theorem Expr.Resembles.isSome_iff {a b : Expr} {r : Renaming} {bs cs : List Id}
    (ha : a.Hygienic N bs) (hb : b.Hygienic N cs) (hl : r.Links N bs cs)
    (hresembles : Expr.Resembles a b) :
    ((Expr.match? r a b).isSome ↔ ∀ m ∈ Expr.meetings bs cs a b, m.Shared ∨ m.Faithful) := by
  match hresembles with
  | .same hs =>
    rw [Expr.match?.eq_def, if_pos hs, Expr.meetings_same hs, List.forall_mem_singleton]
    exact iff_of_true rfl (.inl hs)
  | .leaf hn h => simp [Expr.match?, Expr.meetings, if_neg hn, given, h]
  | .var hn hd =>
    have hv := hl.agrees_iff ha hd
    simp [Expr.match?, Expr.meetings, given, Meeting.Shared, Meeting.Faithful, Expr.form, hn, hv]
  | .shape hn => simp [Expr.match?, Expr.meetings, if_neg hn, given]
  | .prim hn => simp [Expr.match?, Expr.meetings, if_neg hn, given]
  | .tuple hn hf =>
    simp only [Expr.match?, Expr.meetings, if_neg hn]
    exact hf.isSome_iff ha hb hl
  | .item hn hw =>
    simp only [Expr.match?, Expr.meetings, if_neg hn, beq_self_eq_true, if_true]
    refine hw.isSome_iff ?_ ?_ hl
    · exact ha
    · exact hb
  | .call hn he hc hargs =>
    simp only [Expr.match?, Expr.meetings, if_neg hn, he, beq_self_eq_true, Bool.and_self, if_true,
      List.forall_mem_append]
    refine isSome_bind_iff (hc.isSome_iff ha.1 hb.1 hl) fun r1 h1 => ?_
    exact hargs.isSome_iff ha.2 hb.2 (hc.links ha.1 hb.1 hl h1)
  | .ite hn hc ht hf =>
    simp only [Expr.match?, Expr.meetings, if_neg hn, List.forall_mem_append]
    refine isSome_bind_iff (hc.isSome_iff ha.1 hb.1 hl) fun r1 h1 => ?_
    have hl1 := hc.links ha.1 hb.1 hl h1
    refine isSome_bind_iff (ht.isSome_iff ha.2.1 hb.2.1 hl1) fun r2 h2 => ?_
    exact hf.isSome_iff ha.2.2 hb.2.2 (ht.links ha.2.1 hb.2.1 hl1 h2)
  | .seq hn hbs hy =>
    simp only [Expr.match?, Expr.meetings, if_neg hn, List.forall_mem_append]
    refine isSome_bind_iff (hbs.isSome_iff ha.1 hb.1 hl) fun r1 h1 => ?_
    exact hy.isSome_iff ha.2 hb.2 (hbs.links ha.1 hb.1 hl h1)
  | .function hn hp he hy =>
    obtain ⟨r1, h1, hl1⟩ := hl.defineAll ha.1 hb.1 hp
    simp only [Expr.match?, Expr.meetings, if_neg hn, h1, Option.bind_some, he, beq_self_eq_true,
      Bool.and_self, if_true]
    exact hy.isSome_iff ha.2 hb.2 hl1

theorem Expr.ResembleAll.isSome_iff {as bs : List Expr} {r : Renaming} {cs ds : List Id}
    (ha : Expr.HygienicAll N cs as) (hb : Expr.HygienicAll N ds bs) (hl : r.Links N cs ds)
    (h : Expr.ResembleAll as bs) :
    ((Expr.matchAll? r as bs).isSome ↔ ∀ m ∈ Expr.meetingsAll cs ds as bs, m.Shared ∨ m.Faithful)
      := by
  match h with
  | .nil => simp [Expr.matchAll?, Expr.meetingsAll]
  | .cons he hs =>
    rw [Expr.matchAll?, Expr.meetingsAll, List.forall_mem_append]
    refine isSome_bind_iff (he.isSome_iff ha.1 hb.1 hl) fun r1 h1 => ?_
    exact hs.isSome_iff ha.2 hb.2 (he.links ha.1 hb.1 hl h1)

theorem Binding.Resembles.isSome_iff {a b : Binding} {r : Renaming} {bs cs : List Id}
    (ha : a.Hygienic N bs) (hb : b.Hygienic N cs) (hl : r.Links N bs cs)
    (h : Binding.Resembles a b) :
    ((Binding.match? r a b).isSome ↔ ∀ m ∈ Binding.meetings bs cs a b, m.Shared ∨ m.Faithful) := by
  match h with
  | .bind hs hv =>
    rw [Binding.match?, Binding.meetings, ← hv.isSome_iff ha.1 hb.1 hl]
    exact isSome_bind_of_isSome fun r1 => isSome_define hs
  | .cast hs hv =>
    rw [Binding.match?, Binding.meetings, ← hv.isSome_iff ha.1 hb.1 hl, if_pos BEq.rfl]
    exact isSome_bind_of_isSome fun r1 => isSome_define hs

theorem Binding.ResembleAll.isSome_iff {as bs : List Binding} {r : Renaming} {cs ds : List Id}
    (ha : Binding.HygienicAll N cs as) (hb : Binding.HygienicAll N ds bs) (hl : r.Links N cs ds)
    (h : Binding.ResembleAll as bs) :
    ((Binding.matchAll? r as bs).isSome ↔ ∀ m ∈ Binding.meetingsAll cs ds as bs, m.Shared ∨
      m.Faithful) := by
  match h with
  | .nil => simp [Binding.matchAll?, Binding.meetingsAll]
  | .cons he hs =>
    rw [Binding.matchAll?, Binding.meetingsAll, List.forall_mem_append]
    refine isSome_bind_iff (he.isSome_iff ha.1 hb.1 hl) fun r1 h1 => ?_
    exact hs.isSome_iff ha.2 hb.2 (he.links ha.1 hb.1 hl h1)

theorem Block.Resembles.isSome_iff {a b : Block} {r : Renaming} {bs cs : List Id}
    (ha : a.Hygienic N bs) (hb : b.Hygienic N cs) (hl : r.Links N bs cs) (h : Block.Resembles a b) :
    ((Block.match? r a b).isSome ↔ ∀ m ∈ Block.meetings bs cs a b, m.Shared ∨ m.Faithful) := by
  match h with
  | .mk hbs =>
    simp only [Block.match?, Block.meetings, beq_self_eq_true, if_true]
    exact hbs.isSome_iff ha hb hl

theorem Block.ResembleAll.isSome_iff {as bs : List Block} {r : Renaming} {cs ds : List Id}
    (ha : Block.HygienicAll N cs as) (hb : Block.HygienicAll N ds bs) (hl : r.Links N cs ds)
    (h : Block.ResembleAll as bs) :
    ((Block.matchAll? r as bs).isSome ↔ ∀ m ∈ Block.meetingsAll cs ds as bs, m.Shared ∨
      m.Faithful) := by
  match h with
  | .nil => simp [Block.matchAll?, Block.meetingsAll]
  | .cons he hs =>
    rw [Block.matchAll?, Block.meetingsAll, List.forall_mem_append]
    refine isSome_bind_iff (he.isSome_iff ha.1 hb.1 hl) fun r1 h1 => ?_
    exact hs.isSome_iff ha.2 hb.2 (he.links ha.1 hb.1 hl h1)

end

end Links

end DataflowIR
