import DataflowIR.Pass.Pipeline
import DataflowIR.Proofs.Rewrite.Steps
import DataflowIR.Traversal.TransformerTable

namespace DataflowIR

/-- The innermost block may have got more bindings; the blocks around it are as they were. -/
inductive Frame.Grows : List Frame → List Frame → Prop
  | none : Frame.Grows [] []
  | inner {frame frame' : Frame} {rest : List Frame} (h : frame.bindings <+: frame'.bindings) :
      Frame.Grows (frame :: rest) (frame' :: rest)

namespace Frame.Grows

theorem refl (frames : List Frame) : Grows frames frames := by
  cases frames with
  | nil => exact .none
  | cons _ _ => exact .inner (List.prefix_refl _)

theorem trans {frames frames' frames'' : List Frame} (h : Grows frames frames')
    (k : Grows frames' frames'') : Grows frames frames'' := by
  cases h with
  | none => exact k
  | inner h =>
    cases k with
    | inner k => exact .inner (h.trans k)

theorem length_eq {frames frames' : List Frame} (h : Grows frames frames') :
    frames'.length = frames.length := by
  cases h <;> rfl

end Frame.Grows

namespace Remap

/-- The replacements that closing the scopes one after the other brings back. -/
def restored (t : IdTable Var) : List (List RemapChange) → List (Id → Option Var)
  | [] => []
  | changes :: rest => (undo t changes).get? :: restored (undo t changes) rest

/-- The replacements of the scopes around the innermost one, from the inside out. -/
def enclosing (r : Remap) : List (Id → Option Var) :=
  restored r.table r.scopes

private theorem restored_congr {t u : IdTable Var} (h : ∀ id, t.get? id = u.get? id)
    (scopes : List (List RemapChange)) : restored t scopes = restored u scopes := by
  induction scopes generalizing t u with
  | nil => rfl
  | cons changes rest ih =>
    have hc := undo_congr h changes
    rw [restored, restored, ih hc, funext hc]

private theorem length_restored (t : IdTable Var) (scopes : List (List RemapChange)) :
    (restored t scopes).length = scopes.length := by
  induction scopes generalizing t with
  | nil => rfl
  | cons changes rest ih => rw [restored, List.length_cons, List.length_cons, ih]

private theorem length_enclosing (r : Remap) : r.enclosing.length = r.scopes.length :=
  length_restored r.table r.scopes

/-- What is put in is undone with the innermost scope. -/
private theorem enclosing_insert (r : Remap) (id : Id) (v : Var) :
    (r.insert id v).enclosing = r.enclosing := by
  obtain ⟨t, scopes⟩ := r
  cases scopes with
  | nil => rfl
  | cons changes rest =>
    have hundo : ∀ k, (undo (t.insert id v) ((id, t.get? id) :: changes)).get? k =
        (undo t changes).get? k := undo_congr (IdTable.get?_set_insert t id v) changes
    change restored (t.insert id v) (((id, t.get? id) :: changes) :: rest) =
      restored t (changes :: rest)
    rw [restored, restored, restored_congr hundo, funext hundo]

/-- Closing the innermost scope leaves the replacements around it. -/
private theorem closeScope?_of_enclosing {r : Remap} {around : Id → Option Var}
    {outer : List (Id → Option Var)} (h : r.enclosing = around :: outer) :
    ∃ u, r.closeScope? = some u ∧ u.get? = around ∧ u.enclosing = outer := by
  obtain ⟨t, scopes⟩ := r
  cases scopes with
  | nil => cases h
  | cons changes rest =>
    obtain ⟨hhead, htail⟩ := List.cons.inj h
    exact ⟨⟨undo t changes, rest⟩, rfl, hhead, htail⟩

end Remap

namespace Session

variable {σ α β : Type}

/-- As many blocks, scopes and scopes of replacements are open in `s'` as in `s`. The blocks around
the innermost one are as they were, the innermost one keeps its bindings, and closing the scopes of
replacements brings back what it would have brought back in `s`. -/
structure Balanced (s s' : Session σ) : Prop where
  frames : Frame.Grows s.builder.frames s'.builder.frames
  scopes : s'.builder.scopes.length = s.builder.scopes.length
  remapScopes : s'.remap.scopes.length = s.remap.scopes.length
  enclosing : s'.remap.enclosing = s.remap.enclosing

/-- Balanced, and every replacement is what it was. -/
structure Restored (s s' : Session σ) : Prop where
  balanced : s.Balanced s'
  remap : s'.remap.get? = s.remap.get?

namespace Balanced

variable {s s' s'' : Session σ}

theorem mk' (hf : Frame.Grows s.builder.frames s'.builder.frames)
    (hs : s'.builder.scopes.length = s.builder.scopes.length)
    (hr : s'.remap.enclosing = s.remap.enclosing) : s.Balanced s' := by
  refine ⟨hf, hs, ?_, hr⟩
  rw [← Remap.length_enclosing, hr, Remap.length_enclosing]

theorem refl (s : Session σ) : s.Balanced s :=
  .mk' (.refl _) rfl rfl

theorem trans (h : s.Balanced s') (k : s'.Balanced s'') : s.Balanced s'' := by
  refine .mk' ?_ ?_ ?_
  · exact h.frames.trans k.frames
  · exact k.scopes.trans h.scopes
  · exact k.enclosing.trans h.enclosing

/-- Only the client's data, the supply and the reports may differ. -/
theorem of_eq (hb : s'.builder = s.builder) (hr : s'.remap = s.remap) : s.Balanced s' := by
  exact .mk' (hb ▸ .refl _) (by rw [hb]) (by rw [hr])

/-- Ending a block takes the traversal back to the blocks around it. -/
theorem endBlock {kind : BlockKind} (h : ((beginBlock kind).exec s).2.Balanced s') :
    s.Balanced (endBlock.exec s').2 := by
  obtain ⟨hf, hs, -, he⟩ := h
  cases hframes : s'.builder.frames with
  | nil =>
    rw [hframes] at hf
    cases hf
  | cons frame rest =>
    rw [hframes] at hf
    cases hf with
    | inner =>
      rw [exec_endBlock, hframes]
      exact .mk' (.refl _) hs he

theorem endScope {params : List Var} (h : ((beginScope params).exec s).2.Balanced s') :
    s.Balanced (endScope.exec s').2 := by
  obtain ⟨hf, hs, -, he⟩ := h
  cases hscopes : s'.builder.scopes with
  | nil =>
    rw [hscopes] at hs
    cases hs
  | cons ids rest =>
    rw [hscopes] at hs
    rw [exec_endScope, hscopes]
    exact .mk' hf (Nat.succ.inj hs) he

/-- Closing a scope of replacements also takes back what was replaced in it. -/
theorem closeRemap (h : (openRemap.exec s).2.Balanced s') :
    s.Restored (closeRemap.exec s').2 := by
  obtain ⟨hf, hs, -, he⟩ := h
  obtain ⟨u, hu, hget, houter⟩ := Remap.closeScope?_of_enclosing he
  rw [exec_closeRemap, hu]
  exact ⟨.mk' hf hs houter, hget⟩

end Balanced

instance : IsPreorder (Session σ) Balanced where
  refl := .refl
  trans _ _ _ := .trans

instance : IsPreorder (Session σ) Restored where
  refl s := ⟨.refl s, rfl⟩
  trans _ _ _ h k := ⟨h.balanced.trans k.balanced, k.remap.trans h.remap⟩

end Session

/-- Whether it succeeds or fails, the computation takes every state to one that `R` relates it
to. -/
def Act.Always {σ α : Type} (R : σ → σ → Prop) (act : Act σ α) : Prop :=
  ∀ s, R s (act.exec s).2

namespace Act.Always

variable {σ α β : Type} {R : σ → σ → Prop}

theorem mono {S : σ → σ → Prop} {act : Act σ α} (h : act.Always R)
    (hRS : ∀ {s s'}, R s s' → S s s') : act.Always S := by
  intro s
  exact hRS (h s)

variable [IsPreorder σ R]

theorem pure (a : α) : (Pure.pure a : Act σ α).Always R := by
  intro s
  exact refl_of R s

theorem fail (f : Fault) : (Act.fail f : Act σ α).Always R := by
  intro s
  exact refl_of R s

theorem resume (r : Except Fault α) : (Act.resume r : Act σ α).Always R := by
  intro s
  rw [exec_resume]
  exact refl_of R s

theorem bind {act : Act σ α} {next : α → Act σ β} (h : act.Always R)
    (k : ∀ a, (next a).Always R) : (act >>= next).Always R := by
  intro s
  have hs := h s
  rw [exec_bind]
  revert hs
  rcases act.exec s with ⟨r, t⟩
  intro hs
  cases r with
  | ok a => exact trans_of R hs (k a t)
  | error f => exact hs

/-- What is only done where a condition does not fail. -/
private theorem failIf {c : Prop} [Decidable c] {f : Fault} {next : Unit → Act σ α}
    (h : (next ()).Always R) : (if c then Act.fail f >>= next else next ()).Always R := by
  split
  · exact .bind (.fail f) fun _ => h
  · exact h

/-- A list visited element by element. -/
theorem each {one : α → Act σ β} (visit : List α → Act σ (List β)) (hnil : visit [] = Pure.pure [])
    (hcons : ∀ a as, visit (a :: as) = do return (← one a) :: (← visit as))
    (h : ∀ a, (one a).Always R) (as : List α) : (visit as).Always R := by
  induction as with
  | nil =>
    rw [hnil]
    exact .pure _
  | cons a as ih =>
    rw [hcons]
    exact .bind (h a) fun _ => .bind ih fun _ => .pure _

end Act.Always

namespace Session

variable {σ α : Type}

theorem restored_of_eq {s s' : Session σ} (hb : s'.builder = s.builder)
    (hr : s'.remap = s.remap) : s.Restored s' := by
  exact ⟨.of_eq hb hr, by rw [hr]⟩

theorem fresh_restores : (fresh : Build σ Nat).Always Restored := by
  intro _
  exact restored_of_eq rfl rfl

theorem freshMark_restores (span : Option Span) :
    (freshMark span : Build σ Mark).Always Restored := by
  intro _
  exact restored_of_eq rfl rfl

theorem report_restores (e : Event) : (report e : Build σ Unit).Always Restored := by
  intro _
  exact restored_of_eq rfl rfl

theorem getBuilder_restores : (getBuilder : Build σ Builder).Always Restored := by
  intro _
  exact restored_of_eq rfl rfl

theorem getRemap?_restores (id : Id) : (getRemap? id : Build σ (Option Var)).Always Restored := by
  intro _
  exact restored_of_eq rfl rfl

theorem normalize_restores (e : Expr) : (normalize e : Build σ Expr).Always Restored := by
  refine .bind getBuilder_restores fun b => .bind (.resume _) fun sinfo => ?_
  cases sinfo with
  | none => exact .pure _
  | some i => exact .bind fresh_restores fun _ => .pure _

theorem retype_restores (v : Var) (sinfo : Option StructInfo) :
    (retype v sinfo : Build σ Var).Always Restored := by
  cases sinfo with
  | none => exact .pure _
  | some i =>
    rw [retype]
    split
    · exact .pure _
    · exact .bind fresh_restores fun _ => .pure _

private theorem requestName_restores (hint : String) :
    (requestName hint : Build σ String).Always Restored := by
  intro _
  exact ⟨.mk' (.refl _) rfl rfl, rfl⟩

private theorem freshVar_restores (hint : String) (sinfo : Option StructInfo) (dataflow : Bool) :
    (freshVar hint sinfo dataflow : Build σ Var).Always Restored := by
  refine .bind (requestName_restores _) fun _ => ?_
  refine .bind (freshMark_restores _) fun _ => ?_
  exact .bind (.bind fresh_restores fun _ => .pure _) fun _ => .pure _

private theorem push_grows {b b' : Builder} {binding : Binding} (h : b.push binding = .ok b') :
    Frame.Grows b.frames b'.frames ∧ b'.scopes = b.scopes := by
  obtain ⟨frame, rest, hf, -, rfl⟩ := Builder.push_ok h
  rw [hf]
  exact ⟨.inner (List.prefix_append _ _), rfl⟩

theorem emitBinding_restores (b : Binding) : (emitBinding b : Build σ Unit).Always Restored := by
  intro s
  rw [exec_emitBinding]
  cases hp : s.builder.push b with
  | error f => exact restored_of_eq rfl rfl
  | ok builder =>
    obtain ⟨hf, hs⟩ := push_grows hp
    exact ⟨.mk' hf (congrArg List.length hs) rfl, rfl⟩

private theorem emitValue_restores (value : Expr) (hint : String) (dataflow : Bool) :
    (emitValue value hint dataflow : Build σ Var).Always Restored := by
  refine .bind (normalize_restores _) fun _ => ?_
  refine .bind (freshVar_restores _ _ _) fun _ => ?_
  refine .bind (freshMark_restores _) fun _ => ?_
  exact .bind (emitBinding_restores _) fun _ => .pure _

theorem emit_restores (value : Expr) (hint : String) :
    (emit value hint : Build σ Var).Always Restored := by
  exact .bind getBuilder_restores fun _ => .failIf (emitValue_restores _ _ _)

/-- A replacement is put in; what closing the scopes brings back stays. -/
theorem setRemap_balances (id : Id) (v : Var) : (setRemap id v : Build σ Unit).Always Balanced := by
  intro _
  exact .mk' (.refl _) rfl (Remap.enclosing_insert _ _ _)

end Session

end DataflowIR
