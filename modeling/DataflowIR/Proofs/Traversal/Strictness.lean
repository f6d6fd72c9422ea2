import DataflowIR.Proofs.Traversal.Order

namespace DataflowIR

/-- What recording handlers are supplied for. The handler for expressions goes on with the node of
the kind or, past the handler of the kind, with the parts at once. -/
structure Coverage where
  supplied : Slot → Bool
  direct : Expr → Bool

namespace Coverage

/-- The places passed next below a place. -/
def onward (c : Coverage) : Site → List Site
  | .expr e => if c.supplied .expr && c.direct e then e.sites else [.exprKind e]
  | s => s.below

/-- The slot of the kind of the place, if no handler is supplied for it. -/
def gap (c : Coverage) (s : Site) : Option Slot :=
  s.slot?.filter fun slot => slot.isOfKind && !c.supplied slot

variable {σ : Type}

/-- Record the node, then go on with the default. -/
def handler (c : Coverage) (record : Site → σ → σ) : Visitor σ :=
  fun self s => do
    modify (record s)
    Visitor.visitAll self (c.onward s)

def table (c : Coverage) (record : Site → σ → σ) (strict : Bool) : VisitorTable σ where
  handler slot := if c.supplied slot then some (c.handler record) else none
  strict := strict

/-- The visitor that is not strict; each place that it comes to is noted down, with what is
recorded by then. -/
def tracing (c : Coverage) (record : Site → σ → σ) : Visitor (σ × List (Site × σ)) :=
  fun self s => do
    modify fun p => (p.1, p.2 ++ [(s, p.1)])
    (c.table (fun s p => (record s p.1, p.2)) false).visitor self s

end Coverage

namespace Visitor

variable {σ : Type}

/-- Act at a place, then visit the places that come next. -/
def stepwise (act : Site → Act σ Unit) (next : Site → List Site) : Visitor σ :=
  fun self s => do
    act s
    visitAll self (next s)

private theorem visitAll_append (act : Site → Act σ Unit) (sites sites' : List Site) :
    visitAll act (sites ++ sites') = (do visitAll act sites; visitAll act sites') := by
  induction sites with
  | nil => rw [List.nil_append, visitAll, pure_bind]
  | cons s rest ih => rw [List.cons_append, visitAll, visitAll, ih, bind_assoc]

private theorem visitAll_congr {act act' : Site → Act σ Unit} {sites : List Site}
    (h : ∀ s ∈ sites, act s = act' s) : visitAll act sites = visitAll act' sites := by
  induction sites with
  | nil => rfl
  | cons s rest ih =>
    obtain ⟨hs, hrest⟩ := List.forall_mem_cons.mp h
    rw [visitAll, visitAll, hs, ih hrest]

private theorem visitAll_visitAll (act : Site → Act σ Unit) (f : Site → List Site)
    (sites : List Site) :
    visitAll (fun s => visitAll act (f s)) sites = visitAll act (sites.flatMap f) := by
  induction sites with
  | nil => rfl
  | cons s rest ih => rw [visitAll, ih, List.flatMap_cons, visitAll_append]

end Visitor

namespace Coverage

variable (c : Coverage)

private theorem height_onward {s s' : Site} (h : s' ∈ c.onward s) : s'.height < s.height := by
  cases s with
  | expr e =>
    rw [onward] at h
    split at h
    · exact (Site.height_of_mem_sites h).trans (Nat.lt_succ_self _)
    · exact Site.height_below h
  | exprKind | binding | bindingKind | block | blockKind | varDef | varDefKind | type | span | dim =>
    exact Site.height_below h

/-- All places from the place on, in the order in which they are passed. -/
def passed (s : Site) : List Site :=
  s :: (c.onward s).attach.flatMap fun s' => passed s'.1
termination_by s.height
decreasing_by exact c.height_onward s'.2

private theorem passed_eq (s : Site) : c.passed s = s :: (c.onward s).flatMap c.passed := by
  rw [passed, List.flatMap_subtype fun _ _ => rfl, List.unattach_attach]

variable {σ : Type}

/-- By induction on the fuel, which is enough for the places below where it is enough for a
place. -/
private theorem stepwise_run (act : Site → Act σ Unit) {fuel : Fuel} {s : Site}
    (h : s.height ≤ fuel.toNat) :
    (Visitor.stepwise act c.onward).run fuel s = Visitor.visitAll act (c.passed s) := by
  induction fuel generalizing s with
  | spent => exact absurd s.height_pos (Nat.not_lt.mpr h)
  | step rest ih =>
    have hnext : ∀ s' ∈ c.onward s, (Visitor.stepwise act c.onward).run (rest ()) s' =
        Visitor.visitAll act (c.passed s') := fun s' hs' =>
      ih () (Nat.le_of_lt_succ ((c.height_onward hs').trans_le h))
    rw [passed_eq, Visitor.visitAll, ← Visitor.visitAll_visitAll, ← Visitor.visitAll_congr hnext]
    rfl

variable (record : Site → σ → σ)

/-- What is done at a place before those below it are passed. -/
def act (strict : Bool) (s : Site) : Act σ Unit :=
  match s.slot? with
  | none => pure ()
  | some slot =>
    if c.supplied slot then modify (record s)
    else if strict && slot.isOfKind then Act.fail (.handlerMissing slot.name)
    else pure ()

/-- What is recorded after a place that does not fail. -/
def recordAt (s : Site) (d : σ) : σ :=
  if s.slot?.any c.supplied then record s d else d

/-- The places that are come to, each with what is recorded by then. -/
def arrivals : List Site → σ → List (Site × σ)
  | [], _ => []
  | s :: rest, d => (s, d) :: arrivals rest (c.recordAt record s d)

theorem map_arrivals (sites : List Site) (d : σ) :
    (c.arrivals record sites d).map Prod.fst = sites := by
  induction sites generalizing d with
  | nil => rfl
  | cons s rest ih => rw [arrivals, List.map_cons, ih]

variable {c} in
private theorem onward_of_unsupplied {s : Site} {slot : Slot} (hs : s.slot? = some slot)
    (h : c.supplied slot = false) : c.onward s = s.below := by
  cases s with
  | expr e =>
    cases hs
    rw [onward, h]
    rfl
  | exprKind | binding | bindingKind | block | blockKind | varDef | varDefKind | type | span | dim =>
    rfl

private theorem table_visitor (strict : Bool) :
    (c.table record strict).visitor = Visitor.stepwise (c.act record strict) c.onward := by
  funext self s
  rw [VisitorTable.visitor, Visitor.stepwise, act]
  cases hs : s.slot? with
  | none => cases s <;> first | rfl | cases hs
  | some slot =>
    cases h : c.supplied slot with
    | true => simp only [table, h, if_true, handler]
    | false =>
      simp only [table, h, Bool.false_eq_true, if_false]
      by_cases hk : (strict && slot.isOfKind) = true
      · simp only [hk, if_true]
        rfl
      · simp only [hk, Bool.false_eq_true, if_false, pure_bind, Visitor.walk,
          onward_of_unsupplied hs h]

variable {c record} in
private theorem act_exec {strict : Bool} {s : Site} (d : σ) (h : strict = false ∨ c.gap s = none) :
    (c.act record strict s).exec d = (.ok (), c.recordAt record s d) := by
  rw [act, recordAt]
  cases hs : s.slot? with
  | none => rfl
  | some slot =>
    cases hc : c.supplied slot with
    | true => simp [hc]
    | false =>
      have hk : (strict && slot.isOfKind) = false := by
        rw [Bool.and_eq_false_iff]
        exact h.imp_right fun h => by simpa [gap, hs, hc] using h
      simp [hc, hk]

variable {c} in
private theorem act_exec_of_gap {s : Site} {slot : Slot} (d : σ) (h : c.gap s = some slot) :
    (c.act record true s).exec d = (.error (.handlerMissing slot.name), d) := by
  obtain ⟨hs, hslot⟩ := Option.filter_eq_some_iff.mp h
  obtain ⟨hk, hc⟩ := (Bool.and_eq_true _ _).mp hslot
  rw [Bool.not_eq_true'] at hc
  simp [act, hs, hk, hc]

/-- What is recorded after all places. -/
def recordAll (sites : List Site) (d : σ) : σ :=
  sites.foldl (fun d s => c.recordAt record s d) d

variable {c record} in
/-- A visitor that fails nowhere passes all places. -/
theorem visitAll_act {strict : Bool} {sites : List Site}
    (h : strict = false ∨ ∀ s ∈ sites, c.gap s = none) (d : σ) :
    (Visitor.visitAll (c.act record strict) sites).exec d =
      (.ok (), c.recordAll record sites d) := by
  induction sites generalizing d with
  | nil => rfl
  | cons s rest ih =>
    rw [Visitor.visitAll, Act.exec_bind,
      act_exec d (h.imp_right fun h => h s List.mem_cons_self)]
    exact ih (h.imp_right fun h s hs => h s (List.mem_cons_of_mem _ hs)) _

variable {c} in
/-- A strict visitor does not come past the first gap. -/
private theorem visitAll_act_of_gap {before after : List Site} {s : Site} {slot : Slot}
    (hb : ∀ s ∈ before, c.gap s = none) (hs : c.gap s = some slot) (d : σ) :
    (Visitor.visitAll (c.act record true) (before ++ s :: after)).exec d =
      (.error (.handlerMissing slot.name), c.recordAll record before d) := by
  rw [Visitor.visitAll_append, Act.exec_bind, visitAll_act (.inr hb), Visitor.visitAll]
  show Act.exec _ _ = _
  rw [Act.exec_bind, act_exec_of_gap record _ hs]

private theorem arrivals_append (sites sites' : List Site) (d : σ) :
    c.arrivals record (sites ++ sites') d =
      c.arrivals record sites d ++ c.arrivals record sites' (c.recordAll record sites d) := by
  induction sites generalizing d with
  | nil => rfl
  | cons s rest ih => rw [List.cons_append, arrivals, ih]; rfl

variable {c record} in
/-- The data with which a place is come to are what was recorded before it. -/
private theorem eq_of_arrivals_eq {sites : List Site} {d d' : σ} {s : Site}
    {before after : List (Site × σ)} (h : c.arrivals record sites d = before ++ (s, d') :: after) :
    sites = before.map Prod.fst ++ s :: after.map Prod.fst ∧
      d' = c.recordAll record (before.map Prod.fst) d := by
  have hsites : sites = before.map Prod.fst ++ s :: after.map Prod.fst := by
    simpa using congrArg (List.map Prod.fst) h |>.symm.trans (c.map_arrivals record sites d) |>.symm
  refine ⟨hsites, ?_⟩
  rw [hsites, arrivals_append] at h
  have hlen : (c.arrivals record (before.map Prod.fst) d).length = before.length := by
    rw [← List.length_map Prod.fst, c.map_arrivals, List.length_map]
  obtain ⟨-, htail⟩ := List.append_inj h hlen
  exact (Prod.mk.inj (List.cons.inj htail).1).2.symm

private theorem recordAt_fst (s : Site) (p : σ × List (Site × σ)) :
    c.recordAt (fun s p => (record s p.1, p.2)) s p = (c.recordAt record s p.1, p.2) := by
  unfold recordAt
  split <;> rfl

/-- What the traced run does at a place. -/
def traceAct (s : Site) : Act (σ × List (Site × σ)) Unit := do
  modify fun p => (p.1, p.2 ++ [(s, p.1)])
  c.act (fun s p => (record s p.1, p.2)) false s

private theorem tracing_eq : c.tracing record = Visitor.stepwise (c.traceAct record) c.onward := by
  funext self s
  rw [tracing, table_visitor, Visitor.stepwise, Visitor.stepwise, traceAct, bind_assoc]

/-- The traced run passes all places, and notes down what it comes to. -/
private theorem visitAll_traceAct (sites : List Site) (d : σ) (log : List (Site × σ)) :
    (Visitor.visitAll (c.traceAct record) sites).exec (d, log) =
      (.ok (), c.recordAll record sites d, log ++ c.arrivals record sites d) := by
  induction sites generalizing d log with
  | nil => rw [arrivals, List.append_nil]; rfl
  | cons s rest ih =>
    rw [Visitor.visitAll, traceAct, bind_assoc, Act.exec_bind, Act.exec_modify]
    show Act.exec _ _ = _
    rw [Act.exec_bind, act_exec _ (.inl rfl), recordAt_fst]
    show Act.exec _ _ = _
    rw [ih, List.append_assoc]
    rfl

variable {c record}

theorem table_run (strict : Bool) (e : Expr) (d : σ) :
    ((c.table record strict).visitor.run e.fuel (.expr e)).exec d =
      (Visitor.visitAll (c.act record strict) (c.passed (.expr e))).exec d := by
  rw [table_visitor, c.stepwise_run _ (Site.height_le_fuel e)]

private theorem tracing_run (e : Expr) (d : σ) :
    ((c.tracing record).run e.fuel (.expr e)).exec (d, []) =
      (.ok (), c.recordAll record (c.passed (.expr e)) d,
        c.arrivals record (c.passed (.expr e)) d) := by
  rw [tracing_eq, c.stepwise_run _ (Site.height_le_fuel e)]
  exact c.visitAll_traceAct record _ d []

private theorem strict_run_of_no_gap {e : Expr} {d : σ}
    (h : ∀ a ∈ c.arrivals record (c.passed (.expr e)) d, c.gap a.1 = none) :
    ((c.table record true).visitor.run e.fuel (.expr e)).exec d =
      (.ok (), c.recordAll record (c.passed (.expr e)) d) := by
  rw [table_run]
  refine visitAll_act (.inr fun s hs => ?_) d
  rw [← c.map_arrivals record (c.passed (.expr e)) d] at hs
  obtain ⟨a, ha, rfl⟩ := List.mem_map.mp hs
  exact h a ha

private theorem strict_run_of_gap {e : Expr} {d d' : σ} {s : Site} {slot : Slot}
    {before after : List (Site × σ)}
    (h : c.arrivals record (c.passed (.expr e)) d = before ++ (s, d') :: after)
    (hb : ∀ a ∈ before, c.gap a.1 = none) (hs : c.gap s = some slot) :
    ((c.table record true).visitor.run e.fuel (.expr e)).exec d =
      (.error (.handlerMissing slot.name), d') := by
  obtain ⟨hsites, rfl⟩ := eq_of_arrivals_eq h
  rw [table_run, hsites]
  exact visitAll_act_of_gap record (List.forall_mem_map.mpr hb) hs d

/-- Where there is a gap, there is a first one. -/
private theorem exists_first_gap {arrivals : List (Site × σ)}
    (h : ∃ a ∈ arrivals, c.gap a.1 ≠ none) :
    ∃ before s d slot after, arrivals = before ++ (s, d) :: after ∧
      (∀ a ∈ before, c.gap a.1 = none) ∧ c.gap s = some slot := by
  have hfind : (arrivals.find? fun a => (c.gap a.1).isSome).isSome := by
    obtain ⟨a, ha, hgap⟩ := h
    exact List.find?_isSome.mpr ⟨a, ha, Option.isSome_iff_ne_none.mpr hgap⟩
  obtain ⟨⟨s, d⟩, hs⟩ := Option.isSome_iff_exists.mp hfind
  obtain ⟨hslot, before, after, heq, hbefore⟩ := List.find?_eq_some_iff_append.mp hs
  obtain ⟨slot, hslot⟩ := Option.isSome_iff_exists.mp hslot
  exact ⟨before, s, d, slot, after, heq, fun a ha => by simpa using hbefore a ha, hslot⟩

variable (c record)

/-- A strict visitor fails on an expression exactly if the one that is not strict comes to a place
of a kind without a handler. The fault then names the handler of the first such place, and what is
recorded by then is what the other visitor had recorded when it came there. -/
theorem strict_stops_at_first_gap (e : Expr) (d : σ) :
    ∃ last arrivals,
      ((c.tracing record).run e.fuel (.expr e)).exec (d, []) = (.ok (), last, arrivals) ∧
      arrivals.map Prod.fst = c.passed (.expr e) ∧
      ((c.table record false).visitor.run e.fuel (.expr e)).exec d = (.ok (), last) ∧
      let strict := ((c.table record true).visitor.run e.fuel (.expr e)).exec d
      ((∃ fault, strict.1 = .error fault) ↔ ∃ a ∈ arrivals, c.gap a.1 ≠ none) ∧
      ((∀ a ∈ arrivals, c.gap a.1 = none) → strict = (.ok (), last)) ∧
      ∀ before s d' after slot, arrivals = before ++ (s, d') :: after →
        (∀ a ∈ before, c.gap a.1 = none) → c.gap s = some slot →
          strict = (.error (.handlerMissing slot.name), d') := by
  refine ⟨_, _, tracing_run e d, c.map_arrivals record _ d,
    (table_run false e d).trans (visitAll_act (.inl rfl) d), ⟨?_, fun h => ?_⟩,
    strict_run_of_no_gap, fun _ _ _ _ _ => strict_run_of_gap⟩
  · rintro ⟨fault, hf⟩
    by_contra hno
    push Not at hno
    rw [strict_run_of_no_gap hno] at hf
    cases hf
  · obtain ⟨before, s, d', slot, after, heq, hb, hs⟩ := exists_first_gap h
    rw [strict_run_of_gap heq hb hs]
    exact ⟨_, rfl⟩

example :
    let f : Expr := .function ⟨⟨0, none⟩, none⟩ [⟨⟨⟨1, none⟩, none⟩, ⟨0, "x"⟩, false⟩]
      (.tuple ⟨⟨2, none⟩, none⟩ []) .object default
    let c : Coverage := ⟨(· = .exprKind .function), fun _ => false⟩
    ((c.table (fun _ n => n + 1) true).visitor.run f.fuel (.expr f)).exec 0 =
      (.error (.handlerMissing "visit_var_def_"), 1) := by
  rfl

end Coverage

end DataflowIR
