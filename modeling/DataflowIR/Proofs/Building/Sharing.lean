import DataflowIR.Build.Workshop
import DataflowIR.Proofs.Building.Names
import DataflowIR.Proofs.Building.Refusals

namespace DataflowIR

/-- The table has been asked for the hints of the draws. -/
def Builder.Counts (b : Builder) (draws : List Draw) : Prop :=
  ∀ hint, b.names.count hint = (Draw.hints draws).count hint

/-- A request takes the next name for its hint, or leaves the table as it is. -/
theorem Builder.Turn.draws {b b' : Builder} {next : Nat} {step? : Option BuildStep}
    {draw? : Option Draw} {draws : List Draw} (ht : b.Turn next step? draw? b')
    (hs : b.ScopesBelow next) (hn : Draw.Numbered draws) (hc : b.Counts draws) :
    Draw.Numbered (draws ++ draw?.toList) ∧ b'.Counts (draws ++ draw?.toList) := by
  have named : ∀ hint, Draw.Numbered (draws ++ [⟨hint, (b.requestName hint).1⟩]) ∧
      (b.requestName hint).2.Counts (draws ++ [⟨hint, (b.requestName hint).1⟩]) := by
    intro hint
    refine ⟨?_, fun hint' => ?_⟩
    · have h := hn.snoc hint
      rwa [← hc hint] at h
    · refine (NameTable.count_request _ _ _).trans ?_
      rw [Draw.hints_snoc, List.count_append, List.count_singleton, ← hc hint']
      by_cases he : hint' = hint
      · simp [he]
      · simp [he, Ne.symm he]
  cases ht with
  | quiet | begun | ended | scopeBegun | scopeEnded =>
    rw [Option.toList_none, List.append_nil]
    exact ⟨hn, hc⟩
  | emitted hp =>
    obtain ⟨_, _, -, -, rfl⟩ := push_ok hp
    rw [Option.toList_none, List.append_nil]
    exact ⟨hn, hc⟩
  | named hint => exact named hint
  | emittedNew hint hp =>
    obtain ⟨_, _, -, -, rfl⟩ := push_ok hp
    exact named hint
  | lost hint hid hp =>
    rw [hs.isParameter_eq_false hid] at hp
    cases hp

namespace Workshop

/-- What is done in a workshop: builders are added, and asked by their numbers. -/
inductive Job where
  | add (rules : Rules)
  | addSharing (rules : Rules) (i : Nat)
  | ask (i : Nat) (r : Request)

/-- The request with the builder that it goes to, and the number of that builder's table. -/
def exchange? (w : Workshop) (i : Nat) (r : Request) : Option (Nat × Exchange Unit) :=
  w.builders[i]?.map fun e => (e.1, ⟨⟨(), e.2, .empty, w.world⟩, r⟩)

def perform (w : Workshop) : Job → Workshop
  | .add rules => w.add rules
  | .addSharing rules i => w.addSharing rules i
  | .ask i r =>
    match w.runOn i (Session.serve r) with
    | some (_, w') => w'
    | none => w

/-- The name that the job takes, with the number of the table. -/
def draw? (w : Workshop) : Job → Option (Nat × Draw)
  | .add _ | .addSharing _ _ => none
  | .ask i r => (w.exchange? i r).bind fun x => x.2.draw?.map (x.1, ·)

def draws (w : Workshop) : List Job → List (Nat × Draw)
  | [] => []
  | job :: jobs => (w.draw? job).toList ++ draws (w.perform job) jobs

def admits (w : Workshop) : Job → Bool
  | .add _ | .addSharing _ _ => true
  | .ask i r => (w.exchange? i r).all fun x => x.2.allocated

/-- Whether all scopes that are begun have parameters with identities from the supply. -/
def admitsAll (w : Workshop) : List Job → Bool
  | [] => true
  | job :: jobs => w.admits job && admitsAll (w.perform job) jobs

private theorem ask_of_none {w : Workshop} {i : Nat} {r : Request} (h : w.builders[i]? = none) :
    w.draw? (.ask i r) = none ∧ w.perform (.ask i r) = w := by
  simp [draw?, exchange?, perform, runOn, h]

private theorem ask_of_some {w : Workshop} {i : Nat} {r : Request} {e : Nat × Builder}
    (h : w.builders[i]? = some e) :
    let x : Exchange Unit := ⟨⟨(), e.2, .empty, w.world⟩, r⟩
    w.draw? (.ask i r) = x.draw?.map (e.1, ·) ∧
      w.perform (.ask i r) = { w.set i e.1 x.after.builder with world := x.after.world } := by
  simp [draw?, exchange?, perform, runOn, h, Exchange.after]

/-- The draws from one of the tables. -/
def drawsFrom (table : Nat) (draws : List (Nat × Draw)) : List Draw :=
  draws.filterMap fun d => if d.1 = table then some d.2 else none

theorem drawsFrom_append (t table : Nat) (past : List (Nat × Draw)) (draw? : Option Draw) :
    drawsFrom t (past ++ (draw?.map (table, ·)).toList) =
      if table = t then drawsFrom t past ++ draw?.toList else drawsFrom t past := by
  unfold drawsFrom
  rw [List.filterMap_append]
  cases draw? with
  | none => simp
  | some d => split <;> simp [*]

/-- The builders agree with what was drawn from their tables. -/
structure Tallies (w : Workshop) (past : List (Nat × Draw)) : Prop where
  numbered : ∀ table, Draw.Numbered (drawsFrom table past)
  counts : ∀ e ∈ w.builders, e.2.Counts (drawsFrom e.1 past)
  scopes : ∀ e ∈ w.builders, e.2.ScopesBelow w.world.next
  tables : ∀ e ∈ w.builders, e.1 < w.tables
  unused : ∀ table, w.tables ≤ table → drawsFrom table past = []

/-- Other builders take over the names of the builder that is put back, if they share its table. -/
theorem mem_set {w : Workshop} {i table : Nat} {b : Builder} {e : Nat × Builder}
    (h : e ∈ (w.set i table b).builders) : e = (table, b) ∨ ∃ e₀ ∈ w.builders, e.1 = e₀.1 ∧
      e.2.scopes = e₀.2.scopes ∧
        e.2.names = if e.1 = table then b.names else e₀.2.names := by
  rcases List.mem_or_eq_of_mem_set h with h | h
  · obtain ⟨e₀, he₀, rfl⟩ := List.mem_map.mp h
    refine .inr ⟨e₀, he₀, ?_⟩
    split
    all_goals exact ⟨rfl, rfl, rfl⟩
  · exact .inl h

namespace Tallies

variable {w : Workshop} {past : List (Nat × Draw)}

private theorem append_builder (h : w.Tallies past) {tables table : Nat} {b : Builder}
    (hc : b.Counts (drawsFrom table past)) (hs : b.scopes = []) (ht : table < tables)
    (hle : w.tables ≤ tables) :
    Tallies { w with builders := w.builders ++ [(table, b)], tables } past where
  numbered := h.numbered
  counts e he := by
    rcases List.mem_append.mp he with he | he
    · exact h.counts e he
    · rw [List.mem_singleton.mp he]
      exact hc
  scopes e he := by
    rcases List.mem_append.mp he with he | he
    · exact h.scopes e he
    · rw [List.mem_singleton.mp he, Builder.ScopesBelow, hs]
      exact List.forall_mem_nil _
  tables e he := by
    rcases List.mem_append.mp he with he | he
    · exact (h.tables e he).trans_le hle
    · rw [List.mem_singleton.mp he]
      exact ht
  unused table hle' := h.unused table (hle.trans hle')

theorem add (h : w.Tallies past) (rules : Rules) : (w.add rules).Tallies past := by
  refine h.append_builder ?_ rfl (Nat.lt_succ_self _) (Nat.le_succ _)
  rw [h.unused _ (le_refl _)]
  exact fun _ => rfl

theorem addSharing (h : w.Tallies past) (rules : Rules) (i : Nat) :
    (w.addSharing rules i).Tallies past := by
  unfold Workshop.addSharing
  split
  · next table b hb =>
    have he := List.mem_of_getElem? hb
    exact h.append_builder (h.counts _ he) rfl (h.tables _ he) (le_refl _)
  · exact h.add rules

theorem ask (h : w.Tallies past) {i table : Nat} {x : Exchange Unit}
    (hb : (table, x.before.builder) ∈ w.builders) (hw : x.before.world = w.world)
    (ha : x.allocated) :
    Tallies { w.set i table x.after.builder with world := x.after.world }
      (past ++ (x.draw?.map (table, ·)).toList) := by
  obtain ⟨hle, ht⟩ := x.turn
  have hscopes := h.scopes _ hb
  rw [← hw] at hscopes
  obtain ⟨hnumbered, hcounts⟩ := ht.draws hscopes (h.numbered table) (h.counts _ hb)
  rw [hw] at hle
  refine ⟨fun t => ?_, fun e he => ?_, fun e he => ?_, fun e he => ?_, fun t hle' => ?_⟩
  · rw [drawsFrom_append]
    split
    · next ht => exact ht ▸ hnumbered
    · exact h.numbered t
  · rw [drawsFrom_append]
    rcases mem_set he with rfl | ⟨e₀, he₀, htable, -, hnames⟩
    · rw [if_pos rfl]
      exact hcounts
    · intro hint
      rw [hnames]
      split
      · next ht =>
        rw [if_pos ht.symm, ht]
        exact hcounts hint
      · next ht =>
        rw [if_neg (Ne.symm ht), htable]
        exact h.counts e₀ he₀ hint
  · rcases mem_set he with rfl | ⟨e₀, he₀, -, hsc, -⟩
    · exact x.scopesBelow ha hscopes
    · rw [Builder.ScopesBelow, hsc]
      exact (h.scopes e₀ he₀).mono hle
  · rcases mem_set he with rfl | ⟨e₀, he₀, htable, -, -⟩
    · exact h.tables (table, x.before.builder) hb
    · rw [htable]
      exact h.tables e₀ he₀
  · rw [drawsFrom_append, if_neg, h.unused t hle']
    have hlt := h.tables _ hb
    rintro rfl
    exact absurd hle' (Nat.not_le_of_lt hlt)

/-- By induction on the jobs. -/
private theorem numbered_draws (h : w.Tallies past) {jobs : List Job} (ha : w.admitsAll jobs)
    (table : Nat) : Draw.Numbered (drawsFrom table (past ++ w.draws jobs)) := by
  induction jobs generalizing w past with
  | nil =>
    rw [draws, List.append_nil]
    exact h.numbered table
  | cons job jobs ih =>
    rw [admitsAll, Bool.and_eq_true] at ha
    rw [draws, ← List.append_assoc]
    refine ih ?_ ha.2
    cases job with
    | add rules =>
      change Tallies _ (past ++ [])
      rw [List.append_nil]
      exact h.add rules
    | addSharing rules i =>
      change Tallies _ (past ++ [])
      rw [List.append_nil]
      exact h.addSharing rules i
    | ask i r =>
      cases hb : w.builders[i]? with
      | none =>
        obtain ⟨hd, hw⟩ := ask_of_none (r := r) hb
        rw [hd, hw, Option.toList_none, List.append_nil]
        exact h
      | some e =>
        obtain ⟨hd, hw⟩ := ask_of_some (r := r) hb
        have hask := ha.1
        rw [admits, exchange?, hb] at hask
        rw [hd, hw]
        exact h.ask (x := ⟨⟨(), e.2, .empty, w.world⟩, r⟩) (List.mem_of_getElem? hb) rfl hask

end Tallies

private theorem tallies_new (rules : Rules) (world : World) : (new rules world).Tallies [] where
  numbered _ := .nil
  counts e he := by
    rw [List.mem_singleton.mp he]
    exact fun _ => rfl
  scopes e he := by
    rw [List.mem_singleton.mp he]
    exact List.forall_mem_nil _
  tables e he := by
    rw [List.mem_singleton.mp he]
    exact Nat.zero_lt_one
  unused _ _ := rfl

end Workshop

open Workshop

/-- The names that a table hands out, to whatever builders share it, are distinct exactly if none of
the hints given is a name that was made from another hint. -/
theorem drawn_nodup_iff {rules : Rules} {world : World} {jobs : List Job}
    (h : (Workshop.new rules world).admitsAll jobs) (table : Nat) :
    let draws := drawsFrom table ((Workshop.new rules world).draws jobs)
    (Draw.names draws).Nodup ↔ ∀ hint ∈ Draw.hints draws,
      ∀ k < (Draw.hints draws).count hint, k ≠ 0 → hint ++ toString k ∉ Draw.hints draws := by
  have hn := (tallies_new rules world).numbered_draws h table
  rw [List.nil_append] at hn
  exact hn.nodup_names_iff

namespace Hinting

def value : Expr :=
  .leaf ⟨⟨0, none⟩, none⟩ (.externFunc "f")

/-- Two builders share a table, and one of them is asked for a name that the other makes from its
own hint. -/
def jobs : List Job :=
  [.addSharing .empty 0, .ask 0 (.name "lv1"), .ask 1 (.beginBlock .dataflow),
    .ask 1 (.emit value ""), .ask 1 (.emit value "")]

/-- The same with another hint. -/
def apart : List Job :=
  [.addSharing .empty 0, .ask 0 (.name "lv_1"), .ask 1 (.beginBlock .dataflow),
    .ask 1 (.emit value ""), .ask 1 (.emit value "")]

def workshop : Workshop :=
  .new .empty ⟨1, []⟩

end Hinting

open Hinting in
theorem drawn_nodup_iff_apart :
    Draw.names (drawsFrom 0 (workshop.draws apart)) = ["lv_1", "lv", "lv1"] ∧
      (Draw.names (drawsFrom 0 (workshop.draws apart))).Nodup := by
  have h : workshop.admitsAll apart := rfl
  exact ⟨by decide +kernel, (drawn_nodup_iff h 0).mpr (by decide +kernel)⟩

open Hinting in
/-- The table hands out one name twice. -/
theorem drawn_twice :
    Draw.names (drawsFrom 0 (workshop.draws jobs)) = ["lv1", "lv", "lv1"] ∧
      ¬(Draw.names (drawsFrom 0 (workshop.draws jobs))).Nodup := by
  decide +kernel

end DataflowIR
