import DataflowIR.Proofs.Building.Exchanges

namespace DataflowIR

/-- `bs` were emitted in `steps` outside of the blocks that were begun there; these blocks were
ended there too, and no others were. -/
inductive Gathers : List BuildStep → List Binding → Prop
  | nil : Gathers [] []
  | emitted {b : Binding} {steps : List BuildStep} {bs : List Binding} (h : Gathers steps bs) :
      Gathers (.emitted b :: steps) (b :: bs)
  | scopeBegun {params : List Var} {steps : List BuildStep} {bs : List Binding}
      (h : Gathers steps bs) : Gathers (.scopeBegun params :: steps) bs
  | scopeEnded {steps : List BuildStep} {bs : List Binding} (h : Gathers steps bs) :
      Gathers (.scopeEnded :: steps) bs
  | block {kind : BlockKind} {b : Block} {inner steps : List BuildStep} {cs bs : List Binding}
      (hinner : Gathers inner cs) (h : Gathers steps bs) :
      Gathers (.begun kind :: inner ++ .ended b :: steps) bs

theorem Gathers.append {steps steps' : List BuildStep} {bs cs : List Binding}
    (h : Gathers steps bs) (k : Gathers steps' cs) : Gathers (steps ++ steps') (bs ++ cs) := by
  induction h with
  | nil => exact k
  | emitted _ ih => exact .emitted ih
  | scopeBegun _ ih => exact .scopeBegun ih
  | scopeEnded _ ih => exact .scopeEnded ih
  | block hinner _ _ ih =>
    rw [List.append_assoc]
    exact .block hinner ih

/-- `frames` are the blocks that were begun in `steps` and not ended, each with what was emitted
into it. Only a dataflow block binds dataflow variables. -/
inductive Stacks : List BuildStep → List Frame → Prop
  | outside {steps : List BuildStep} (h : Gathers steps []) : Stacks steps []
  | inside {before during : List BuildStep} {kind : BlockKind} {bs : List Binding}
      {rest : List Frame} (hb : Stacks before rest) (hd : Gathers during bs)
      (hk : kind = .plain → ∀ b ∈ bs, b.var.dataflow = false) :
      Stacks (before ++ .begun kind :: during) (⟨kind, bs⟩ :: rest)

namespace Stacks

variable {steps : List BuildStep} {frames : List Frame}

/-- What emits nothing leaves the blocks as they were. -/
theorem quiet (h : Stacks steps frames) {later : List BuildStep} (k : Gathers later []) :
    Stacks (steps ++ later) frames := by
  cases h with
  | outside h => exact .outside (h.append k)
  | inside hb hd hk =>
    have hd := hd.append k
    rw [List.append_nil] at hd
    rw [List.append_assoc]
    exact .inside hb hd hk

theorem emit {frame : Frame} {rest : List Frame} (h : Stacks steps (frame :: rest)) {b : Binding}
    (hb : frame.kind = .plain → b.var.dataflow = false) : Stacks (steps ++ [.emitted b])
      ({ frame with bindings := frame.bindings ++ [b] } :: rest) := by
  cases h with
  | inside hbefore hd hk =>
    rw [List.append_assoc]
    refine .inside hbefore (hd.append (.emitted .nil)) ?_
    intro hp c hc
    rcases List.mem_append.mp hc with hc | hc
    · exact hk hp c hc
    · rw [List.mem_singleton.mp hc]
      exact hb hp

/-- The block that is ended becomes part of what went on in the block around it. -/
theorem finish {frame : Frame} {rest : List Frame} (h : Stacks steps (frame :: rest)) (b : Block) :
    Stacks (steps ++ [.ended b]) rest := by
  cases h with
  | inside hb hd =>
    rw [List.append_assoc]
    exact hb.quiet (.block hd .nil)

theorem push {b b' : Builder} {binding : Binding} (h : Stacks steps b.frames)
    (hp : b.push binding = .ok b') : Stacks (steps ++ [.emitted binding]) b'.frames := by
  obtain ⟨frame, rest, hf, hk, rfl⟩ := Builder.push_ok hp
  rw [hf] at h
  exact h.emit hk

/-- By cases on what the request can have done. -/
theorem turn {next : Nat} {b b' : Builder} {step? : Option BuildStep} {draw? : Option Draw}
    (h : Stacks steps b.frames) (ht : b.Turn next step? draw? b') :
    Stacks (steps ++ step?.toList) b'.frames := by
  cases ht with
  | quiet | named | lost => rwa [Option.toList_none, List.append_nil]
  | begun kind => exact .inside h .nil fun _ => nofun
  | ended mark hf =>
    rw [hf] at h
    exact h.finish _
  | scopeBegun params => exact h.quiet (.scopeBegun .nil)
  | scopeEnded => exact h.quiet (.scopeEnded .nil)
  | emitted hp => exact h.push hp
  | emittedNew hint hp => exact push (b := (b.requestName hint).2) h hp

end Stacks

/-- The block, ended after `earlier`, is of the kind of the step that began it, and holds what was
emitted while it was the innermost one, in its order. -/
def Block.GatheredIn (b : Block) (earlier : List BuildStep) : Prop :=
  ∃ before during, earlier = before ++ .begun b.kind :: during ∧ Gathers during b.bindings ∧
    (b.kind = .plain → ∀ c ∈ b.bindings, c.var.dataflow = false)

/-- Each block that was ended was gathered in what came before. -/
def EndsGathered (steps : List BuildStep) : Prop :=
  ∀ earlier b later, steps = earlier ++ .ended b :: later → b.GatheredIn earlier

namespace EndsGathered

variable {steps : List BuildStep}

/-- What was ended before a step was ended earlier, or it is ended by the step. -/
theorem append (h : EndsGathered steps) {step : BuildStep}
    (hlast : ∀ b, step = .ended b → b.GatheredIn steps) : EndsGathered (steps ++ [step]) := by
  intro earlier b later he
  rcases List.eq_nil_or_concat later with rfl | ⟨later, last, rfl⟩
  · obtain ⟨rfl, hs⟩ := List.append_inj' he rfl
    exact hlast b (List.cons.inj hs).1
  · rw [List.concat_eq_append, ← List.cons_append, ← List.append_assoc] at he
    obtain ⟨rfl, -⟩ := List.append_inj' he rfl
    exact h earlier b later rfl

theorem turn {next : Nat} {b b' : Builder} {step? : Option BuildStep} {draw? : Option Draw}
    (h : EndsGathered steps) (hs : Stacks steps b.frames) (ht : b.Turn next step? draw? b') :
    EndsGathered (steps ++ step?.toList) := by
  cases ht with
  | quiet | named | lost => rwa [Option.toList_none, List.append_nil]
  | begun | scopeBegun | scopeEnded | emitted | emittedNew => exact h.append nofun
  | ended mark hf =>
    refine h.append ?_
    rintro _ ⟨⟩
    rw [hf] at hs
    cases hs with
    | inside hb hd hk => exact ⟨_, _, rfl, hd, hk⟩

end EndsGathered

open Session

/-- In a run of a new builder each block that was ended is of the kind of the step that began it, and
holds what was emitted while it was the innermost block under construction. -/
theorem ended_gathers {rules : Rules} {names : NameTable} {world : World} {rs : List Request}
    {earlier later : List BuildStep} {b : Block}
    (h : (opened rules names world).steps rs = earlier ++ .ended b :: later) :
    b.GatheredIn earlier := by
  have hrun := steps_induction (s := opened rules names world)
    (P := fun steps b => Stacks steps b.frames ∧ EndsGathered steps) ⟨.outside .nil, ?_⟩
    (fun ⟨hs, he⟩ ht => ⟨hs.turn ht, he.turn hs ht⟩) rs
  · exact hrun.2 earlier b later h
  · intro earlier b later he
    simp at he

namespace Nesting

def value : Expr :=
  .leaf ⟨⟨0, none⟩, none⟩ (.externFunc "f")

def regular : Var :=
  .make ⟨1, none⟩ ⟨2, "gv"⟩ none false

def confined : Var :=
  .make ⟨3, none⟩ ⟨4, "lv"⟩ none true

/-- A dataflow block is begun and ended in a plain block, which then refuses a dataflow variable. -/
def requests : List Request :=
  [.beginBlock .plain, .emitBinding (.bind ⟨5, none⟩ regular value), .beginBlock .dataflow,
    .emit (.var regular) "", .endBlock, .emitBinding (.bind ⟨6, none⟩ confined value), .endBlock]

def inner : Block :=
  .mk ⟨10, none⟩ .dataflow
    [.bind ⟨9, none⟩ (.make ⟨7, none⟩ ⟨8, "lv"⟩ none true) (.var regular)]

def outer : Block :=
  .mk ⟨11, none⟩ .plain [.bind ⟨5, none⟩ regular value]

def earlier : List BuildStep :=
  [.begun .plain, .emitted (.bind ⟨5, none⟩ regular value), .begun .dataflow,
    .emitted (.bind ⟨9, none⟩ (.make ⟨7, none⟩ ⟨8, "lv"⟩ none true) (.var regular)), .ended inner]

end Nesting

open Nesting in
theorem ended_gathers_nested :
    (opened .empty .empty ⟨7, []⟩).steps requests = earlier ++ .ended outer :: [] ∧
      outer.GatheredIn earlier := by
  have h : (opened .empty .empty ⟨7, []⟩).steps requests = earlier ++ .ended outer :: [] := rfl
  exact ⟨h, ended_gathers h⟩

end DataflowIR
