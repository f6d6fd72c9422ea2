import DataflowIR.Proofs.Lowering.Scoping
import DataflowIR.Proofs.Relabeling.Revisions

namespace DataflowIR

/-- Each entry goes through the passes; whether any of the functions changed. -/
inductive EntriesGo (ps : List Pass) (n n' : Nat) :
    List (String × GlobalVar × Function) → List (String × GlobalVar × Function) → Bool → Prop
  | nil : EntriesGo ps n n' [] [] false
  | cons {name g f out rest rest' changed} (hf : f.Goes name ps n (.ok out) n')
      (hr : EntriesGo ps n n' rest rest' changed) :
      EntriesGo ps n n' ((name, g, f) :: rest) ((name, g, out.getD f) :: rest')
        (out.isSome || changed)

/-- The module goes through the passes, or they fail on one of its functions. -/
inductive Module.Goes (ps : List Pass) (m : Module) (n n' : Nat) :
    Except Fault (Option Module) → Prop
  | ok {r} (h : EntriesGo ps n n' m.functions.entries (r.getD m).functions.entries r.isSome) :
      Module.Goes ps m n n' (.ok r)
  | error {fault e} (he : e ∈ m.functions.entries) (h : e.2.2.Goes e.1 ps n (.error fault) n') :
      Module.Goes ps m n n' (.error fault)

namespace EntriesGo

variable {ps qs : List Pass} {n n' k k' : Nat} {changed changed' : Bool}
  {entries entries' entries'' : List (String × GlobalVar × Function)}

theorem widen (h : EntriesGo ps n n' entries entries' changed) (hk : k ≤ n) (hk' : n' ≤ k') :
    EntriesGo ps k k' entries entries' changed := by
  induction h with
  | nil => exact .nil
  | cons hf _ ih => exact .cons (hf.widen hk hk') ih

theorem refl (entries : List (String × GlobalVar × Function)) (hn : n ≤ n') :
    EntriesGo [] n n' entries entries false := by
  induction entries with
  | nil => exact .nil
  | cons e rest ih => exact .cons (.done hn) ih

theorem append (h : EntriesGo ps n n' entries entries' changed) (hk : n' ≤ k)
    (h' : EntriesGo qs k k' entries' entries'' changed') :
    EntriesGo (ps ++ qs) n k' entries entries'' (changed || changed') := by
  induction h generalizing entries'' changed' with
  | nil =>
    cases h'
    exact .nil
  | @cons name g f out rest rest' changed hf hr ih =>
    cases h' with
    | @cons _ _ _ out' _ rest'' changed' hf' hr' =>
      have hall := EntriesGo.cons (g := g) (hf.append hk hf') (ih hr')
      have hflag : ((out'.or out).isSome || (changed || changed')) =
          (out.isSome || changed || (out'.isSome || changed')) := by
        cases out <;> cases out' <;> cases changed <;> rfl
      rw [Option.getD_or, hflag] at hall
      exact hall

theorem keys (h : EntriesGo ps n n' entries entries' changed) :
    entries'.map Prod.fst = entries.map Prod.fst := by
  induction h with
  | nil => rfl
  | cons _ _ ih => rw [List.map_cons, List.map_cons, ih]

theorem mem (h : EntriesGo ps n n' entries entries' changed) {name : String} {g : GlobalVar}
    {f : Function} (he : (name, g, f) ∈ entries) :
    ∃ out, f.Goes name ps n (.ok out) n' ∧ (name, g, out.getD f) ∈ entries' ∧
      (out.isSome = true → changed = true) := by
  induction h with
  | nil => cases he
  | @cons _ _ _ out _ _ changed hf _ ih =>
    rcases List.mem_cons.mp he with he | he
    · cases he
      exact ⟨out, hf, List.mem_cons_self, fun ho => by rw [ho, Bool.true_or]⟩
    · obtain ⟨out', hf', hm, hc⟩ := ih he
      exact ⟨out', hf', List.mem_cons_of_mem _ hm, fun ho => by rw [hc ho, Bool.or_true]⟩

private theorem mem_of_mem (h : EntriesGo ps n n' entries entries' changed) {name : String}
    {g : GlobalVar} {f' : Function} (he : (name, g, f') ∈ entries') :
    ∃ f out, (name, g, f) ∈ entries ∧ f.Goes name ps n (.ok out) n' ∧ f' = out.getD f := by
  induction h with
  | nil => cases he
  | @cons _ _ f out _ _ _ hf _ ih =>
    rcases List.mem_cons.mp he with he | he
    · cases he
      exact ⟨f, out, List.mem_cons_self, hf, rfl⟩
    · obtain ⟨f, out, hm, hf, rfl⟩ := ih he
      exact ⟨f, out, List.mem_cons_of_mem _ hm, hf, rfl⟩

private theorem exists_changed (h : EntriesGo ps n n' entries entries' true) :
    ∃ name g f f', (name, g, f) ∈ entries ∧ f.Goes name ps n (.ok (some f')) n' := by
  generalize hc : true = changed at h
  induction h with
  | nil => cases hc
  | @cons name g f out _ _ changed hf _ ih =>
    cases out with
    | some f' => exact ⟨name, g, f, f', List.mem_cons_self, hf⟩
    | none =>
      obtain ⟨name, g, f, f', hm, hf⟩ := ih hc
      exact ⟨name, g, f, f', List.mem_cons_of_mem _ hm, hf⟩

end EntriesGo

namespace Module

open Session

variable {p : Pass}

/-- By induction on the functions that are left; those before them are in place already. -/
private theorem transformEach_goes {entries : List (String × GlobalVar × Function)}
    (hname : ∀ e ∈ entries, e.2.1.name = e.1) {s s' : Session Unit}
    {r : Except Fault (List (GlobalVar × Function))}
    (h : (transformEach p.transformer .standard Expr.fuel (entries.map Prod.snd)).exec s =
      (r, s')) :
    s.world.next ≤ s'.world.next ∧ match r with
      | .ok changed => ∃ entries',
          EntriesGo [p] s.world.next s'.world.next entries entries' (!changed.isEmpty) ∧
          ∀ (m : Module) (before : List (String × GlobalVar × Function)),
            m.functions.entries = before ++ entries →
            (m.insertAll changed).functions.entries = before ++ entries'
      | .error fault => ∃ e ∈ entries,
          e.2.2.Goes e.1 [p] s.world.next (.error fault) s'.world.next := by
  induction entries generalizing r s with
  | nil =>
    cases h
    exact ⟨le_rfl, [], .nil, fun _ _ hm => hm⟩
  | cons e rest ih =>
    obtain ⟨name, g, f⟩ := e
    obtain rfl : g.name = name := hname (name, g, f) List.mem_cons_self
    have hrest := fun e he => hname e (List.mem_cons_of_mem _ he)
    obtain ⟨s1, h1, hs1⟩ := p.exec_transformFunction g.name f s
    have hle := p.le_revise g.name f s.world.next
    cases hp : p.revise g.name f s.world.next with
    | mk out n1 =>
      rw [hp] at h1 hs1 hle
      dsimp only at h1 hs1 hle
      obtain rfl := hs1
      rw [List.map_cons, transformEach, Act.exec_bind, h1] at h
      cases out with
      | error fault =>
        cases h
        exact ⟨hle, _, List.mem_cons_self, .failed le_rfl hp⟩
      | ok changed =>
        have hafter : ∃ r1, (transformEach p.transformer .standard Expr.fuel
            (rest.map Prod.snd)).exec s1 = (r1, s') ∧
            r = r1.map ((changed.map (Prod.mk g)).toList ++ ·) := by
          cases changed with
          | none => exact ⟨r, h, by cases r <;> rfl⟩
          | some f' =>
            dsimp only at h
            rw [Act.exec_bind] at h
            cases hr : (transformEach p.transformer .standard Expr.fuel
              (rest.map Prod.snd)).exec s1 with
            | mk r1 s2 =>
              rw [hr] at h
              cases r1 <;> cases h <;> exact ⟨_, rfl, rfl⟩
        obtain ⟨r1, h2, rfl⟩ := hafter
        obtain ⟨hle', hr⟩ := ih hrest h2
        refine ⟨hle.trans hle', ?_⟩
        cases r1 with
        | error fault =>
          obtain ⟨e, he, hf⟩ := hr
          exact ⟨e, List.mem_cons_of_mem _ he, hf.widen hle le_rfl⟩
        | ok changes =>
          obtain ⟨rest', hgo, hm⟩ := hr
          have hf : f.Goes g.name [p] s.world.next (.ok changed) s'.world.next :=
            .single le_rfl hp hle'
          refine ⟨(g.name, g, changed.getD f) :: rest', ?_, ?_⟩
          · have := EntriesGo.cons (g := g) hf (hgo.widen hle le_rfl)
            cases changed <;> exact this
          · intro m before he
            cases changed with
            | none => simpa using hm m (before ++ [(g.name, g, f)]) (by simpa using he)
            | some f' =>
              have hi := insert_entries f' he
              simpa [insertAll] using
                hm (m.insert g f') (before ++ [(g.name, g, f')]) (by simpa using hi)

theorem Goes.append {ps qs : List Pass} {m : Module} {n n' k k' : Nat} {r : Option Module}
    {out : Except Fault (Option Module)} (h : Module.Goes ps m n n' (.ok r)) (hk : n' ≤ k)
    (hq : Module.Goes qs (r.getD m) k k' out) :
    Module.Goes (ps ++ qs) m n k' (out.map (·.or r)) := by
  cases h with
  | ok h =>
    cases hq with
    | @ok r' hq =>
      have hall := h.append hk hq
      rw [← Option.getD_or, Bool.or_comm, ← Option.isSome_or] at hall
      exact .ok hall
    | @error fault e he hf =>
      obtain ⟨name, g, f'⟩ := e
      obtain ⟨f, out, hm, hfirst, rfl⟩ := h.mem_of_mem he
      exact .error hm (hfirst.append hk hf)

theorem Goes.append_error {ps : List Pass} (qs : List Pass) {m : Module} {n n' : Nat} (k' : Nat)
    {fault : Fault} (h : Module.Goes ps m n n' (.error fault)) :
    Module.Goes (ps ++ qs) m n k' (.error fault) := by
  cases h with
  | error he hf => exact .error he hf.append_error

end Module

private theorem Pass.apply_goes {p : Pass} {m : Module} {w w' : World}
    {r : Except Fault (Option Module)} (h : (p.apply m).exec w = (r, w')) :
    w.next ≤ w'.next ∧ Module.Goes [p] m w.next w'.next r := by
  let start : Session Unit := .new () .standard w
  have ha : (p.apply m).exec w =
      (((m.transform p.transformer .standard Expr.fuel).exec start).1,
        ((m.transform p.transformer .standard Expr.fuel).exec start).2.world) := rfl
  rw [ha, Module.transform, Act.exec_bind] at h
  cases ht : (Module.transformEach p.transformer .standard Expr.fuel m.toList).exec start with
  | mk out s =>
    obtain ⟨hle, hout⟩ := Module.transformEach_goes m.named ht
    rw [ht] at h
    cases out with
    | error fault =>
      obtain ⟨e, he, hf⟩ := hout
      cases h
      exact ⟨hle, .error he hf⟩
    | ok changed =>
      obtain ⟨entries', hgo, hm⟩ := hout
      have he := hm m [] rfl
      rw [List.nil_append] at he
      subst he
      cases changed <;> cases h <;> exact ⟨hle, .ok hgo⟩

@[simp] theorem Pass.ofName?_name (p : Pass) : Pass.ofName? p.name = some p := by
  cases p <;> rfl

namespace Pipeline

variable {p : Pipeline} {ps qs : List Pass} {m : Module} {w w' : World}

private theorem runPass_goes {pass : Pass} {r : Except Fault (Option Module)}
    (h : (p.runPass pass.name m).exec w = (r, w')) :
    w.next ≤ w'.next ∧ Module.Goes [pass] m w.next w'.next r := by
  have hexec : ∃ w1 : World, w1.next = w.next ∧
      (p.runPass pass.name m).exec w = (pass.apply m).exec w1 := by
    rw [runPass, Pass.ofName?_name]
    cases p.reportModules
    · exact ⟨w.report (.passBegun pass.name), rfl, rfl⟩
    · exact ⟨(w.report (.moduleBefore pass.name m)).report (.passBegun pass.name), rfl, rfl⟩
  obtain ⟨w1, hw, h1⟩ := hexec
  rw [← hw]
  exact Pass.apply_goes (h1.symm.trans h)

/-- By induction on the passes; `changed` tells whether an earlier pass changed the module. -/
private theorem runPasses_goes {changed : Bool} {r : Except Fault (Option Module)}
    (h : (p.runPasses changed m (ps.map Pass.name)).exec w = (r, w')) :
    w.next ≤ w'.next ∧ ∃ r', Module.Goes ps m w.next w'.next r' ∧
      r = r'.map fun m' => m'.or (if changed then some m else none) := by
  induction ps generalizing changed m w with
  | nil =>
    cases h
    refine ⟨le_rfl, .ok none, .ok (.refl _ le_rfl), ?_⟩
    cases changed <;> rfl
  | cons pass ps ih =>
    rw [List.map_cons, runPasses, Act.exec_bind] at h
    cases hp : (p.runPass pass.name m).exec w with
    | mk out w1 =>
      obtain ⟨hle, hgo⟩ := runPass_goes hp
      rw [hp] at h
      cases out with
      | error fault =>
        cases h
        exact ⟨hle, .error fault, hgo.append_error ps _, rfl⟩
      | ok first =>
        have hrest : (p.runPasses (changed || first.isSome) (first.getD m)
            (ps.map Pass.name)).exec w1 = (r, w') := by
          cases first with
          | none => simpa using h
          | some m' => simpa using h
        obtain ⟨hle', r', hgo', rfl⟩ := ih hrest
        refine ⟨hle.trans hle', _, hgo.append le_rfl hgo', ?_⟩
        cases r' with
        | error fault => rfl
        | ok last => cases first <;> cases last <;> cases changed <;> rfl

/-- The default passes `ps`, by their names. -/
def ofPasses (ps : List Pass) (reports : Bool) : Pipeline :=
  ⟨ps.map Pass.name, reports⟩

theorem run_goes (ps : List Pass) (reports : Bool) (m : Module) (w : World) :
    let run := ((ofPasses ps reports).run m).exec w
    Module.Goes ps m w.next run.2.next run.1 := by
  intro run
  have hrun : ((ofPasses ps reports).runPasses false m (ps.map Pass.name)).exec w =
      (run.1, run.2) := rfl
  obtain ⟨-, r, hgo, hr⟩ := runPasses_goes hrun
  rw [hr]
  cases r with
  | error fault => exact hgo
  | ok m' => cases m' <;> exact hgo

private theorem runPasses_eq_map (changed : Bool) (m : Module) (names : List String) :
    p.runPasses changed m names =
      (fun r => r.or (if changed then some m else none)) <$> p.runPasses false m names := by
  induction names generalizing changed m with
  | nil =>
    simp only [runPasses, map_pure]
    cases changed <;> rfl
  | cons name names ih =>
    simp only [runPasses, map_bind]
    refine bind_congr fun r => ?_
    cases r with
    | none => exact ih changed m
    | some m' =>
      dsimp only
      rw [ih true m', Functor.map_map]
      refine congrArg (· <$> _) (funext fun r => ?_)
      cases r <;> rfl

/-- One list of passes after another: the second goes on where the first stopped. -/
private theorem runPasses_append (m : Module) (names names' : List String) :
    p.runPasses false m (names ++ names') = (do
      let r ← p.runPasses false m names
      let r' ← p.runPasses false (r.getD m) names'
      return r'.or r) := by
  induction names generalizing m with
  | nil =>
    simp [runPasses]
  | cons name names ih =>
    simp only [List.cons_append, runPasses, bind_assoc]
    refine bind_congr fun r => ?_
    cases r with
    | none => exact ih m
    | some m' =>
      dsimp only
      rw [runPasses_eq_map true m' (names ++ names'), ih, runPasses_eq_map true m' names]
      simp

private theorem runPasses_congr {q : Pipeline} (h : p.reportModules = q.reportModules)
    (changed : Bool) (m : Module) (names : List String) :
    p.runPasses changed m names = q.runPasses changed m names := by
  induction names generalizing changed m with
  | nil => rfl
  | cons name names ih => simp only [runPasses, runPass, h, ih]

theorem run_append (ps qs : List Pass) (reports : Bool) (m : Module) :
    (ofPasses (ps ++ qs) reports).run m = (do
      let r ← (ofPasses ps reports).run m
      let r' ← (ofPasses qs reports).run (r.getD m)
      return r'.or r) := by
  have hrun : ∀ (rs : List Pass) (m : Module), (ofPasses rs reports).run m =
      (ofPasses [] reports).runPasses false m (rs.map Pass.name) :=
    fun rs m => runPasses_congr (p := ofPasses rs reports) (q := ofPasses [] reports) rfl false m _
  simp only [hrun, List.map_append, runPasses_append]

end Pipeline

namespace Module

variable {m : Module}

/-- The labels in its functions. -/
def labels (m : Module) : List Nat :=
  m.toList.flatMap fun e => e.2.labels

private theorem mem_entries {e : GlobalVar × Function} (he : e ∈ m.toList) :
    (e.1.name, e.1, e.2) ∈ m.functions.entries := by
  obtain ⟨⟨name, g, f⟩, hm, rfl⟩ := List.mem_map.mp he
  obtain rfl : g.name = name := m.named _ hm
  exact hm

theorem mem_toList {name : String} {g : GlobalVar} {f : Function}
    (he : (name, g, f) ∈ m.functions.entries) : (g, f) ∈ m.toList ∧ g.name = name := by
  exact ⟨List.mem_map_of_mem he, m.named _ he⟩

theorem below_labels {base : Nat} (h : Below base m.labels) {e : GlobalVar × Function}
    (he : e ∈ m.toList) : Below base e.2.labels := by
  intro l hl
  exact h l (List.mem_flatMap.mpr ⟨e, he, hl⟩)

end Module

/-- The same but for labels that are not below `base`. -/
def Function.Alike (base : Nat) (f f' : Function) : Prop :=
  ∃ σ : Equiv.Perm Nat, (∀ k < base, σ k = k) ∧ f' = f.relabel σ

namespace Function.Goes

variable {name : String} {ps : List Pass} {f : Function} {n n' k k' base : Nat}

theorem alike_ok {o o' : Option Function} (h : Goes name ps f n (.ok o) n')
    (h' : Goes name ps f k (.ok o') k') (hn : base ≤ n) (hk : base ≤ k)
    (hf : Below base f.labels) :
    o.isSome = o'.isSome ∧ (o.getD f).Alike base (o'.getD f) := by
  obtain ⟨σ, hσ, ho⟩ := h.alike h' hn hk hf
  obtain rfl : o' = o.map (Function.relabel σ) := Except.ok.inj ho
  refine ⟨Option.isSome_map.symm, σ, hσ, ?_⟩
  rw [← Option.getD_map (Function.relabel σ), f.relabel_eq_self fun l hl => hσ l (hf l hl)]

theorem not_error_of_ok {o : Option Function} {fault : Fault} (h : Goes name ps f n (.ok o) n')
    (hn : base ≤ n) (hk : base ≤ k) (hf : Below base f.labels) :
    ¬Goes name ps f k (.error fault) k' := by
  intro h'
  obtain ⟨σ, -, ho⟩ := h.alike h' hn hk hf
  cases ho

end Function.Goes

/-- The same names and global variables, and functions that are alike. -/
def Module.Alike (base : Nat) (m m' : Module) : Prop :=
  List.Forall₂ (fun e e' => e'.1 = e.1 ∧ e'.2.1 = e.2.1 ∧ e.2.2.Alike base e'.2.2)
    m.functions.entries m'.functions.entries

/-- Both runs on the module fail, or they leave modules that are alike and both changed or not. -/
inductive Module.AlikeOutcomes (base : Nat) (m : Module) :
    Except Fault (Option Module) → Except Fault (Option Module) → Prop
  | ok {r r'} (hc : r.isSome = r'.isSome) (hm : (r.getD m).Alike base (r'.getD m)) :
      Module.AlikeOutcomes base m (.ok r) (.ok r')
  | error {fault fault'} : Module.AlikeOutcomes base m (.error fault) (.error fault')

section

variable {ps : List Pass} {n n' k k' base : Nat} {changed changed' : Bool}

theorem EntriesGo.alike {entries entries' entries'' : List (String × GlobalVar × Function)}
    (h : EntriesGo ps n n' entries entries' changed)
    (h' : EntriesGo ps k k' entries entries'' changed') (hn : base ≤ n) (hk : base ≤ k)
    (hl : ∀ e ∈ entries, Below base e.2.2.labels) :
    changed = changed' ∧ List.Forall₂
      (fun e e' => e'.1 = e.1 ∧ e'.2.1 = e.2.1 ∧ e.2.2.Alike base e'.2.2) entries' entries'' := by
  induction h generalizing entries'' changed' with
  | nil =>
    cases h'
    exact ⟨rfl, .nil⟩
  | cons hf _ ih =>
    cases h' with
    | cons hf' hr' =>
      obtain ⟨he, hrest⟩ := List.forall_mem_cons.mp hl
      obtain ⟨hc, ha⟩ := hf.alike_ok hf' hn hk he
      obtain ⟨hcs, has⟩ := ih hr' hrest
      exact ⟨by rw [hc, hcs], .cons ⟨rfl, rfl, ha⟩ has⟩

/-- What the passes make of a module is settled by the module and the passes. -/
theorem Module.Goes.alike {m : Module} {r r' : Except Fault (Option Module)}
    (h : Module.Goes ps m n n' r) (h' : Module.Goes ps m k k' r') (hn : base ≤ n) (hk : base ≤ k)
    (hl : Below base m.labels) : AlikeOutcomes base m r r' := by
  have hf : ∀ e ∈ m.functions.entries, Below base e.2.2.labels :=
    fun e he => below_labels hl (mem_toList he).1
  cases h with
  | ok h =>
    cases h' with
    | ok h' =>
      obtain ⟨hc, hm⟩ := h.alike h' hn hk hf
      exact .ok hc hm
    | error he herror =>
      obtain ⟨o, hok, -, -⟩ := h.mem he
      exact absurd herror (hok.not_error_of_ok hn hk (hf _ he))
  | error he herror =>
    cases h' with
    | ok h' =>
      obtain ⟨o, hok, -, -⟩ := h'.mem he
      exact absurd herror (hok.not_error_of_ok hk hn (hf _ he))
    | error => exact .error

end

/-- The module of one function. -/
def Module.only (g : GlobalVar) (f : Function) : Module :=
  Module.empty.insert g f

private theorem Dictionary.find?_of_mem {α : Type} (d : Dictionary α) {key : String} {a : α}
    (h : (key, a) ∈ d.entries) : d.find? key = some a := by
  obtain ⟨entries, sorted⟩ := d
  unfold find?
  dsimp only at h ⊢
  induction entries with
  | nil => cases h
  | cons e rest ih =>
    obtain ⟨hlt, hrest⟩ := List.pairwise_cons.mp sorted
    rcases List.mem_cons.mp h with rfl | h
    · simp
    · have hne : key ≠ e.1 := fun he => Std.lt_irrefl (he ▸ hlt _ h)
      rw [List.lookup_cons, beq_false_of_ne hne]
      exact ih hrest h

private theorem Module.get?_of_mem (m : Module) {name : String} {g : GlobalVar} {f : Function}
    (h : (name, g, f) ∈ m.functions.entries) : m.get? name = some f := by
  rw [get?, m.functions.find?_of_mem h]
  rfl

theorem Module.Goes.of_only {ps : List Pass} {g : GlobalVar} {f : Function} {n n' : Nat}
    {out : Except Fault (Option Module)} (h : Module.Goes ps (.only g f) n n' out) :
    (∃ fault, out = .error fault ∧ f.Goes g.name ps n (.error fault) n') ∨
    ∃ r o, out = .ok r ∧ f.Goes g.name ps n (.ok o) n' ∧ r.isSome = o.isSome ∧
      (r.getD (.only g f)).get? g.name = some (o.getD f) := by
  have hentries : (Module.only g f).functions.entries = [(g.name, g, f)] := rfl
  cases h with
  | error he hf =>
    rw [hentries, List.mem_singleton] at he
    subst he
    exact .inl ⟨_, rfl, hf⟩
  | @ok r h =>
    rw [hentries] at h
    generalize hr : (r.getD (.only g f)).functions.entries = entries' at h
    generalize hc : r.isSome = changed at h
    cases h with
    | @cons _ _ _ o _ rest' _ hf hrest =>
      cases hrest
      rw [Bool.or_false] at hc
      exact .inr ⟨r, o, rfl, hf, hc, Module.get?_of_mem _ (hr ▸ List.mem_singleton_self _)⟩

section

variable {ps : List Pass} {m : Module} {n n' k k' base : Nat}

variable (hl : Below base m.labels) (hn : base ≤ n)

include hl hn

/-- Where the passes succeed on a module, they succeed on each function alone. -/
theorem Module.Goes.alone_ok {r : Option Module} (h : Module.Goes ps m n n' (.ok r))
    {e : GlobalVar × Function} (he : e ∈ m.toList) {out : Except Fault (Option Module)}
    (hk : base ≤ k) (h' : Module.Goes ps (.only e.1 e.2) k k' out) :
    ∃ r1 f1 f', out = .ok r1 ∧ (r1.getD (.only e.1 e.2)).get? e.1.name = some f1 ∧
      (r.getD m).get? e.1.name = some f' ∧ f1.Alike base f' ∧
      (r1.isSome = true → r.isSome = true) := by
  cases h with
  | ok h =>
    obtain ⟨o, ho, hm, hc⟩ := h.mem (mem_entries he)
    rcases h'.of_only with ⟨fault, -, hf⟩ | ⟨r1, o1, rfl, ho1, hc1, hf1⟩
    · exact absurd hf (ho.not_error_of_ok hn hk (below_labels hl he))
    · obtain ⟨hsome, ha⟩ := ho1.alike_ok ho hk hn (below_labels hl he)
      exact ⟨r1, _, _, rfl, hf1, get?_of_mem _ hm, ha, fun h1 => hc (hsome ▸ hc1 ▸ h1)⟩

private theorem Module.Goes.exists_alone_changed {m' : Module}
    (h : Module.Goes ps m n n' (.ok (some m'))) :
    ∃ e ∈ m.toList, ∀ {out k k'}, base ≤ k → Module.Goes ps (.only e.1 e.2) k k' out →
      ∃ m1, out = .ok (some m1) := by
  cases h with
  | ok h =>
    obtain ⟨name, g, f, f', hm, hf⟩ := h.exists_changed
    obtain ⟨he, rfl⟩ := mem_toList hm
    refine ⟨(g, f), he, fun hk h' => ?_⟩
    rcases h'.of_only with ⟨fault, -, hf'⟩ | ⟨r1, o1, rfl, ho1, hc1, -⟩
    · exact absurd hf' (hf.not_error_of_ok hn hk (below_labels hl he))
    · have hs := (hf.alike_ok ho1 hn hk (below_labels hl he)).1
      obtain ⟨m1, rfl⟩ := Option.isSome_iff_exists.mp (hc1.trans hs.symm)
      exact ⟨m1, rfl⟩

private theorem Module.Goes.exists_alone_error {fault : Fault}
    (h : Module.Goes ps m n n' (.error fault)) :
    ∃ e ∈ m.toList, ∀ {out k k'}, base ≤ k → Module.Goes ps (.only e.1 e.2) k k' out →
      ∃ fault, out = .error fault := by
  cases h with
  | @error _ e he hf =>
    obtain ⟨name, g, f⟩ := e
    obtain ⟨hm, rfl⟩ := mem_toList he
    refine ⟨(g, f), hm, fun hk h' => ?_⟩
    rcases h'.of_only with ⟨fault, rfl, -⟩ | ⟨r1, o1, rfl, ho1, -⟩
    · exact ⟨fault, rfl⟩
    · exact absurd hf (ho1.not_error_of_ok hk hn (below_labels hl hm))

end

/-- The passes fail on a module exactly if they fail on one of its functions alone. Otherwise they
leave the names as they are, make of each function what they make of it alone, and change the module
exactly if they change one of its functions alone. Running two lists as one is running the first
and then the second on its result, right away or later. -/
theorem Pipeline.run_functionwise (ps qs : List Pass) (reports : Bool) (m : Module) {base : Nat}
    (hl : Below base m.labels) {w : World} (hw : base ≤ w.next)
    (solo : GlobalVar → World) (hs : ∀ g, base ≤ (solo g).next) :
    let all := ((ofPasses ps reports).run m).exec w
    let alone (e : GlobalVar × Function) :=
      (((ofPasses ps reports).run (.only e.1 e.2)).exec (solo e.1)).1
    ((∃ fault, all.1 = .error fault) ↔ ∃ e ∈ m.toList, ∃ fault, alone e = .error fault) ∧
    (∀ r, all.1 = .ok r → (r.getD m).names = m.names ∧
      (∀ e ∈ m.toList, ∃ r1 f1 f', alone e = .ok r1 ∧
        (r1.getD (.only e.1 e.2)).get? e.1.name = some f1 ∧
        (r.getD m).get? e.1.name = some f' ∧ f1.Alike base f') ∧
      (r.isSome ↔ ∃ e ∈ m.toList, ∃ m1, alone e = .ok (some m1))) ∧
    (ofPasses (ps ++ qs) reports).run m = (do
      let r ← (ofPasses ps reports).run m
      let r' ← (ofPasses qs reports).run (r.getD m)
      return r'.or r) ∧
    ∀ r, all.1 = .ok r → ∀ v u : World, base ≤ v.next → all.2.next ≤ u.next →
      m.AlikeOutcomes base (((ofPasses (ps ++ qs) reports).run m).exec v).1
        ((((ofPasses qs reports).run (r.getD m)).exec u).1.map (·.or r)) := by
  intro all alone
  have hall : Module.Goes ps m w.next all.2.next all.1 := run_goes ps reports m w
  have halone : ∀ e : GlobalVar × Function, ∃ k', Module.Goes ps (.only e.1 e.2)
    (solo e.1).next k' (alone e) := fun e => ⟨_, run_goes ps reports (.only e.1 e.2) (solo e.1)⟩
  refine ⟨⟨?_, ?_⟩, ?_, run_append ps qs reports m, ?_⟩
  · rintro ⟨fault, hfault⟩
    obtain ⟨e, he, herror⟩ := (hfault ▸ hall).exists_alone_error hl hw
    obtain ⟨k', hgo⟩ := halone e
    exact ⟨e, he, herror (hs e.1) hgo⟩
  · rintro ⟨e, he, fault, hfault⟩
    obtain ⟨k', hgo⟩ := halone e
    cases hr : all.1 with
    | error fault' => exact ⟨fault', rfl⟩
    | ok r =>
      obtain ⟨r1, _, _, hr1, -⟩ := (hr ▸ hall).alone_ok hl hw he (hs e.1) hgo
      cases hfault.symm.trans hr1
  · intro r hr
    have hgo := hr ▸ hall
    refine ⟨?_, ?_, ?_, ?_⟩
    · cases hgo with
      | ok h => exact h.keys
    · intro e he
      obtain ⟨k', hgo'⟩ := halone e
      obtain ⟨r1, f1, f', h1, hf1, hf', ha, -⟩ := hgo.alone_ok hl hw he (hs e.1) hgo'
      exact ⟨r1, f1, f', h1, hf1, hf', ha⟩
    · intro hc
      obtain ⟨m', rfl⟩ := Option.isSome_iff_exists.mp hc
      obtain ⟨e, he, hchanged⟩ := hgo.exists_alone_changed hl hw
      obtain ⟨k', hgo'⟩ := halone e
      exact ⟨e, he, hchanged (hs e.1) hgo'⟩
    · rintro ⟨e, he, m1, hm1⟩
      obtain ⟨k', hgo'⟩ := halone e
      obtain ⟨r1, _, _, hr1, -, -, -, hc⟩ := hgo.alone_ok hl hw he (hs e.1) hgo'
      obtain rfl : r1 = some m1 := Except.ok.inj (hr1.symm.trans hm1)
      exact hc rfl
  · intro r hr v u hv hu
    have hone := run_goes (ps ++ qs) reports m v
    have htwo := (hr ▸ hall).append hu (run_goes qs reports (r.getD m) u)
    exact hone.alike htwo hv hw hl

namespace Destinations

/-- Beside a function with a destination-passing call, one that the passes leave as it is. -/
def pair : Module :=
  (module [.mk ⟨8, none⟩ .dataflow
      [.bind ⟨9, none⟩ inner written, .bind ⟨10, none⟩ first (.var inner)]] first).insert
    ⟨⟨⟨27, none⟩, none⟩, "other"⟩
    ⟨⟨⟨26, none⟩, some .object⟩, [x], .var x, .object, .empty⟩

/-- Other nodes were made in the meantime. -/
def later : World := ⟨100, []⟩

end Destinations

open Destinations in
theorem Pipeline.run_functionwise_pair : ∃ m',
    (((ofPasses [.normalize, .explicitMemory] true).run pair).exec world).1 = .ok (some m') ∧
      m'.names = ["main", "other"] ∧
      ∀ e ∈ pair.toList, ∃ r1 f1 f',
        (((ofPasses [.normalize, .explicitMemory] true).run (.only e.1 e.2)).exec later).1 =
          .ok r1 ∧
        (r1.getD (.only e.1 e.2)).get? e.1.name = some f1 ∧ m'.get? e.1.name = some f' ∧
        f1.Alike world.next f' := by
  have hl : Below world.next pair.labels := by decide +kernel
  have hs : (((ofPasses [.normalize, .explicitMemory] true).run pair).exec
      world).1.toOption.join.isSome = true := by decide +kernel
  obtain ⟨-, hok, -⟩ := run_functionwise [.normalize, .explicitMemory] [.fusedMultiplyAdd] true pair
    hl le_rfl (fun _ => later) fun _ => by decide
  cases hr : (((ofPasses [.normalize, .explicitMemory] true).run pair).exec world).1 with
  | error fault =>
    rw [hr] at hs
    cases hs
  | ok r =>
    rw [hr] at hs
    obtain ⟨m', rfl⟩ := Option.isSome_iff_exists.mp hs
    obtain ⟨hnames, heach, -⟩ := hok _ hr
    have hpair : pair.names = ["main", "other"] := by decide +kernel
    exact ⟨m', rfl, hnames.trans hpair, heach⟩

end DataflowIR
