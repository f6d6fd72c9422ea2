import DataflowIR.Proofs.Relabeling.Passes

namespace DataflowIR

/-- What comes of a function: an error, or the new function if there is one. -/
abbrev Revision := Except Fault (Option Function)

namespace Revision

variable (σ τ : Equiv.Perm Nat)

def relabel (r : Revision) : Revision :=
  relabelOutcome σ (Option.map (Function.relabel σ)) r

/-- The revision of a function that was changed to `f`, if at all, before. -/
def after (r : Revision) (f : Option Function) : Revision :=
  r.map (·.or f)

private theorem relabel_after (r : Revision) (f : Option Function) :
    (r.after f).relabel σ = (r.relabel σ).after (f.map (Function.relabel σ)) := by
  cases r with
  | error fault => rfl
  | ok g => cases g <;> rfl

private theorem after_none (r : Revision) : r.after none = r := by
  cases r with
  | error fault => rfl
  | ok f => cases f <;> rfl

private theorem after_after (r : Revision) (f g : Option Function) :
    (r.after f).after g = r.after (f.or g) := by
  cases r with
  | error fault => rfl
  | ok h => exact congrArg Except.ok Option.or_assoc

end Revision

/-- The labels in a function, those of its parameters among them. -/
def Function.labels (f : Function) : List Nat :=
  f.toExpr.labels

theorem Function.relabel_eq_self {σ : Equiv.Perm Nat} (f : Function) (h : Fixes σ f.labels) :
    f.relabel σ = f := by
  obtain ⟨node, params, body, ret, attrs⟩ := f
  have he : (Expr.function node params body ret attrs).relabel σ = _ := Expr.relabel_eq_self _ h
  simp only [Expr.relabel, Expr.function.injEq] at he
  rw [relabel, he.1, he.2.1, he.2.2.1]

theorem Function.relabel_relabel (σ τ : Equiv.Perm Nat) (f : Function) :
    (f.relabel σ).relabel τ = f.relabel (σ.trans τ) := by
  simp only [relabel, Expr.relabel_relabel, List.map_map]
  rfl

theorem Revision.relabel_relabel (σ τ : Equiv.Perm Nat) (r : Revision) :
    (r.relabel σ).relabel τ = r.relabel (σ.trans τ) := by
  cases r with
  | error fault =>
    cases fault <;>
      simp only [relabel, relabelOutcome, Fault.relabel, Expr.relabel_relabel] <;> rfl
  | ok f =>
    cases f with
    | none => rfl
    | some f => exact congrArg (Except.ok ∘ some) (f.relabel_relabel σ τ)

theorem Revision.relabel_refl (r : Revision) : r.relabel (Equiv.refl Nat) = r := by
  have hf : Option.map (Function.relabel (Equiv.refl Nat)) = id := by
    funext f
    exact (Option.map_congr fun f _ => f.relabel_eq_self fun _ _ => rfl).trans Option.map_id'
  rw [relabel, hf, relabelOutcome_refl]

namespace Pass

variable (p : Pass) (name : String) (f : Function) (n : Nat)

/-- A pass over one function alone, with the labels from `n` on unused; the labels that are unused
afterwards. -/
def revise : Revision × Nat :=
  let run := (Module.transformFunction p.transformer .standard Expr.fuel name f).exec
    (.new () .standard ⟨n, []⟩)
  (run.1, run.2.world.next)

theorem le_revise : n ≤ (p.revise name f n).2 := by
  have htracks := p.transformFunction_tracks (ℓ := ⟨.refl _, 0, 0, 0, fun _ => nofun⟩) name f
  exact htracks.next_le (.new () .standard ⟨n, []⟩)

/-- Nothing but the unused labels comes in from outside. -/
theorem exec_transformFunction (s : Session Unit) :
    ∃ s', (Module.transformFunction p.transformer .standard Expr.fuel name f).exec s =
        ((p.revise name f s.world.next).1, s') ∧
      s'.world.next = (p.revise name f s.world.next).2 := by
  let act := Module.transformFunction p.transformer .standard Expr.fuel name f
  let fresh : Session Unit := .new () .standard s.world
  let ℓ : Relabeling := ⟨.refl _, s.world.next, s.world.next, (act.exec fresh).2.world.next,
    fun _ _ => rfl⟩
  have hs : fresh.Relabels ℓ (.new () .standard ⟨s.world.next, []⟩) :=
    ⟨Rules.standard_uniform _, rfl, rfl, 0, rfl, rfl⟩
  obtain ⟨hr, -, -, -, k, hk, hk'⟩ :=
    (p.transformFunction_tracks (ℓ := ℓ) name f).alike fresh _ hs le_rfl
  have hf : f.relabel (Equiv.refl Nat) = f := f.relabel_eq_self fun _ _ => rfl
  have hs : (act.exec s).1 = (act.exec fresh).1 ∧
    (act.exec s).2.world = (act.exec fresh).2.world := ⟨rfl, rfl⟩
  refine ⟨(act.exec s).2, Prod.ext ?_ rfl, ?_⟩
  · rw [hf] at hr
    exact hs.1.trans ((hr.trans (Revision.relabel_refl _)).symm)
  · rw [hf] at hk'
    rw [hs.2]
    exact hk.trans hk'.symm

variable {p name f n}

theorem revise_relabel {σ : Equiv.Perm Nat} (n' : Nat) {c : Nat} {r : Revision}
    (h : p.revise name f n = (r, n + c)) (hσ : ∀ k < c, σ (n + k) = n' + k) :
    p.revise name (f.relabel σ) n' = (r.relabel σ, n' + c) := by
  obtain ⟨hr, hn⟩ := Prod.mk.inj h
  let ℓ : Relabeling := ⟨σ, n, n', n + c, fun k hk => hσ k (Nat.lt_of_add_lt_add_left hk)⟩
  have hs : (Session.new () .standard ⟨n, []⟩).Relabels ℓ
      (Session.new () .standard ⟨n', []⟩) := ⟨Rules.standard_uniform σ, rfl, rfl, 0, rfl, rfl⟩
  obtain ⟨hr', -, -, -, k, hk, hk'⟩ :=
    (p.transformFunction_tracks (ℓ := ℓ) name f).alike _ _ hs hn.le
  obtain rfl : c = k := Nat.add_left_cancel (hn.symm.trans hk)
  exact Prod.ext (hr'.trans (congrArg (Revision.relabel σ) hr)) hk'

end Pass

/-- The function `f` goes through the passes, with the labels from `n` on unused; those from `n'` on
are left. Before each pass, and at the end, other work may take labels. -/
inductive Function.Goes (name : String) :
    List Pass → Function → (n : Nat) → Revision → (n' : Nat) → Prop
  | done {f n n'} (hn : n ≤ n') : Function.Goes name [] f n (.ok none) n'
  | pass {p ps f n m m' n' changed out} (hm : n ≤ m)
      (hp : p.revise name f m = (.ok changed, m'))
      (hps : Function.Goes name ps (changed.getD f) m' out n') :
      Function.Goes name (p :: ps) f n (out.after changed) n'
  | failed {p ps f n m m' n' fault} (hm : n ≤ m) (hp : p.revise name f m = (.error fault, m')) :
      Function.Goes name (p :: ps) f n (.error fault) n'

/-- The passes one right after the other. -/
def Pass.reviseAll (name : String) : List Pass → Function → Nat → Revision
  | [], _, _ => .ok none
  | p :: ps, f, n =>
    match p.revise name f n with
    | (.ok changed, m) => (Pass.reviseAll name ps (changed.getD f) m).after changed
    | (.error fault, _) => .error fault

/-- The labels from `m` to below `m'` moved down to those from `n` on, past those in between. -/
def lower (n m m' : Nat) (hm : n ≤ m) (hm' : m ≤ m') : Equiv.Perm Nat where
  toFun k := if k < n ∨ m' ≤ k then k else if m ≤ k then n + (k - m) else k + (m' - m)
  invFun k := if k < n ∨ m' ≤ k then k else if k < n + (m' - m) then m + (k - n) else k - (m' - m)
  left_inv k := by grind
  right_inv k := by grind

section

variable {n m m' : Nat} (hm : n ≤ m) (hm' : m ≤ m')

private theorem lower_of_lt {k : Nat} (hk : k < n) : lower n m m' hm hm' k = k :=
  if_pos (.inl hk)

private theorem lower_of_le {k : Nat} (hk : m' ≤ k) : lower n m m' hm hm' k = k :=
  if_pos (.inr hk)

private theorem lower_add {k : Nat} (hk : k < m' - m) : lower n m m' hm hm' (m + k) = n + k := by
  have h : lower n m m' hm hm' (m + k) = if m + k < n ∨ m' ≤ m + k then m + k
    else if m ≤ m + k then n + (m + k - m) else m + k + (m' - m) := rfl
  rw [h, if_neg (by omega), if_pos (by omega), Nat.add_sub_cancel_left]

private theorem Pass.revise_lower {p : Pass} {name : String} {f : Function} {r : Revision}
    (h : p.revise name f m = (r, m')) :
    p.revise name (f.relabel (lower n m m' hm hm')) n =
      (r.relabel (lower n m m' hm hm'), n + (m' - m)) := by
  refine p.revise_relabel n ?_ fun k hk => lower_add hm hm' hk
  rw [h, Nat.add_sub_cancel' hm']

end

namespace Function.Goes

variable {name : String} {ps qs : List Pass} {f : Function} {n n' : Nat} {out : Revision}

theorem widen {k k' : Nat} (h : Goes name ps f n out n') (hk : k ≤ n) (hk' : n' ≤ k') :
    Goes name ps f k out k' := by
  induction h generalizing k with
  | done hn => exact .done (hk.trans (hn.trans hk'))
  | pass hm hp _ ih => exact .pass (hk.trans hm) hp (ih le_rfl hk')
  | failed hm hp => exact .failed (hk.trans hm) hp

theorem single {p : Pass} {m m' : Nat} (hm : n ≤ m) (hp : p.revise name f m = (out, m'))
    (hm' : m' ≤ n') : Goes name [p] f n out n' := by
  cases out with
  | error fault => exact .failed hm hp
  | ok changed => exact .pass hm hp (.done hm')

theorem append {k k' : Nat} {changed : Option Function}
    (h : Goes name ps f n (.ok changed) n') (hk : n' ≤ k)
    (hq : Goes name qs (changed.getD f) k out k') :
    Goes name (ps ++ qs) f n (out.after changed) k' := by
  generalize hr : Except.ok changed = r at h
  induction h generalizing changed with
  | done hn =>
    cases hr
    exact (out.after_none).symm ▸ hq.widen (hn.trans hk) le_rfl
  | @pass _ _ _ _ _ _ _ first rest hm hp _ ih =>
    cases rest with
    | error fault => cases hr
    | ok last =>
      obtain rfl : changed = last.or first := Except.ok.inj hr
      rw [Option.getD_or] at hq
      exact out.after_after last first ▸ .pass hm hp (ih hk hq rfl)
  | failed => cases hr

theorem append_error {k' : Nat} {fault : Fault} (h : Goes name ps f n (.error fault) n') :
    Goes name (ps ++ qs) f n (.error fault) k' := by
  generalize hr : Except.error fault = r at h
  induction h with
  | done => cases hr
  | @pass _ _ _ _ _ _ _ first rest hm hp _ ih =>
    cases rest with
    | error fault' =>
      cases hr
      exact .pass hm hp (ih rfl)
    | ok => cases hr
  | failed hm hp =>
    cases hr
    exact .failed hm hp

/-- Labels that only stand for unused ones do not matter. -/
theorem relabel {σ : Equiv.Perm Nat} (h : Goes name ps f n out n') (hσ : ∀ k, n ≤ k → σ k = k) :
    Goes name ps (f.relabel σ) n (out.relabel σ) n' := by
  induction h with
  | done hn => exact .done hn
  | @pass p _ f _ m m' _ changed out hm hp _ ih =>
    obtain ⟨c, rfl⟩ := Nat.exists_eq_add_of_le (hp ▸ p.le_revise name f m)
    have hp' := p.revise_relabel (σ := σ) m hp fun k _ => hσ _ (by omega)
    have hps := ih fun k hk => hσ k (by omega)
    rw [← Option.getD_map (Function.relabel σ)] at hps
    exact out.relabel_after σ changed ▸ .pass hm hp' hps
  | @failed p _ f _ m m' _ fault hm hp =>
    obtain ⟨c, rfl⟩ := Nat.exists_eq_add_of_le (hp ▸ p.le_revise name f m)
    exact .failed hm (p.revise_relabel (σ := σ) m hp fun k _ => hσ _ (by omega))

/-- By induction on the passes. The labels that the first takes are moved down to those from `base`
on; what is left to do after it uses only labels above both. -/
private theorem exists_reviseAll (h : Goes name ps f n out n') {base : Nat} (hb : base ≤ n) :
    ∃ σ : Equiv.Perm Nat, (∀ k < base, σ k = k) ∧
      Pass.reviseAll name ps (f.relabel σ) base = out.relabel σ := by
  induction ps generalizing f n out base with
  | nil =>
    cases h
    exact ⟨.refl _, fun _ _ => rfl, rfl⟩
  | cons p ps ih =>
    cases h with
    | @pass _ _ _ _ m m' _ changed out hm hp hps =>
      have hle := hp ▸ p.le_revise name f m
      let τ := lower base m m' (hb.trans hm) hle
      have hlow := Pass.revise_lower (hb.trans hm) hle hp
      have hbase : base + (m' - m) ≤ m' := by omega
      obtain ⟨ρ, hρ, hr⟩ := ih (hps.relabel (σ := τ) fun k hk => lower_of_le _ _ hk) hbase
      refine ⟨τ.trans ρ, ?_, ?_⟩
      · intro k hk
        rw [Equiv.trans_apply, lower_of_lt _ _ hk, hρ k (by omega)]
      · have hfirst := p.revise_relabel base hlow fun k hk => hρ _ (by omega)
        rw [f.relabel_relabel, Revision.relabel_relabel] at hfirst
        rw [Function.relabel_relabel, ← Option.getD_map (Function.relabel (τ.trans ρ)),
          Revision.relabel_relabel] at hr
        rw [Pass.reviseAll, hfirst, Revision.relabel_after, ← hr]
        rfl
    | @failed _ _ _ _ m m' _ fault hm hp =>
      have hle := hp ▸ p.le_revise name f m
      have hlow := Pass.revise_lower (hb.trans hm) hle hp
      refine ⟨lower base m m' (hb.trans hm) hle, fun k hk => lower_of_lt _ _ hk, ?_⟩
      rw [Pass.reviseAll, hlow]
      rfl

/-- Two ways through the same passes come to the same, up to the labels from `base` on. -/
theorem alike {k k' : Nat} {out' : Revision} (h : Goes name ps f n out n')
    (h' : Goes name ps f k out' k') {base : Nat} (hn : base ≤ n) (hk : base ≤ k)
    (hf : ∀ l ∈ f.labels, l < base) :
    ∃ σ : Equiv.Perm Nat, (∀ l < base, σ l = l) ∧ out' = out.relabel σ := by
  obtain ⟨ρ, hρ, hr⟩ := h.exists_reviseAll hn
  obtain ⟨ρ', hρ', hr'⟩ := h'.exists_reviseAll hk
  rw [f.relabel_eq_self fun l hl => hρ l (hf l hl)] at hr
  rw [f.relabel_eq_self fun l hl => hρ' l (hf l hl), hr] at hr'
  refine ⟨ρ.trans ρ'.symm, ?_, ?_⟩
  · intro l hl
    rw [Equiv.trans_apply, hρ l hl, Equiv.symm_apply_eq, hρ' l hl]
  · rw [← out.relabel_relabel, hr', out'.relabel_relabel, Equiv.self_trans_symm, out'.relabel_refl]

end Function.Goes

end DataflowIR
