import DataflowIR.Proofs.Emission.Runs
import Mathlib.Algebra.Order.Group.Multiset
import Mathlib.Data.Multiset.Bind

namespace DataflowIR

open Session Transformer

mutual

/-- The bindings within the expression, at any depth. -/
def Expr.within : Expr → List Binding
  | .leaf .. | .var _ | .shape .. | .prim .. => []
  | .tuple _ fields => Expr.withinAll fields
  | .item _ whole _ => whole.within
  | .call _ callee args _ _ => callee.within ++ Expr.withinAll args
  | .ite _ cond onTrue onFalse => cond.within ++ (onTrue.within ++ onFalse.within)
  | .seq _ blocks body => Block.withinAll blocks ++ body.within
  | .function _ _ body _ _ => body.within

def Expr.withinAll : List Expr → List Binding
  | [] => []
  | e :: es => e.within ++ Expr.withinAll es

/-- The binding, and those within its value. -/
def Binding.within : Binding → List Binding
  | .bind mark v value => .bind mark v value :: value.within
  | .cast mark v value sinfo => .cast mark v value sinfo :: value.within

def Binding.withinAll : List Binding → List Binding
  | [] => []
  | b :: bs => b.within ++ Binding.withinAll bs

def Block.within : Block → List Binding
  | .mk _ _ bindings => Binding.withinAll bindings

def Block.withinAll : List Block → List Binding
  | [] => []
  | b :: bs => b.within ++ Block.withinAll bs

end

theorem Expr.within_withSinfo (e : Expr) (tag : Nat) (i : StructInfo) :
    (e.withSinfo tag i).within = e.within := by
  cases e <;> rfl

theorem Binding.within_eq (b : Binding) : b.within = b :: b.value.within := by
  cases b <;> rfl

theorem Block.within_eq (b : Block) : b.within = Binding.withinAll b.bindings := by
  cases b
  rfl

theorem Binding.withinAll_append (bs cs : List Binding) :
    withinAll (bs ++ cs) = withinAll bs ++ withinAll cs := by
  induction bs with
  | nil => rfl
  | cons b bs ih => rw [List.cons_append, withinAll, withinAll, ih, List.append_assoc]

theorem Block.withinAll_append (bs cs : List Block) :
    withinAll (bs ++ cs) = withinAll bs ++ withinAll cs := by
  induction bs with
  | nil => rfl
  | cons b bs ih => rw [List.cons_append, withinAll, withinAll, ih, List.append_assoc]

/-- Nothing is within a block without bindings. -/
private theorem Block.withinAll_filter (bs : List Block) :
    withinAll (bs.filter fun b => !b.bindings.isEmpty) = withinAll bs := by
  induction bs with
  | nil => rfl
  | cons b bs ih =>
    rw [List.filter_cons]
    cases h : b.bindings with
    | nil => simpa [h, withinAll, within_eq, Binding.withinAll] using ih
    | cons => simpa [h, withinAll] using ih

theorem Refills.within {n : Nat} {e e' : Expr} (h : Refills n e e') : e'.within = e.within := by
  cases h with
  | kept => rfl
  | filled => exact Expr.within_withSinfo _ _ _

/-- The default emits the binding `b` again: the node itself, or a new one of its kind that binds the
same identity. -/
def Binding.Remade (n : Nat) (b b' : Binding) : Prop :=
  b' = b ∨ (n ≤ b'.tag ∧ b'.var.id = b.var.id ∧ b'.kind = b.kind)

/-- The bindings emitted are the old ones, each made again once, and others of the handlers' own,
which satisfy `P`. The bindings found are those emitted, once each, and those inside the values of
the handlers' own. -/
def Accounts (P : Binding → Prop) (n : Nat) (old found emitted : Multiset Binding) : Prop :=
  ∃ own made : Multiset Binding, emitted = own + made ∧ (∀ b ∈ own, P b) ∧
    Multiset.Rel (Binding.Remade n) old made ∧
    found = emitted + own.bind fun b => (b.value.within : Multiset Binding)

namespace Accounts

variable {P : Binding → Prop} {n n' : Nat}
variable {old old' found found' emitted emitted' : Multiset Binding}

theorem zero : Accounts P n 0 0 0 := by
  refine ⟨0, 0, rfl, ?_, .zero, rfl⟩
  intro b hb
  exact absurd hb (Multiset.notMem_zero b)

theorem of_eq (h : Accounts P n old found emitted) (ho : old' = old) (hf : found' = found)
    (he : emitted' = emitted) : Accounts P n old' found' emitted' := by
  rw [ho, hf, he]
  exact h

theorem of_le (hn : n ≤ n') (h : Accounts P n' old found emitted) :
    Accounts P n old found emitted := by
  obtain ⟨own, made, he, hP, hmade, hf⟩ := h
  refine ⟨own, made, he, hP, hmade.mono ?_, hf⟩
  intro b _ b' _ hb
  exact hb.imp_right fun hnew => ⟨hn.trans hnew.1, hnew.2⟩

/-- One binding made again. -/
theorem one {b b' : Binding} (h : b.Remade n b') : Accounts P n {b} {b'} {b'} := by
  refine ⟨0, {b'}, (zero_add _).symm, ?_, ?_, ?_⟩
  · intro c hc
    exact absurd hc (Multiset.notMem_zero c)
  · exact Multiset.rel_cons_left.mpr ⟨b', 0, h, .zero, rfl⟩
  · rw [Multiset.zero_bind, add_zero]

theorem add (h : Accounts P n old found emitted) (k : Accounts P n old' found' emitted') :
    Accounts P n (old + old') (found + found') (emitted + emitted') := by
  obtain ⟨own, made, rfl, hP, hmade, rfl⟩ := h
  obtain ⟨own', made', rfl, hP', hmade', rfl⟩ := k
  refine ⟨own + own', made + made', by ac_rfl, ?_, hmade.add hmade', ?_⟩
  · intro b hb
    exact (Multiset.mem_add.mp hb).elim (hP b) (hP' b)
  · rw [Multiset.add_bind]
    ac_rfl

/-- Bindings emitted ready-made, with those inside their values. -/
private theorem of_forall {bs : List Binding} (h : ∀ b ∈ bs, P b) :
    Accounts P n 0 (Binding.withinAll bs) bs := by
  refine ⟨bs, 0, (add_zero _).symm, h, .zero, ?_⟩
  clear h
  induction bs with
  | nil => rfl
  | cons b bs ih =>
    rw [Binding.withinAll, Binding.within_eq, ← Multiset.coe_add, ih, ← Multiset.cons_coe,
      ← Multiset.cons_coe, Multiset.cons_bind]
    simp only [Multiset.cons_add]
    congr 1
    ac_rfl

/-- Where no value that a handler emits has a binding inside, what is found is what was emitted. -/
private theorem found_eq (h : Accounts P n old found emitted)
    (hP : ∀ b, P b → b.value.within = []) :
    found = emitted := by
  obtain ⟨own, made, rfl, hown, -, rfl⟩ := h
  have hnone : (own.bind fun b => (b.value.within : Multiset Binding)) = 0 := by
    rw [Multiset.bind_congr fun b hb => congrArg _ (hP b (hown b hb))]
    exact Multiset.bind_zero own
  rw [hnone, add_zero]

/-- Where handlers bind other identities than the old bindings do, their own bindings are those of
the other identities. -/
private theorem found_eq_filter (h : Accounts P n old found emitted) {ids : List Id}
    (hids : ∀ b ∈ old, b.var.id ∈ ids) (hP : ∀ b, P b → b.var.id ∉ ids) :
    found = emitted + (emitted.filter fun b => b.var.id ∉ ids).bind fun b =>
      (b.value.within : Multiset Binding) := by
  obtain ⟨own, made, rfl, hown, hmade, rfl⟩ := h
  have hnot : ∀ b' ∈ made, ¬b'.var.id ∉ ids := by
    intro b' hb'
    obtain ⟨b, hb, hremade⟩ := Multiset.exists_mem_of_rel_of_mem (Multiset.rel_flip.mpr hmade) hb'
    rcases hremade with rfl | ⟨-, hid, -⟩
    · exact not_not.mpr (hids _ hb)
    · exact not_not.mpr (hid ▸ hids b hb)
  rw [Multiset.filter_add, Multiset.filter_eq_self.mpr fun b hb => hP b (hown b hb),
    Multiset.filter_eq_nil.mpr hnot, add_zero]

end Accounts

/-- Any number of bindings are emitted at any moment. Those emitted when `base` nodes and more were
made satisfy `P`. -/
def Emissions.each (base : Nat) (P : Binding → Prop) : Emissions where
  emits _ _ n bs n' := n ≤ n' ∧ (base ≤ n → ∀ b ∈ bs, P b)
  le h := h.1

section Balance

variable {base : Nat} {P : Binding → Prop} {V : Id → Var → Prop}

theorem Emissions.Row.accounts {since : Nat} {d : Bool} {ms : List Moment} {n n' : Nat}
    {x : List Binding} (hbase : base ≤ n) (h : (Emissions.each base P).Row d ms n x n') :
    Accounts P since 0 (Binding.withinAll x) x := by
  apply Accounts.of_forall
  induction h with
  | nil => nofun
  | cons h hm _ ih =>
    exact List.forall_mem_append.mpr ⟨hm.2 (hbase.trans h), ih ((hbase.trans h).trans hm.1)⟩

variable {d : Bool} {n n' : Nat} {g l : List Binding}

theorem Expr.Visits.within_of_sameAs {e e' : Expr}
    (h : Expr.Visits (.each base P) V d n e g l e' n') (ht : e.tag < n) (hs : e'.sameAs e) :
    e'.within = e.within := by
  obtain rfl | ⟨v, w, rfl, rfl, -⟩ := h.eq_of_sameAs ht hs
  · rfl
  · rfl

theorem Expr.Scoped.within_of_sameAs {e e' : Expr} (h : Expr.Scoped (.each base P) V n e l e' n')
    (ht : e.tag < n) (hs : e'.sameAs e) : e'.within = e.within := by
  cases h with
  | bare h => exact h.within_of_sameAs ht hs
  | prefaced h _ hm =>
    have htag : _ = e.tag := beq_iff_eq.mp hs
    have hn := h.le
    simp only [Expr.tag, Expr.node] at htag ht
    omega

private theorem Expr.VisitAll.within_of_allSame {es es' : List Expr}
    (h : Expr.VisitAll (.each base P) V d n es g l es' n') (ht : Below n (Expr.tagsAll es))
    (hs : allSame Expr.sameAs es' es) : Expr.withinAll es' = Expr.withinAll es := by
  induction es generalizing n es' g l with
  | nil =>
    cases h
    rfl
  | cons e es ih =>
    cases h with
    | cons he hes =>
      obtain ⟨hte, hts⟩ := ht.append
      obtain ⟨hse, hss⟩ := Bool.and_eq_true_iff.mp hs
      rw [Expr.withinAll, he.within_of_sameAs (hte _ e.tag_mem_tags) hse,
        ih hes (hts.mono he.le) hss, Expr.withinAll]

/-- The rebuilt binding is found where its value was, and emitted after it. -/
theorem Remakes.accounts {n1 : Nat} {same : Bool} {b b' : Binding} {v : Var} {value : Expr}
    (h : Remakes n1 same b (b.rebuilt · v value) b') (hn : n ≤ n1) (hid : v.id = b.var.id)
    (hold : same = true → value.within = b.value.within)
    (hv : Accounts P n b.value.within (value.within ++ Binding.withinAll g : List Binding) l) :
    Accounts P n b.within (b'.within ++ Binding.withinAll g : List Binding)
      (b' :: l : List Binding) := by
  have heq : b'.value.within = value.within := by
    cases h with
    | same hs => exact (hold hs).symm
    | changed => cases b <;> rfl
  have hremade : b.Remade n b' := by
    cases h with
    | same => exact .inl rfl
    | changed hm => cases b <;> exact .inr ⟨hn.trans hm, hid, rfl⟩
  rw [Binding.within_eq, Binding.within_eq, heq]
  exact (Accounts.one hremade).add hv

private theorem Remakes.block_within {same : Bool} {b b' : Block} {kind : BlockKind}
    {out : List Binding}
    (h : Remakes n same b (.mk · kind out) b') (hold : same = true → out = b.bindings) :
    b'.within = Binding.withinAll out := by
  cases h with
  | same hs => rw [Block.within_eq, hold hs]
  | changed => rfl

mutual

theorem Expr.Visits.accounts {d : Bool} {n n' : Nat} {e e' : Expr} {g l : List Binding}
    (hbase : base ≤ n) (ht : Below n e.tags) (hvisits : Expr.Visits (.each base P) V d n e g l e' n') :
    Accounts P n e.within (e'.within ++ Binding.withinAll g : List Binding) l := by
  match hvisits with
  | .mk hb hw hf ha =>
    have hwalk := (Expr.Walks.accounts (hbase.trans hb.le) (ht.mono hb.le) hw).of_le hb.le
    have hafter := hbase.trans (hb.le.trans hw.le)
    have h := (hb.accounts hbase).add (hwalk.add (ha.accounts hafter))
    rw [hf.within]
    refine h.of_eq (by simp) ?_ rfl
    simp only [Binding.withinAll_append, ← Multiset.coe_add]
    ac_rfl

theorem Expr.Walks.accounts {d : Bool} {n n' : Nat} {e e' : Expr} {g l : List Binding}
    (hbase : base ≤ n) (ht : Below n e.tags) (hwalks : Expr.Walks (.each base P) V d n e g l e' n') :
    Accounts P n e.within (e'.within ++ Binding.withinAll g : List Binding) l := by
  match hwalks with
  | .leaf | .var _ => exact Accounts.zero
  | .shape h | .prim h => exact h.accounts hbase
  | .tuple hf hs =>
    have hts := ht.cons.2
    rw [hs.image Expr.within (fun _ => rfl) (hf.within_of_allSame hts)]
    exact Expr.VisitAll.accounts hbase hts hf
  | .item hw hs =>
    have htw := ht.cons.2
    rw [hs.image Expr.within (fun _ => rfl) (hw.within_of_sameAs (htw _ (Expr.tag_mem_tags _)))]
    have h := Expr.Visits.accounts hbase htw hw
    exact h
  | .call hc hx ha hs =>
    obtain ⟨htc, hta⟩ := ht.cons.2.append
    have hle := hc.le.trans hx.le
    have hta := hta.mono hle
    have hold := hs.image Expr.within (fun _ => rfl) fun hsame => by
      obtain ⟨hsa, hsc⟩ := Bool.and_eq_true_iff.mp hsame
      simp only [Expr.mkCall, Expr.within, ha.within_of_allSame hta hsa,
        hc.within_of_sameAs (htc _ (Expr.tag_mem_tags _)) hsc]
    have hargs := (Expr.VisitAll.accounts (hbase.trans hle) hta ha).of_le hle
    have hsinfo := hbase.trans hc.le
    have h := (Expr.Visits.accounts hbase htc hc).add ((hx.accounts hsinfo).add hargs)
    refine h.of_eq (by simp [Expr.within]) ?_ rfl
    simp only [hold, Expr.mkCall, Expr.within, Binding.withinAll_append, ← Multiset.coe_add]
    ac_rfl
  | .ite hc h1 h2 hs =>
    obtain ⟨htc, htb⟩ := ht.cons.2.append
    obtain ⟨ht1, ht2⟩ := htb.append
    have hle := hc.le.trans h1.le
    have ht1 := ht1.mono hc.le
    have ht2 := ht2.mono hle
    have hold := hs.image Expr.within (fun _ => rfl) fun hsame => by
      obtain ⟨hsct, hsf⟩ := Bool.and_eq_true_iff.mp hsame
      obtain ⟨hsc, hst⟩ := Bool.and_eq_true_iff.mp hsct
      simp only [Expr.mkIte, Expr.within, hc.within_of_sameAs (htc _ (Expr.tag_mem_tags _)) hsc,
        h1.within_of_sameAs (ht1 _ (Expr.tag_mem_tags _)) hst,
        h2.within_of_sameAs (ht2 _ (Expr.tag_mem_tags _)) hsf]
    have htrue := (Expr.Scoped.accounts (hbase.trans hc.le) ht1 h1).of_le hc.le
    have hfalse := (Expr.Scoped.accounts (hbase.trans hle) ht2 h2).of_le hle
    have h := (Expr.Visits.accounts hbase htc hc).add (htrue.add hfalse)
    refine h.of_eq (by simp [Expr.within]) ?_ rfl
    simp only [hold, Expr.mkIte, Expr.within, ← Multiset.coe_add]
    ac_rfl
  | .seq hb hy hs =>
    obtain ⟨htb, hty⟩ := ht.cons.2.append
    have hty := hty.mono hb.le
    have hold := hs.image Expr.within (fun _ => rfl) fun hsame => by
      obtain ⟨hsbg, hsy⟩ := Bool.and_eq_true_iff.mp hsame
      obtain ⟨hsb, hg⟩ := Bool.and_eq_true_iff.mp hsbg
      simp [Expr.mkSeq, Expr.within, Block.withinAll_filter, Block.withinAll_append,
        Block.withinAll, Block.within, Binding.withinAll, List.isEmpty_iff.mp hg,
        hb.eq_of_allSame htb hsb, hy.within_of_sameAs (hty _ (Expr.tag_mem_tags _)) hsy]
    have hbody := (Expr.Visits.accounts (hbase.trans hb.le) hty hy).of_le hb.le
    have h := (Block.VisitAll.accounts hbase htb hb).add hbody
    refine h.of_eq (by simp [Expr.within]) ?_ rfl
    simp only [hold, Expr.mkSeq, Expr.within, Block.withinAll_filter, Block.withinAll_append,
      Block.withinAll, Block.within, List.append_nil, ← Multiset.coe_add]
    ac_rfl
  | .function hp hb hs =>
    have hty := ht.cons.2.append.2.mono hp.le
    have hold := hs.image Expr.within (fun _ => rfl)
      (hb.within_of_sameAs (hty _ (Expr.tag_mem_tags _)))
    have hbody := (Expr.Scoped.accounts (hbase.trans hp.le) hty hb).of_le hp.le
    refine ((hp.accounts hbase).add hbody).of_eq (by simp [Expr.within]) ?_ rfl
    simp only [hold, Expr.mkFunction, Expr.within, ← Multiset.coe_add]
    ac_rfl

theorem Expr.VisitAll.accounts {d : Bool} {n n' : Nat} {es es' : List Expr} {g l : List Binding}
    (hbase : base ≤ n) (ht : Below n (Expr.tagsAll es)) (hvisits : Expr.VisitAll (.each base P) V d n es g l es' n') :
    Accounts P n (Expr.withinAll es) (Expr.withinAll es' ++ Binding.withinAll g : List Binding) l
      := by
  match hvisits with
  | .nil => exact Accounts.zero
  | .cons he hs =>
    obtain ⟨hte, hts⟩ := ht.append
    have hrest := (Expr.VisitAll.accounts (hbase.trans he.le) (hts.mono he.le) hs).of_le he.le
    have h := (Expr.Visits.accounts hbase hte he).add hrest
    refine h.of_eq (by simp [Expr.withinAll]) ?_ rfl
    simp only [Expr.withinAll, Binding.withinAll_append, ← Multiset.coe_add]
    ac_rfl

theorem Expr.Scoped.accounts {n n' : Nat} {e e' : Expr} {l : List Binding}
    (hbase : base ≤ n) (ht : Below n e.tags) (hscoped : Expr.Scoped (.each base P) V n e l e' n') :
    Accounts P n e.within (e'.within : List Binding) l := by
  match hscoped with
  | .bare h _ => simpa [Binding.withinAll] using Expr.Visits.accounts hbase ht h
  | .prefaced h _ _ _ =>
    refine (Expr.Visits.accounts hbase ht h).of_eq rfl ?_ rfl
    simp only [Expr.within, Block.withinAll, Block.within, ← Multiset.coe_add]
    ac_rfl

theorem Binding.Visits.accounts {d : Bool} {n n' : Nat} {b : Binding} {g l : List Binding}
    (hbase : base ≤ n) (ht : Below n b.tags) (h : Binding.Visits (.each base P) V d n b g l n') :
    Accounts P n b.within (Binding.withinAll g : List Binding) l := by
  match h with
  | .mk hb hv hd hk hs ha =>
    have htv : Below n b.value.tags := by
      cases b <;> exact ht.cons.2.cons.2
    have htv := htv.mono hb.le
    have hvalue := (Expr.Visits.accounts (hbase.trans hb.le) htv hv).of_le hb.le
    have hdef := hb.le.trans hv.le
    have hle := hdef.trans hd.le
    have hnew := hs.accounts hle hk.1 (hv.within_of_sameAs (htv _ (Expr.tag_mem_tags _))) hvalue
    have hvar := hbase.trans hdef
    have hafter := hbase.trans hle
    have h := (hb.accounts hbase).add (hnew.add ((hd.accounts hvar).add (ha.accounts hafter)))
    refine h.of_eq (by simp) ?_ ?_
    · simp only [Binding.withinAll_append, Binding.withinAll, ← Multiset.coe_add]
      ac_rfl
    · simp only [← Multiset.coe_add, ← Multiset.cons_coe, ← Multiset.singleton_add]
      ac_rfl

theorem Binding.VisitAll.accounts {d : Bool} {n n' : Nat} {bs : List Binding}
    {g l : List Binding} (hbase : base ≤ n) (ht : Below n (Binding.tagsAll bs))
    (h : Binding.VisitAll (.each base P) V d n bs g l n') :
    Accounts P n (Binding.withinAll bs) (Binding.withinAll g : List Binding) l := by
  match h with
  | .nil => exact Accounts.zero
  | .cons hb hs =>
    obtain ⟨htb, hts⟩ := ht.append
    have hrest := (Binding.VisitAll.accounts (hbase.trans hb.le) (hts.mono hb.le) hs).of_le hb.le
    rw [Binding.withinAll_append]
    exact (Binding.Visits.accounts hbase htb hb).add hrest

theorem Block.Visits.accounts {d : Bool} {n n' : Nat} {b b' : Block} {g l : List Binding}
    (hbase : base ≤ n) (ht : Below n b.tags) (hvisits : Block.Visits (.each base P) V d n b g l b' n') :
    Accounts P n b.within (b'.within ++ Binding.withinAll g : List Binding) l := by
  match hvisits with
  | .mk hb hv hs ha =>
    have htb : Below n (Binding.tagsAll b.bindings) := by
      cases b
      exact ht.cons.2
    have htb := htb.mono hb.le
    have hold := hs.block_within (hv.eq_of_allSame htb)
    have hinner := (Binding.VisitAll.accounts (hbase.trans hb.le) htb hv).of_le hb.le
    have hafter := hbase.trans (hb.le.trans hv.le)
    have h := (hb.accounts hbase).add (hinner.add (ha.accounts hafter))
    refine h.of_eq (by simp [Block.within_eq]) ?_ rfl
    simp only [hold, Binding.withinAll_append, ← Multiset.coe_add]
    ac_rfl

theorem Block.VisitAll.accounts {d : Bool} {n n' : Nat} {bs bs' : List Block}
    {g l : List Binding} (hbase : base ≤ n) (ht : Below n (Block.tagsAll bs))
    (hvisits : Block.VisitAll (.each base P) V d n bs g l bs' n') :
    Accounts P n (Block.withinAll bs) (Block.withinAll bs' ++ Binding.withinAll g : List Binding)
      l := by
  match hvisits with
  | .nil => exact Accounts.zero
  | .cons hb hs =>
    obtain ⟨htb, hts⟩ := ht.append
    have hrest := (Block.VisitAll.accounts (hbase.trans hb.le) (hts.mono hb.le) hs).of_le hb.le
    have h := (Block.Visits.accounts hbase htb hb).add hrest
    refine h.of_eq (by simp [Block.withinAll]) ?_ rfl
    simp only [Block.withinAll, Binding.withinAll_append, ← Multiset.coe_add]
    ac_rfl

end

end Balance

section Tables

variable {σ α β : Type} {base : Nat} {P : Binding → Prop} {m : Moment}

namespace Act.Emits

theorem pure (a : α) : (Pure.pure a : Build σ α).Emits (.each base P) m := by
  intro V s a s' h
  obtain ⟨-, rfl⟩ := Act.exec_pure_ok.mp h
  exact ⟨[], .refl s, le_refl _, fun _ => nofun⟩

theorem bind {act : Build σ α} {next : α → Build σ β} (h : act.Emits (.each base P) m)
    (k : ∀ a, (next a).Emits (.each base P) m) : (act >>= next).Emits (.each base P) m := by
  intro V s b s' hb
  obtain ⟨a, s1, h1, h2⟩ := Act.exec_bind_ok.mp hb
  obtain ⟨x, k1, hn1, hx⟩ := h V _ _ _ h1
  obtain ⟨y, k2, hn2, hy⟩ := k a V _ _ _ h2
  refine ⟨x ++ y, k1.trans k2, hn1.trans hn2, ?_⟩
  intro hn
  exact List.forall_mem_append.mpr ⟨hx hn, hy (hn.trans hn1)⟩

/-- A binding of a value has within it what the value has, and its variable is new. -/
theorem of_binds {act : Build σ α} {value : Expr}
    (h : ∀ {V : Id → Var → Prop} {s s' a}, act.exec s = (.ok a, s') → ∃ b, s.Gets V [b] [b] s' ∧
      b.Binds s.builder.inDataflow s.world.next value s'.world.next)
    (hP : ∀ b : Binding, b.value.within = value.within → base ≤ b.var.id.index → P b) : act.Emits (.each base P) m := by
  intro V s a s' ha
  obtain ⟨b, k, hb⟩ := h (V := V) ha
  refine ⟨[b], k, k.next, ?_⟩
  intro hn
  exact List.forall_mem_singleton.mpr (hP b hb.value.within (hn.trans hb.le))

end Act.Emits

private theorem Session.emit_emits {value : Expr} (hint : String)
    (hP : ∀ b : Binding, b.value.within = value.within → base ≤ b.var.id.index → P b) :
    (emit value hint : Build σ Var).Emits (.each base P) m :=
  .of_binds emit_gets hP

theorem Session.emitOutput_emits {value : Expr} (hint : String)
    (hP : ∀ b : Binding, b.value.within = value.within → base ≤ b.var.id.index → P b) :
    (emitOutput value hint : Build σ Var).Emits (.each base P) m :=
  .of_binds emitOutput_gets hP

theorem Session.emitCast_emits {value : Expr} (sinfo : StructInfo) (hint : String)
    (hP : ∀ b : Binding, b.value.within = value.within → base ≤ b.var.id.index → P b) :
    (emitCast value sinfo hint : Build σ Var).Emits (.each base P) m :=
  .of_binds emitCast_gets hP

theorem Session.emitBinding_emits {b : Binding} (hP : P b) :
    (emitBinding b : Build σ Unit).Emits (.each base P) m := by
  intro V s a s' h
  obtain ⟨-, -, k⟩ := emitBinding_gets (V := V) h
  exact ⟨[b], k, k.next, fun _ => List.forall_mem_singleton.mpr hP⟩

/-- A handler that leaves its place to the default, between steps of its own. -/
def Transformer.surround (before : Site → Build σ Unit)
    (after : (site : Site) → site.Result → Build σ Unit) : Transformer σ :=
  fun self site => do
    before site
    let r ← walk self site
    after site r
    return r

/-- The handler emits any number of bindings, leaves its place to the default, and may emit more.
What it emits when `base` nodes and more were made satisfies `P`. -/
def Transformer.Adds (base : Nat) (P : Binding → Prop) (h : Transformer σ) : Prop :=
  ∃ before after, (∀ site m, (before site).Emits (.each base P) m) ∧
    (∀ site r m, (after site r).Emits (.each base P) m) ∧ h = surround before after

/-- The hook emits any number of bindings and gives back the node. What it emits when `base` nodes
and more were made satisfies `P`. -/
def Hook.Adds (base : Nat) (P : Binding → Prop) (h : Hook σ) : Prop :=
  ∃ after : Expr → Build σ Unit, (∀ e m, (after e).Emits (.each base P) m) ∧
    h = fun _ e => do
      after e
      return e

structure TransformerTable.Adds (base : Nat) (P : Binding → Prop) (t : TransformerTable σ) : Prop where
  handler : ∀ {slot h}, t.handler slot = some h → h.Adds base P
  hook : ∀ {kind h}, t.hook kind = some h → Hook.Adds base P h

namespace TransformerTable.Adds

variable {t : TransformerTable σ}

theorem empty : (TransformerTable.empty : TransformerTable σ).Adds base P := by
  exact ⟨nofun, nofun⟩

theorem supply (ht : t.Adds base P) {h : Transformer σ} (hh : h.Adds base P) (slot : Slot) :
    (t.supply slot h).Adds base P := by
  refine ⟨?_, ht.hook⟩
  intro slot' h' hs
  simp only [TransformerTable.supply] at hs
  split at hs
  · cases hs
    exact hh
  · exact ht.handler hs

theorem surrounds (ht : t.Adds base P) (site : Site) : t.transformer.Surrounds (.each base P) site := by
  apply TransformerTable.surrounds
  · intro slot h _ hslot
    obtain ⟨before, after, hb, ha, rfl⟩ := ht.handler hslot
    exact .handled _ _ (hb site _) (fun r => ha site r _) fun _ => rfl
  · intro h _ hook
    cases site with
    | exprKind e =>
      obtain ⟨after, ha, rfl⟩ := ht.hook hook
      refine .hooked (pure ()) after (.pure ()) (fun r => ha r _) fun self => ?_
      simp [runHook]
    | _ => cases hook
  · intro _ _
    refine .handled (pure ()) (fun _ => pure ()) (.pure ()) (fun _ => .pure ()) fun self => ?_
    simp

end TransformerTable.Adds

/-- What handlers that emit bindings around the default, and hooks that emit bindings, leave behind,
where all they emit from the start of the visit on satisfies `P`. During the visit each binding of the
expression is emitted again, once, and the other emissions are the handlers' own. The bindings in the
result, and in what the block around the visit got, are those emitted, once each, together with those
inside the values of the handlers' own. Handlers that bind no identity of the expression, as those do
that make their variables, emit just the bindings of the other identities. -/
theorem visit_accounts {t : TransformerTable σ} {fuel : Fuel} {e e' : Expr}
    {s s' : Session σ} (ht : t.Adds s.world.next P) (hb : Below s.world.next e.tags)
    (h : (run t.transformer fuel (.expr e)).exec s = (.ok e', s')) :
    ∃ grown emitted : List Binding,
      s'.builder.frames = Frame.append grown s.builder.frames ∧
      (s.builder.frames = [] → grown = []) ∧
      s'.world.emissions = s.world.emissions ++ emitted ∧
      Accounts P s.world.next e.within (e'.within ++ Binding.withinAll grown : List Binding)
        emitted ∧
      ((∀ b, P b → b.value.within = []) →
        (e'.within ++ Binding.withinAll grown : Multiset Binding) = emitted) ∧
      ((∀ b, P b → b.var.id ∉ e.within.map (·.var.id)) →
        (e'.within ++ Binding.withinAll grown : Multiset Binding) = emitted +
          ((emitted : Multiset Binding).filter fun b => b.var.id ∉ e.within.map (·.var.id)).bind
            fun b => (b.value.within : Multiset Binding)) := by
  have hs : s.remap.Within fun _ _ => True := ⟨fun _ => trivial, fun _ _ _ _ _ _ => trivial⟩
  obtain ⟨g, l, hg, hv⟩ := (run_conforms ht.surrounds fuel).expr hs (fun _ _ _ _ _ => trivial) h
  have hacc := hv.accounts (le_refl _) hb
  refine ⟨g, l, hg.frames, hg.outside, hg.emissions, hacc, hacc.found_eq, ?_⟩
  apply hacc.found_eq_filter
  intro b hmem
  exact List.mem_map_of_mem (Multiset.mem_coe.mp hmem)

end Tables

namespace Emitted

def var (index : Nat) (name : String) : Var :=
  ⟨⟨⟨index, none⟩, none⟩, ⟨index, name⟩, false⟩

def x : Var := var 0 "x"

/-- The function gives back its parameter. -/
def same : Expr :=
  .function ⟨⟨2, none⟩, none⟩ [x] (.var x) .object .empty

def unit : Expr :=
  .tuple ⟨⟨3, none⟩, none⟩ []

/-- A function with a binding in it. -/
def binder (params : List Var) (value : Expr) : Expr :=
  .function ⟨⟨7, none⟩, none⟩ params
    (.mkSeq ⟨6, none⟩ [.mk ⟨5, none⟩ .plain [.bind ⟨4, none⟩ (var 1 "y") value]] (.var (var 1 "y")))
    .object .empty

def inner : Expr :=
  binder [] unit

/-- The value is emitted at each place of the slot. -/
def table (slot : Slot) (value : Expr) : TransformerTable Unit :=
  TransformerTable.empty.supply slot
    (surround (fun _ => do let _ ← emit value "") fun _ _ => pure ())

def visit (t : TransformerTable Unit) (e : Expr) (s : Session Unit) :
    Except Fault Expr × Session Unit :=
  (run t.transformer (.ofNat 10) (.expr e)).exec s

def session : Session Unit :=
  .new () .empty ⟨10, []⟩

/-- A session in which a block is open. -/
def opened : Session Unit :=
  ((beginBlock .plain).exec session).2

theorem table_adds {base : Nat} {P : Binding → Prop} (slot : Slot) {value : Expr}
    (hP : ∀ b : Binding, b.value.within = value.within → base ≤ b.var.id.index → P b) : (table slot value).Adds base P := by
  refine TransformerTable.Adds.empty.supply ⟨_, _, fun _ _ => ?_, fun _ _ _ => ?_, rfl⟩ slot
  · exact .bind (emit_emits _ hP) fun _ => .pure _
  · exact .pure _

/-- The bindings in the result are not those emitted during the visit. -/
def Unbalanced (t : TransformerTable Unit) (s : Session Unit) : Prop :=
  t.Adds 0 (fun _ => True) ∧ ∃ e' s' emitted, visit t same s = (.ok e', s') ∧
    s'.world.emissions = s.world.emissions ++ emitted ∧ (e'.within : Multiset Binding) ≠ emitted

private theorem Unbalanced.of_length {t : TransformerTable Unit} {s : Session Unit}
    (ht : t.Adds 0 fun _ => True) (hs : s.world.emissions = [])
    (h : (visit t same s).1.toOption.any fun e =>
      e.within.length != (visit t same s).2.world.emissions.length) : Unbalanced t s := by
  obtain ⟨e', he, hlen⟩ := (Option.any_eq_true _ _).mp h
  have hok : (visit t same s).1 = .ok e' := Except.toOption_eq_some_iff.mp he
  refine ⟨ht, e', _, _, Prod.ext hok rfl, by rw [hs, List.nil_append], ?_⟩
  intro heq
  have hcard := congrArg Multiset.card heq
  simp only [Multiset.coe_card] at hcard
  simp [hcard] at hlen

end Emitted

open Emitted in
/-- A function with a binding in it is bound before each of two uses. With the binding of the visited
function three are emitted, and five are found. -/
theorem visit_accounts_inner : ∃ e' s',
    visit (table (.exprKind .var) inner) (binder [x] (.var x)) session = (.ok e', s') ∧
      s'.world.emissions.length = 3 ∧ e'.within.length = 5 ∧
      (e'.within : Multiset Binding) = s'.world.emissions +
        ((s'.world.emissions : Multiset Binding).filter fun b => b.var.id ∉ [(var 1 "y").id]).bind
          fun b => (b.value.within : Multiset Binding) := by
  have ht : (table (.exprKind .var) inner).Adds 10 fun b => 10 ≤ b.var.id.index :=
    table_adds _ fun _ _ h => h
  have hok : (visit (table (.exprKind .var) inner) (binder [x] (.var x)) session).1.isOk := by
    decide +kernel
  obtain ⟨e', h⟩ := Act.eq_ok_of_isOk hok
  have hlen : ((visit (table (.exprKind .var) inner) (binder [x] (.var x)) session).1.toOption.any
      fun e => e.within.length == 5) := by
    decide +kernel
  rw [h, Except.toOption, Option.any_some, beq_iff_eq] at hlen
  obtain ⟨grown, emitted, -, hout, hl, -, -, heq⟩ := visit_accounts ht (by decide +kernel) h
  have hfound := heq fun b hnew hold => by
    have hid : b.var.id = (var 1 "y").id := by
      simpa [binder, Expr.mkSeq, Expr.within, Block.withinAll, Block.within, Binding.withinAll,
        Binding.within, Binding.var] using hold
    simp [hid, var] at hnew
  rw [hout rfl, Binding.withinAll, ← Multiset.coe_add, Multiset.coe_nil, add_zero] at hfound
  refine ⟨e', _, h, by decide +kernel, hlen, ?_⟩
  rw [hl]
  exact hfound

open Emitted in
/-- A value that is emitted may have bindings within it that were not, and what is emitted around
the whole visit goes to the block that is open there. -/
theorem visit_not_conserved :
    Unbalanced (table (.exprKind .var) inner) session ∧
      Unbalanced (table (.exprKind .function) unit) opened := by
  refine ⟨.of_length (table_adds _ fun _ _ _ => trivial) rfl ?_,
    .of_length (table_adds _ fun _ _ _ => trivial) rfl ?_⟩
  all_goals decide +kernel

end DataflowIR
