import DataflowIR.Proofs.Scoping.Trace
import Mathlib.Order.Nat

namespace DataflowIR.Scope

variable {known : String → Bool}

/-- A mention once all variables are regular. -/
def Mention.regular : Mention → Mention
  | .var id _ => .var id false
  | m => m

/-- A mention once the dataflow variables in `replaced` are regular. -/
def Mention.under (kind replaced : Id → Bool) : Mention → Mention
  | .var id _ => .var id (kind id && !replaced id)
  | m => m

/-- Operations that always succeed and change nothing. -/
def Op.Idle : Op → Prop
  | .record .. => True
  | .mention m => m = .syms []
  | .sum ss _ => ss = []
  | _ => False

theorem Op.Idle.step {op : Op} (h : op.Idle) (w : Walk) : step known op w = some w := by
  cases op with
  | record => rfl
  | mention m =>
    obtain rfl := show m = .syms [] from h
    exact require_of_allows nofun
  | sum ss =>
    obtain rfl := show ss = [] from h
    exact require_of_allows nofun
  | _ => cases h

/-- The dataflow variables that are replaced, now and after each scope, and the new variables: those
that may be mentioned, and a bound on their indices. -/
structure Lowering where
  replaced : Id → Bool
  saved : List (Id → Bool)
  live : List Id
  next : Nat

namespace Lowering

/-- A dataflow variable is replaced where it is defined. -/
def define (kind : Id → Bool) (id : Id) (s : Lowering) : Lowering :=
  { s with replaced := fun j => s.replaced j || (decide (j = id) && kind id) }

def create (id : Id) (s : Lowering) : Lowering :=
  { s with live := id :: s.live, next := id.index + 1 }

def enter (s : Lowering) : Lowering :=
  ⟨s.replaced, s.replaced :: s.saved, [], s.next⟩

end Lowering

/-- The operations with all variables regular and those of the lowered program. -/
inductive Lowers (kind : Id → Bool) : Lowering → List Op → List Op → Lowering → Prop
  | nil {s} : Lowers kind s [] [] s
  | mention {s s' ops ops'} (m : Mention) (hs : Lowers kind s ops ops' s') :
      Lowers kind s (.mention m.regular :: ops) (.mention (m.under kind s.replaced) :: ops') s'
  | sum {s s' ops ops'} (ss : List SymVar) (id : Id) (hs : Lowers kind s ops ops' s') :
      Lowers kind s (.sum ss id :: ops) (.sum ss id :: ops') s'
  | introduce {s s' ops ops'} (ss : List SymVar) (hs : Lowers kind s ops ops' s') :
      Lowers kind s (.introduce ss :: ops) (.introduce ss :: ops') s'
  | define {s s' ops ops'} (id : Id) (hs : Lowers kind (s.define kind id) ops ops' s') :
      Lowers kind s (.define id false :: ops) (.define id false :: ops') s'
  | conditional {s s' ops ops'} (hs : Lowers kind s ops ops' s') :
      Lowers kind s (.conditional :: ops) (.conditional :: ops') s'
  | enter {s s' ops ops'} (hs : Lowers kind s.enter ops ops' s') :
      Lowers kind s (.enter :: ops) (.enter :: ops') s'
  | leave {replaced outer saved live next s' ops ops'}
      (hs : Lowers kind ⟨outer, saved, [], next⟩ ops ops' s') :
      Lowers kind ⟨replaced, outer :: saved, live, next⟩ (.leave :: ops) (.leave :: ops') s'
  | note {s s' id factors ops ops'} (hs : Lowers kind s ops ops' s') :
      Lowers kind s (.record id factors :: ops) ops' s'
  | idle {s s' op ops ops'} (h : op.Idle) (hs : Lowers kind s ops ops' s') :
      Lowers kind s ops (op :: ops') s'
  | fresh {s s' ops ops'} (id : Id) (h : s.next ≤ id.index)
      (hs : Lowers kind (s.create id) ops ops' s') :
      Lowers kind s ops (.define id false :: ops') s'
  | own {s s' ops ops'} (id : Id) (h : id ∈ s.live) (hs : Lowers kind s ops ops' s') :
      Lowers kind s ops (.mention (.var id false) :: ops') s'
  | forget {s s' next ops ops'} (h : s.next ≤ next)
      (hs : Lowers kind { s with live := [], next } ops ops' s') : Lowers kind s ops ops' s'

namespace Lowers

variable {kind : Id → Bool} {s s' s'' : Lowering} {ops ops' more more' : List Op}

theorem append (h : Lowers kind s ops ops' s') (k : Lowers kind s' more more' s'') :
    Lowers kind s (ops ++ more) (ops' ++ more') s'' := by
  induction h with
  | nil => exact k
  | mention m _ ih => exact .mention m (ih k)
  | sum ss id _ ih => exact .sum ss id (ih k)
  | introduce ss _ ih => exact .introduce ss (ih k)
  | define id _ ih => exact .define id (ih k)
  | conditional _ ih => exact .conditional (ih k)
  | enter _ ih => exact .enter (ih k)
  | leave _ ih => exact .leave (ih k)
  | note _ ih => exact .note (ih k)
  | idle h _ ih => exact .idle h (ih k)
  | fresh id h _ ih => exact .fresh id h (ih k)
  | own id h _ ih => exact .own id h (ih k)
  | forget h _ ih => exact .forget h (ih k)

theorem mentions (ms : List Mention) : Lowers kind s ((ms.map Mention.regular).map .mention)
    ((ms.map (Mention.under kind s.replaced)).map .mention) s := by
  induction ms with
  | nil => exact .nil
  | cons m ms ih => exact .mention m ih

theorem nested {replaced replaced' : Id → Bool} {saved : List (Id → Bool)} {next next' : Nat}
    (h : Lowers kind ⟨replaced, replaced :: saved, [], next⟩ ops ops'
      ⟨replaced', replaced :: saved, [], next'⟩) :
    Lowers kind ⟨replaced, saved, [], next⟩ (nested ops) (nested ops')
      ⟨replaced, saved, [], next'⟩ :=
  .enter (h.append (.leave .nil))

theorem later (h : Lowers kind s ops ops' s') {next : Nat} (hn : s'.next ≤ next) :
    Lowers kind s ops ops' { s' with live := [], next } := by
  have h := h.append (.forget hn .nil)
  rwa [List.append_nil, List.append_nil] at h

theorem records (id id' : Id) (factors factors' : Option (List Mention)) :
    Lowers kind s [.record id factors] [.record id' factors'] s :=
  .note (.idle trivial .nil)

theorem bind (h : Lowers kind s ops ops' s') {id id' : Id} {dataflow : Bool}
    (hd : Lowers kind s' [.define id false] [.define id' dataflow] s'')
    (factors factors' : Option (List Mention)) :
    Lowers kind s (ops ++ [.define id false, .record id factors])
      (ops' ++ [.define id' dataflow, .record id' factors']) s'' :=
  h.append (hd.append (records id id' factors factors'))

theorem cast (h : Lowers kind s ops ops' s') {id id' : Id} {dataflow : Bool}
    (hd : Lowers kind s' [.define id false] [.define id' dataflow] s'') (ss : List SymVar) :
    Lowers kind s (ops ++ [.introduce ss, .define id false])
      (ops' ++ [.introduce ss, .define id' dataflow]) s'' :=
  h.append (.introduce ss hd)

/-- A call that is lowered mentions what it did; around its function and its arguments the new
variables are defined. -/
theorem lowered {alloc called : Id} {next : Nat} {note note' idle : Op} (hnote : note.Idle)
    (hnote' : note'.Idle) (hidle : idle.Idle) (ha : s.next ≤ alloc.index)
    (hc : alloc.index < called.index) (hn : called.index < next) (ms fs args : List Mention)
    (h : Lowers kind { s with live := [], next } ops ops' s') :
    Lowers kind s (((ms ++ (fs ++ args)).map Mention.regular).map .mention ++ ops)
      ((ms.map (Mention.under kind s.replaced)).map .mention ++ .define alloc false :: note ::
        ((fs.map (Mention.under kind s.replaced)).map .mention ++ idle ::
          ((args.map (Mention.under kind s.replaced)).map .mention ++
            .mention (.var alloc false) :: .define called false :: note' ::
              .mention (.var alloc false) :: ops'))) s' := by
  have hend : Lowers kind ((s.create alloc).create called) ops
      (.mention (.var alloc false) :: ops') s' :=
    .own alloc (List.mem_cons_of_mem _ List.mem_cons_self) (.forget hn h)
  have hcalled : Lowers kind (s.create alloc) ops
      (.mention (.var alloc false) :: .define called false :: note' ::
        .mention (.var alloc false) :: ops') s' :=
    .own alloc List.mem_cons_self (.fresh called hc (.idle hnote' hend))
  simp only [List.map_append, List.append_assoc]
  refine (mentions ms).append (.fresh alloc ha (.idle hnote ?_))
  exact (mentions fs).append (.idle hidle ((mentions args).append hcalled))

/-- The struct info arguments of a call are the same. -/
theorem sinfoOp (c : Call) (h : Lowers kind s ops ops' s') :
    Lowers kind s (c.sinfoOp :: ops) (c.sinfoOp :: ops') s' := by
  unfold Call.sinfoOp
  split
  · exact .sum _ _ h
  · exact .mention (.syms _) h

end Lowers

/-- The variables in scope in the two runs: the same of the old ones, of which those that were
dataflow variables are replaced. -/
structure Agrees (kind : Id → Bool) (base next : Nat) (replaced : Id → Bool)
    (vars vars' : List Id) : Prop where
  old : ∀ id, id.index < base → (id ∈ vars' ↔ id ∈ vars)
  below : ∀ id ∈ vars', id.index < next
  replaced : ∀ id, kind id → (replaced id ↔ id ∈ vars)

inductive AgreeAll (kind : Id → Bool) (base next : Nat) :
    List (Id → Bool) → List (List Id) → List (List Id) → Prop
  | nil : AgreeAll kind base next [] [] []
  | cons {replaced vars vars' saved outer outer'} (h : Agrees kind base next replaced vars vars')
      (hs : AgreeAll kind base next saved outer outer') :
      AgreeAll kind base next (replaced :: saved) (vars :: outer) (vars' :: outer')

structure Simulates (kind : Id → Bool) (base : Nat) (s : Lowering) (w w' : Walk) : Prop where
  le : base ≤ s.next
  vars : Agrees kind base s.next s.replaced w.scope.vars w'.scope.vars
  saved : AgreeAll kind base s.next s.saved w.saved w'.saved
  syms : w'.scope.syms = w.scope.syms
  plain : w.scope.inDataflow = false
  plain' : w'.scope.inDataflow = false
  live : ∀ id ∈ s.live, id ∈ w'.scope.vars

variable {kind : Id → Bool} {base : Nat}

theorem Agrees.mono {next next' : Nat} {replaced : Id → Bool} {vars vars' : List Id}
    (h : Agrees kind base next replaced vars vars') (hn : next ≤ next') :
    Agrees kind base next' replaced vars vars' := by
  refine ⟨h.old, ?_, h.replaced⟩
  intro id hid
  exact (h.below id hid).trans_le hn

/-- A variable of both programs is defined. -/
theorem Agrees.define {next : Nat} {replaced : Id → Bool} {vars vars' : List Id}
    (h : Agrees kind base next replaced vars vars') {id : Id} (hid : id.index < next) :
    Agrees kind base next (fun j => replaced j || (decide (j = id) && kind id)) (id :: vars)
      (id :: vars') := by
  constructor
  · intro j hj
    simp [h.old j hj]
  · intro j hj
    obtain rfl | hj := List.mem_cons.mp hj
    · exact hid
    · exact h.below j hj
  · intro j hj
    simp only [Bool.or_eq_true, Bool.and_eq_true, decide_eq_true_eq, h.replaced j hj,
      List.mem_cons]
    constructor
    · rintro (hj' | ⟨rfl, -⟩)
      · exact .inr hj'
      · exact .inl rfl
    · rintro (rfl | hj')
      · exact .inr ⟨rfl, hj⟩
      · exact .inl hj'

/-- A new variable is defined in the lowered program. -/
theorem Agrees.create {next : Nat} {replaced : Id → Bool} {vars vars' : List Id}
    (h : Agrees kind base next replaced vars vars') (hle : base ≤ next) {id : Id}
    (hid : next ≤ id.index) : Agrees kind base (id.index + 1) replaced vars (id :: vars') := by
  constructor
  · intro j hj
    have hne : j ≠ id := by
      rintro rfl
      omega
    rw [← h.old j hj, List.mem_cons, or_iff_right hne]
  · intro j hj
    obtain rfl | hj := List.mem_cons.mp hj
    · exact Nat.lt_succ_self _
    · have hlt := h.below j hj
      omega
  · exact h.replaced

theorem AgreeAll.mono {next next' : Nat} {saved : List (Id → Bool)} {outer outer' : List (List Id)}
    (h : AgreeAll kind base next saved outer outer') (hn : next ≤ next') :
    AgreeAll kind base next' saved outer outer' := by
  induction h with
  | nil => exact .nil
  | cons h _ ih => exact .cons (h.mono hn) ih

namespace Simulates

variable {s : Lowering} {w w' : Walk}

theorem forget (h : Simulates kind base s w w') {next : Nat} (hn : s.next ≤ next) :
    Simulates kind base { s with live := [], next } w w' := by
  exact ⟨h.le.trans hn, h.vars.mono hn, h.saved.mono hn, h.syms, h.plain, h.plain', nofun⟩

/-- The two runs allow the same mentions. -/
private theorem allows_iff (h : Simulates kind base s w w') {m : Mention}
    (hm : ∀ id dataflow, m = .var id dataflow → id.index < base) :
    w'.scope.Allows known (m.under kind s.replaced) ↔ w.scope.Allows known m.regular := by
  cases m with
  | var id dataflow =>
    have hold := h.vars.old id (hm id dataflow rfl)
    have hrep := h.vars.replaced id
    cases hk : kind id with
    | false => simpa [Mention.under, Mention.regular, Allows, hk] using hold
    | true =>
      cases hr : s.replaced id with
      | false => simpa [Mention.under, Mention.regular, Allows, hk, hr, h.plain'] using hrep hk
      | true => simpa [Mention.under, Mention.regular, Allows, hk, hr] using hold
  | syms ss => simp [Mention.under, Mention.regular, Allows, h.syms]
  | global name => rfl
  | misplaced => rfl

end Simulates

/-- Both steps fail, or both succeed and the runs go on alike. -/
theorem run_cons_iff {op op' : Op} {ops ops' : List Op} {w w' : Walk}
    (h : (step known op' w' = none ∧ step known op w = none) ∨
      ∃ w1 w1', step known op' w' = some w1' ∧ step known op w = some w1 ∧
        ((∃ v, run known ops' w1' = some v) ↔ ∃ v, run known ops w1 = some v)) :
    (∃ v, run known (op' :: ops') w' = some v) ↔ ∃ v, run known (op :: ops) w = some v := by
  obtain ⟨h', h⟩ | ⟨w1, w1', h', h, hiff⟩ := h
  · simp [run, h', h]
  · simpa [run, h', h] using hiff

/-- Both runs go on alike where both allow what is mentioned. -/
private theorem run_require_iff {op op' : Op} {m m' : Mention} {ops ops' : List Op} {w w' : Walk}
    (hop : step known op w = require known m w) (hop' : step known op' w' = require known m' w')
    (ha : w'.scope.Allows known m' ↔ w.scope.Allows known m)
    (h : (∃ v, run known ops' w' = some v) ↔ ∃ v, run known ops w = some v) :
    (∃ v, run known (op' :: ops') w' = some v) ↔ ∃ v, run known (op :: ops) w = some v := by
  apply run_cons_iff
  rw [hop, hop']
  by_cases hm : w.scope.Allows known m
  · exact .inr ⟨w, w', require_of_allows (ha.mpr hm), require_of_allows hm, h⟩
  · exact .inl ⟨if_neg (mt ha.mp hm), if_neg hm⟩

theorem run_cons_of_step {op : Op} {ops : List Op} {w w1 : Walk} (h : step known op w = some w1) :
    run known (op :: ops) w = run known ops w1 := by
  rw [run, h, Option.bind_some]

namespace Simulates

variable {s : Lowering} {w w' : Walk}

theorem define (h : Simulates kind base s w w') {id : Id} (hid : id.index < base) :
    (step known (.define id false) w' = none ∧ step known (.define id false) w = none) ∨
      ∃ w1 w1', step known (.define id false) w' = some w1' ∧
        step known (.define id false) w = some w1 ∧
        Simulates kind base (s.define kind id) w1 w1' := by
  have hold := h.vars.old id hid
  by_cases hm : id ∈ w.scope.vars
  · left
    have hm' : id ∈ w'.scope.vars := hold.mpr hm
    simp [step, define?, hm, hm']
  · right
    have hm' : id ∉ w'.scope.vars := mt hold.mp hm
    have hvars := h.vars.define (hid.trans_le h.le)
    refine ⟨⟨{ w.scope with vars := id :: w.scope.vars }, w.saved⟩,
      ⟨{ w'.scope with vars := id :: w'.scope.vars }, w'.saved⟩, ?_, ?_, ?_⟩
    · simp [step, define?, hm']
    · simp [step, define?, hm]
    · exact ⟨h.le, hvars, h.saved, h.syms, h.plain, h.plain',
        fun j hj => List.mem_cons_of_mem _ (h.live j hj)⟩

theorem create (h : Simulates kind base s w w') {id : Id} (hid : s.next ≤ id.index) :
    ∃ w1', step known (.define id false) w' = some w1' ∧
      Simulates kind base (s.create id) w w1' := by
  have hm : id ∉ w'.scope.vars := by
    intro hm
    have hlt := h.vars.below id hm
    omega
  have hn : s.next ≤ id.index + 1 := by omega
  have hlive : ∀ j ∈ id :: s.live, j ∈ id :: w'.scope.vars := by
    intro j hj
    obtain rfl | hj := List.mem_cons.mp hj
    · exact List.mem_cons_self
    · exact List.mem_cons_of_mem _ (h.live j hj)
  refine ⟨⟨{ w'.scope with vars := id :: w'.scope.vars }, w'.saved⟩, ?_, ?_⟩
  · simp [step, define?, hm]
  · exact ⟨h.le.trans hn, h.vars.create h.le hid, h.saved.mono hn, h.syms, h.plain, h.plain', hlive⟩

theorem enter (h : Simulates kind base s w w') :
    Simulates kind base s.enter ⟨w.scope, w.scope.vars :: w.saved⟩
      ⟨w'.scope, w'.scope.vars :: w'.saved⟩ := by
  exact ⟨h.le, h.vars, .cons h.vars h.saved, h.syms, h.plain, h.plain', nofun⟩

end Simulates

/-- The lowered operations succeed exactly where those with all variables regular do. -/
theorem Lowers.run_iff {s s' : Lowering} {ops ops' : List Op} (h : Lowers kind s ops ops' s')
    {w w' : Walk} (hw : Simulates kind base s w w')
    (hold : ∀ op ∈ ops, ∀ a, op.var? = some a → a.1.index < base) :
    (∃ v, run known ops' w' = some v) ↔ ∃ v, run known ops w = some v := by
  induction h generalizing w w' with
  | nil => exact ⟨fun _ => ⟨w, rfl⟩, fun _ => ⟨w', rfl⟩⟩
  | mention m _ ih =>
    obtain ⟨hm, hold⟩ := List.forall_mem_cons.mp hold
    refine run_require_iff rfl rfl (hw.allows_iff ?_) (ih hw hold)
    intro id dataflow he
    subst he
    exact hm _ rfl
  | sum ss id _ ih =>
    obtain ⟨-, hold⟩ := List.forall_mem_cons.mp hold
    exact run_require_iff (m := .syms ss) rfl rfl (by simp [Allows, hw.syms]) (ih hw hold)
  | introduce ss _ ih =>
    obtain ⟨-, hold⟩ := List.forall_mem_cons.mp hold
    refine run_cons_iff (.inr ⟨_, _, rfl, rfl, ih ?_ hold⟩)
    exact ⟨hw.le, hw.vars, hw.saved, congrArg (ss ++ ·) hw.syms, hw.plain, hw.plain', hw.live⟩
  | define id _ ih =>
    obtain ⟨hid, hold⟩ := List.forall_mem_cons.mp hold
    refine run_cons_iff ((hw.define (hid _ rfl)).imp_right ?_)
    rintro ⟨w1, w1', h', h, hs⟩
    exact ⟨w1, w1', h', h, ih hs hold⟩
  | conditional _ ih =>
    obtain ⟨-, hold⟩ := List.forall_mem_cons.mp hold
    refine run_cons_iff (.inr ⟨w, w', ?_, ?_, ih hw hold⟩)
    · simp [step, hw.plain']
    · simp [step, hw.plain]
  | enter _ ih =>
    obtain ⟨-, hold⟩ := List.forall_mem_cons.mp hold
    exact run_cons_iff (.inr ⟨_, _, rfl, rfl, ih hw.enter hold⟩)
  | leave _ ih =>
    obtain ⟨-, hold⟩ := List.forall_mem_cons.mp hold
    obtain ⟨sc, saved⟩ := w
    obtain ⟨sc', saved'⟩ := w'
    obtain ⟨hle, -, hsaved, hsyms, hplain, hplain', -⟩ := hw
    cases hsaved with
    | cons hv hs =>
      refine run_cons_iff (.inr ⟨_, _, rfl, rfl, ih ?_ hold⟩)
      exact ⟨hle, hv, hs, hsyms, hplain, hplain', nofun⟩
  | note _ ih =>
    obtain ⟨-, hold⟩ := List.forall_mem_cons.mp hold
    exact ih hw hold
  | idle h _ ih =>
    rw [run_cons_of_step (h.step w')]
    exact ih hw hold
  | fresh id h _ ih =>
    obtain ⟨w1', hs, hw⟩ := hw.create h
    rw [run_cons_of_step hs]
    exact ih hw hold
  | own id h _ ih =>
    have hs : step known (.mention (.var id false)) _ = _ := require_of_allows (hw.live id h)
    rw [run_cons_of_step hs]
    exact ih hw hold
  | forget h _ ih => exact ih (hw.forget h) hold

end DataflowIR.Scope
