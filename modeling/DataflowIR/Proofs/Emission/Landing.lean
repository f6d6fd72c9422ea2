import DataflowIR.Proofs.Emission.Constants
import DataflowIR.Proofs.Scoping.Operands

namespace DataflowIR

open Scope (Op Mention Fit Extends)
open Transformer (allSame)

mutual

/-- The moments around the sequences of the expression and around the blocks of these. -/
def Expr.seqMoments : Expr → List Moment
  | .leaf .. | .var _ | .shape .. | .prim .. => []
  | .tuple _ fields => Expr.seqMomentsAll fields
  | .item _ whole _ => whole.seqMoments
  | .call _ callee args _ _ => callee.seqMoments ++ Expr.seqMomentsAll args
  | .ite _ cond onTrue onFalse => cond.seqMoments ++ (onTrue.seqMoments ++ onFalse.seqMoments)
  | .seq node blocks body =>
    (Expr.seq node blocks body).around ++
      (blocks.flatMap Block.around ++ (Block.seqMomentsAll blocks ++ body.seqMoments))
  | .function _ _ body _ _ => body.seqMoments

def Expr.seqMomentsAll : List Expr → List Moment
  | [] => []
  | e :: es => e.seqMoments ++ Expr.seqMomentsAll es

def Binding.seqMoments : Binding → List Moment
  | .bind _ _ value | .cast _ _ value _ => value.seqMoments

def Binding.seqMomentsAll : List Binding → List Moment
  | [] => []
  | b :: bs => b.seqMoments ++ Binding.seqMomentsAll bs

def Block.seqMoments : Block → List Moment
  | .mk _ _ bindings => Binding.seqMomentsAll bindings

def Block.seqMomentsAll : List Block → List Moment
  | [] => []
  | b :: bs => b.seqMoments ++ Block.seqMomentsAll bs

end

/-- The moments around the sequences of the expression, apart from the entry to a sequence and the
exit from it. -/
def Expr.innerMoments : Expr → List Moment
  | .seq _ blocks body =>
    blocks.flatMap Block.around ++ (Block.seqMomentsAll blocks ++ body.seqMoments)
  | e => e.seqMoments

mutual

/-- No dataflow block stands inside a dataflow block. -/
def Expr.isFlat (inside : Bool) : Expr → Bool
  | .leaf .. | .var _ | .shape .. | .prim .. => true
  | .tuple _ fields => Expr.areFlat inside fields
  | .item _ whole _ => whole.isFlat inside
  | .call _ callee args _ _ => callee.isFlat inside && Expr.areFlat inside args
  | .ite _ cond onTrue onFalse =>
    cond.isFlat inside && (onTrue.isFlat inside && onFalse.isFlat inside)
  | .seq _ blocks body => Block.areFlat inside blocks && body.isFlat inside
  | .function _ _ body _ _ => body.isFlat inside

def Expr.areFlat (inside : Bool) : List Expr → Bool
  | [] => true
  | e :: es => e.isFlat inside && Expr.areFlat inside es

def Binding.isFlat (inside : Bool) : Binding → Bool
  | .bind _ _ value | .cast _ _ value _ => value.isFlat inside

def Binding.areFlat (inside : Bool) : List Binding → Bool
  | [] => true
  | b :: bs => b.isFlat inside && Binding.areFlat inside bs

def Block.isFlat (inside : Bool) : Block → Bool
  | .mk _ .plain bindings => Binding.areFlat inside bindings
  | .mk _ .dataflow bindings => !inside && Binding.areFlat true bindings

def Block.areFlat (inside : Bool) : List Block → Bool
  | [] => true
  | b :: bs => b.isFlat inside && Block.areFlat inside bs

end

mutual

private theorem Expr.seqMoments_of_isNormal {e : Expr} (h : e.isNormal) : e.seqMoments = [] := by
  cases e with
  | leaf | var _ | shape | prim => rfl
  | tuple _ _ => exact Expr.seqMomentsAll_of_areNormal h
  | item | call | ite | seq | function => cases h

theorem Expr.seqMomentsAll_of_areNormal {es : List Expr} (h : Expr.areNormal es) :
    Expr.seqMomentsAll es = [] := by
  cases es with
  | nil => rfl
  | cons e es =>
    rw [Expr.areNormal, Bool.and_eq_true] at h
    rw [Expr.seqMomentsAll, Expr.seqMoments_of_isNormal h.1, Expr.seqMomentsAll_of_areNormal h.2,
      List.append_nil]

end

/-- Only a sequence depends on whether it is a body. -/
private theorem Expr.ops_of_isSeq_eq_false {e : Expr} (h : e.isSeq = false)
    (asBody asBody' : Bool) :
    e.ops asBody = e.ops asBody' := by
  cases e with
  | seq => cases h
  | _ => rfl

private theorem Expr.misplaced_mem_ops {e : Expr} (h : e.isSeq) :
    .mention .misplaced ∈ e.ops false := by
  cases e with
  | seq => exact List.mem_singleton_self _
  | _ => cases h

namespace Scope

/-- What is inserted stands where it may, and no handler acts at one of the moments; or else one
does, and something stands where it may not. -/
inductive Outcome (acts : Moment → Bool) (ms : List Moment) (c : Bool) (ops ops' : List Op)
    (new : Multiset Id) : Prop
  | well (h : ∀ m ∈ ms, acts m = false) (k : Extends c ops ops' c new)
  | badly {m : Moment} (hm : m ∈ ms) (h : acts m = true) (k : .mention .misplaced ∈ ops')

/-- An outcome in which the new identities, those of the bindings `g` among them, were made while
the supply went from `n` to `n'`. -/
def Lands (acts : Moment → Bool) (ms : List Moment) (c : Bool) (ops ops' : List Op) (n n' : Nat)
    (g : List Binding) : Prop :=
  ∃ new, Minted n n' (Binding.newIds g + new) ∧ Outcome acts ms c ops ops' new

variable {acts : Moment → Bool} {ms ms' : List Moment} {c d : Bool}
variable {ops ops' more more' : List Op} {n n1 n2 n' : Nat} {g g' x y : List Binding}

theorem Outcome.append {new new' : Multiset Id} (h : Outcome acts ms c ops ops' new)
    (k : Outcome acts ms' c more more' new') :
    Outcome acts (ms ++ ms') c (ops ++ more) (ops' ++ more') (new + new') := by
  cases h with
  | badly hm h hk => exact .badly (List.mem_append_left _ hm) h (List.mem_append_left _ hk)
  | well h hk =>
    cases k with
    | badly km k kk => exact .badly (List.mem_append_right _ km) k (List.mem_append_right _ kk)
    | well k kk => exact .well (List.forall_mem_append.mpr ⟨h, k⟩) (hk.append kk)

namespace Lands

theorem append (h : Lands acts ms c ops ops' n n1 g) (k : Lands acts ms' c more more' n1 n' g') :
    Lands acts (ms ++ ms') c (ops ++ more) (ops' ++ more') n n' (g ++ g') := by
  obtain ⟨new, hn, h⟩ := h
  obtain ⟨new', kn, k⟩ := k
  refine ⟨new + new', (hn.add kn).of_eq ?_, h.append k⟩
  rw [Binding.newIds_append]
  ac_rfl

/-- Nothing is inserted into the operations themselves. -/
theorem same (hg : Extras d n n' g) (h : Extends c ops ops' c 0) :
    Lands acts [] c ops ops' n n' g := by
  exact ⟨0, hg.fresh.of_eq (add_zero _), .well nofun h⟩

theorem before (h : Extends c more more' c 0) (k : Lands acts ms c ops ops' n n' g) :
    Lands acts ms c (more ++ ops) (more' ++ ops') n n' g :=
  (same (d := c) (.nil (le_refl n)) h).append k

theorem after (h : Lands acts ms c ops ops' n n' g) (k : Extends c more more' c 0) :
    Lands acts ms c (ops ++ more) (ops' ++ more') n n' g := by
  simpa using h.append (same (d := c) (.nil (le_refl n')) k)

/-- More is emitted before and after. -/
theorem between (hx : Extras d n n1 x) (h : Lands acts ms c ops ops' n1 n2 g)
    (hy : Extras d n2 n' y) : Lands acts ms c ops ops' n n' (x ++ (g ++ y)) := by
  simpa using (same hx .nil).append (h.append (same hy .nil))

/-- More is emitted before. -/
private theorem preceded (hx : Extras d n n1 x) (h : Lands acts ms c ops ops' n1 n' []) :
    Lands acts ms c ops ops' n n' x := by
  simpa using (same hx .nil).append h

theorem mono (h : Lands acts ms c ops ops' n n1 g) (hn : n1 ≤ n') :
    Lands acts ms c ops ops' n n' g := by
  simpa using between (d := false) (.nil (le_refl n)) h (.nil hn)

/-- What was emitted is put before the operations. -/
theorem flush (h : Lands acts ms c ops ops' n n' g) (hg : Extras d n1 n2 g)
    (hd : d = true → c = true) : Lands acts ms c ops (Binding.opsAll g ++ ops') n n' [] := by
  obtain ⟨new, hn, h⟩ := h
  refine ⟨Binding.newIds g + new, hn.of_eq (zero_add _), ?_⟩
  have k : Outcome acts [] c [] (Binding.opsAll g) (Binding.newIds g) :=
    .well nofun (hg.inserted hd)
  exact k.append h

/-- What is emitted goes after the operations. -/
private theorem followed (h : Lands acts ms c ops ops' n n1 []) (hg : Extras d n1 n' g)
    (hd : d = true → c = true) : Lands acts ms c ops (ops' ++ Binding.opsAll g) n n' [] := by
  have k : Lands acts [] c [] [] n1 n' g := same hg .nil
  simpa using h.append (k.flush hg hd)

theorem nested (h : Lands acts ms c ops ops' n n' g) :
    Lands acts ms c (nested ops) (nested ops') n n' g := by
  refine .before (.single (.refl .enter) rfl) ?_
  exact h.after (.single (.refl .leave) rfl)

/-- A dataflow block, outside of all others. -/
theorem block (h : Lands acts ms true ops ops' n n' g) : Lands acts ms false
    (.beginDataflow :: (ops ++ [.endDataflow])) (.beginDataflow :: (ops' ++ [.endDataflow])) n n'
      g := by
  obtain ⟨new, hn, h⟩ := h
  refine ⟨new, hn, ?_⟩
  cases h with
  | well h k =>
    have k := Extends.keep (c := false) (.refl .beginDataflow) rfl
      (k.append (.single (.refl .endDataflow) rfl))
    rw [add_zero] at k
    exact .well h k
  | badly hm h k => exact .badly hm h (List.mem_cons_of_mem _ (List.mem_append_left _ k))

/-- No handler acts at some more moments. -/
theorem quiet (h : Lands acts ms c ops ops' n n' g) (hq : ∀ m ∈ ms', acts m = false) :
    Lands acts (ms' ++ ms) c ops ops' n n' g := by
  obtain ⟨new, hn, h⟩ := h
  refine ⟨new, hn, ?_⟩
  cases h with
  | well h k => exact .well (List.forall_mem_append.mpr ⟨hq, h⟩) k
  | badly hm h k => exact .badly (List.mem_append_right _ hm) h k

/-- A handler acts where it may not. -/
theorem misplaced (hg : Extras d n n' g) (hm : ∃ m ∈ ms, acts m = true)
    (h : .mention .misplaced ∈ ops') : Lands acts ms c ops ops' n n' g := by
  obtain ⟨m, hm, ha⟩ := hm
  exact ⟨0, hg.fresh.of_eq (add_zero _), .badly hm ha h⟩

end Lands

end Scope

open Scope (Lands)

private theorem Call.sinfoOp_alike {c c' : Call} (h : c'.sinfoArgs = c.sinfoArgs) :
    c.sinfoOp.Alike c'.sinfoOp := by
  have hstep : ∀ (c : Call) known, Scope.step known c.sinfoOp =
      Scope.step known (.mention (.syms (c.sinfoArgs.flatMap StructInfo.syms))) := by
    intro c known
    unfold Call.sinfoOp
    split <;> rfl
  intro known
  rw [hstep, hstep, h]

private theorem Call.sinfoOp_open? (call : Call) (c : Bool) : call.sinfoOp.open? c = some c := by
  unfold Call.sinfoOp
  split <;> rfl

/-- The operations of a binding after those of its value. -/
def Binding.tailOps : Binding → List Op
  | .bind _ v value => [.define v.id v.dataflow, .record v.id value.factorMentions?]
  | .cast _ v _ sinfo => [.introduce sinfo.syms, .define v.id v.dataflow]

theorem Binding.ops_eq (b : Binding) : b.ops = b.value.ops false ++ b.tailOps := by
  cases b <;> rfl

private theorem Block.ops_dataflow {mark : Mark} {bs : List Binding} (h : bs ≠ []) :
    (Block.mk mark .dataflow bs).ops = .beginDataflow :: (Binding.opsAll bs ++ [.endDataflow]) := by
  cases bs with
  | nil => cases h rfl
  | cons => rw [Block.ops, Binding.opsAll, List.append_assoc]

theorem Block.opsAll_append (bs bs' : List Block) :
    Block.opsAll (bs ++ bs') = Block.opsAll bs ++ Block.opsAll bs' := by
  induction bs with
  | nil => rfl
  | cons b bs ih => rw [List.cons_append, Block.opsAll, Block.opsAll, ih, List.append_assoc]

section Landing

variable {acts : Moment → Bool} {kind : Id → Bool} {c d : Bool} {n n1 n2 n' : Nat}
variable {g l x y : List Binding}

private theorem Expr.Walks.isSeq_eq {E : Emissions} {V : Id → Var → Prop} {e e' : Expr}
    (h : Expr.Walks E V d n e g l e' n') : e'.isSeq = e.isSeq := by
  cases h with
  | leaf | var | shape | prim => rfl
  | tuple _ hs | item _ hs | call _ _ _ hs | ite _ _ _ hs | seq _ _ hs | function _ _ hs =>
    cases hs <;> rfl

theorem Refills.ops {e e' : Expr} (h : Refills n e e') (asBody : Bool) :
    e'.ops asBody = e.ops asBody := by
  cases h with
  | kept => rfl
  | filled => exact Expr.ops_withNode _ _ _

theorem Scope.Extends.tailOps {b b' : Binding} {same : Bool} {v : Var} {value : Expr}
    (hs : Remakes n same b (b.rebuilt · v value) b')
    (hk : v.id = b.var.id ∧ v.dataflow = b.var.dataflow) :
    Extends c b.tailOps b'.tailOps c 0 := by
  obtain ⟨hid, hd⟩ := hk
  have hdef : Op.Alike (.define b.var.id b.var.dataflow) (.define v.id v.dataflow) := by
    rw [hid, hd]
    exact .refl _
  cases b with
  | bind =>
    cases hs with
    | same => exact .keep (.refl _) rfl (.single (.refl _) rfl)
    | changed => exact .keep hdef rfl (.single (fun _ => rfl) rfl)
  | cast =>
    cases hs with
    | same => exact .keep (.refl _) rfl (.single (.refl _) rfl)
    | changed => exact .keep (.refl _) rfl (.single hdef rfl)

/-- What is emitted at a sequence comes before it, and the sequence is then no body any more. -/
private theorem Scope.Lands.at_seq {e : Expr} {asBody asBody' : Bool} {ms ms' : List Moment}
    {ops : List Op} (h : Lands acts ms c ops (e.ops asBody) n n' g) (hseq : e.isSeq)
    (hg : Extras d n n' g) (hquiet : (∀ m ∈ ms', acts m = false) → asBody' = asBody)
    (hbusy : ¬(∀ m ∈ ms', acts m = false) → asBody' = false) :
    Lands acts (ms' ++ ms) c ops (e.ops asBody') n n' g := by
  by_cases hq : ∀ m ∈ ms', acts m = false
  · rw [hquiet hq]
    exact h.quiet hq
  · rw [hbusy hq]
    push Not at hq
    obtain ⟨m, hm, ha⟩ := hq
    exact .misplaced hg ⟨m, List.mem_append_left _ hm, eq_true_of_ne_false ha⟩
      (Expr.misplaced_mem_ops hseq)

theorem Scope.Lands.around {e e' : Expr} {asBody : Bool}
    (h : Lands acts e.innerMoments c (e.ops asBody) (e'.ops (asBody && g.isEmpty)) n1 n2 g)
    (hseq : e'.isSeq = e.isSeq) (hx : (Emissions.constants acts).Row d e.entry n x n1)
    (hg : Extras d n1 n2 g) (hy : (Emissions.constants acts).Row d e.exit n2 y n') :
    Lands acts e.seqMoments c (e.ops asBody) (e'.ops (asBody && (x ++ (g ++ y)).isEmpty)) n n'
      (x ++ (g ++ y)) := by
  have hall := h.between hx.extras hy.extras
  cases hs : e.isSeq with
  | false =>
    have hm : e.innerMoments = e.seqMoments := by
      cases e with
      | seq => cases hs
      | _ => rfl
    rw [hm] at hall
    rwa [Expr.ops_of_isSeq_eq_false (hseq.trans hs) _ (asBody && g.isEmpty)]
  | true =>
    have hm : e.seqMoments = e.around ++ e.innerMoments := by
      cases e with
      | seq => rfl
      | _ => cases hs
    have hempty : (∀ m ∈ e.around, acts m = false) ↔ x = [] ∧ y = [] := by
      rw [Expr.around, List.forall_mem_append, hx.eq_nil_iff, hy.eq_nil_iff]
    rw [hm]
    refine hall.at_seq (hseq.trans hs) (hx.extras.append (hg.append hy.extras)) ?_ ?_
    · intro hq
      obtain ⟨rfl, rfl⟩ := hempty.mp hq
      rw [List.nil_append, List.append_nil]
    · intro hq
      rw [Bool.and_eq_false_imp]
      intro _
      rw [List.isEmpty_eq_false_iff, ne_eq, List.append_eq_nil_iff, List.append_eq_nil_iff]
      rintro ⟨hx, -, hy⟩
      exact hq (hempty.mpr ⟨hx, hy⟩)

/-- A call of the callee visited, with struct info arguments as before. -/
private theorem Remakes.call_ops {same : Bool} {node : Node} {callee callee' e' : Expr}
    {args args' : List Expr} {attrs : Option Attrs} {sinfoArgs : List StructInfo}
    (hs : Remakes n same (.call node callee args attrs sinfoArgs)
      (.mkCall · callee' args' attrs sinfoArgs) e')
    (hcallee : same = true → callee'.ops false = callee.ops false)
    (hargs : Expr.mentionsAll args' = Expr.mentionsAll args) (asBody : Bool) :
    ∃ call : Call, call.sinfoArgs = sinfoArgs ∧ e'.ops asBody =
      callee'.ops false ++ call.sinfoOp :: (Expr.mentionsAll args).map .mention := by
  cases hs with
  | same h => exact ⟨⟨node, callee, args, attrs, sinfoArgs⟩, rfl, by rw [hcallee h]; rfl⟩
  | changed => exact ⟨⟨_, callee', args', attrs, sinfoArgs⟩, rfl, by rw [← hargs]; rfl⟩

/-- What becomes of a sequence outside others. -/
private theorem Remakes.seq_ops {same : Bool} {node : Node} {blocks blocks' : List Block}
    {body body' e' : Expr} {mark : Mark}
    (hs : Remakes n (same && g.isEmpty && body'.sameAs body) (.seq node blocks body)
      (fun node' => .mkSeq node'
        ((blocks' ++ [Block.mk mark .plain g]).filter fun b => !b.bindings.isEmpty) body') e')
    (hblocks : same = true → blocks' = blocks)
    (hbody : body'.sameAs body = true → body'.ops false = body.ops false) :
    ∃ keep : Block → Bool, (∀ b, keep b = false → b.bindings = []) ∧ e'.ops true =
      Block.opsAll (blocks'.filter keep) ++ (Binding.opsAll g ++ body'.ops false) := by
  cases hs with
  | same h =>
    simp only [Bool.and_eq_true] at h
    obtain ⟨⟨hsame, hg⟩, hy⟩ := h
    refine ⟨fun _ => true, nofun, ?_⟩
    rw [List.filter_true, hblocks hsame, hbody hy, List.isEmpty_iff.mp hg]
    rfl
  | changed =>
    refine ⟨fun b => !b.bindings.isEmpty, fun b hb => by simpa using hb, ?_⟩
    have hlast : Block.opsAll ([Block.mk mark .plain g].filter fun b => !b.bindings.isEmpty) =
        Binding.opsAll g := by
      cases g with
      | nil => rfl
      | cons => exact List.append_nil _
    rw [Expr.mkSeq, Expr.ops, if_pos rfl, List.filter_append, Block.opsAll_append, hlast,
      List.append_assoc]

theorem Binding.VisitAll.eq_nil_iff {E : Emissions} {V : Id → Var → Prop} {bs : List Binding}
    (h : Binding.VisitAll E V d n bs g l n') : g = [] ↔ bs = [] := by
  constructor
  · rintro rfl
    exact List.eq_nil_of_length_eq_zero (Nat.le_zero.mp h.length_le)
  · rintro rfl
    cases h
    rfl

/-- A block of what became of its bindings; it may be left out where there are none. -/
theorem Scope.Lands.of_block {b b' : Block} {out : List Binding} {keep : Block → Bool} {same : Bool}
    (hkeep : ∀ b, keep b = false → b.bindings = []) (hflat : b.isFlat c)
    (hs : Remakes n1 same b (.mk · b.kind out) b') (hold : same = true → out = b.bindings)
    (hnil : out = [] ↔ b.bindings = [])
    (h : ∀ c, ((b.kind == .dataflow) = true → c = true) → Binding.areFlat c b.bindings = true →
      Lands acts (Binding.seqMomentsAll b.bindings) c (Binding.opsAll b.bindings)
        (Binding.opsAll out) n n' []) :
    Lands acts b.seqMoments c b.ops (Block.opsAll ([b'].filter keep)) n n' [] := by
  obtain ⟨mark, bk, bindings⟩ := b
  obtain ⟨mark', rfl⟩ : ∃ mark', b' = .mk mark' bk out := by
    cases hs with
    | same hs => exact ⟨mark, congrArg _ (hold hs).symm⟩
    | changed => exact ⟨_, rfl⟩
  have hempty : keep (.mk mark' bk out) = false → out = [] := hkeep _
  cases bk with
  | plain =>
    have h : Lands acts (Binding.seqMomentsAll bindings) c (Binding.opsAll bindings)
        (Binding.opsAll out) n n' [] := h c nofun hflat
    cases hk : keep (.mk mark' .plain out) with
    | true =>
      rw [List.filter_cons_of_pos hk, List.filter_nil, Block.opsAll, Block.opsAll, List.append_nil]
      exact h
    | false =>
      rw [List.filter_cons_of_neg (Bool.eq_false_iff.mp hk)]
      rwa [hempty hk] at h
  | dataflow =>
    -- Only outside of other dataflow blocks is one that is hollow like none at all.
    rw [Block.isFlat, Bool.and_eq_true, Bool.not_eq_true'] at hflat
    obtain ⟨rfl, hflat⟩ := hflat
    have h : Lands acts (Binding.seqMomentsAll bindings) true (Binding.opsAll bindings)
        (Binding.opsAll out) n n' [] := h true (fun _ => rfl) hflat
    by_cases hb : bindings = []
    · obtain rfl := hnil.mpr hb
      obtain rfl := hb
      obtain ⟨_, hn, -⟩ := h
      have hg : Extras false n n' [] := .nil hn.le
      cases hk : keep (.mk mark' .dataflow []) with
      | true =>
        rw [List.filter_cons_of_pos hk]
        exact .same hg (.single (.refl .hollow) rfl)
      | false =>
        rw [List.filter_cons_of_neg (Bool.eq_false_iff.mp hk)]
        exact .same hg (.drop .nil)
    · have hout : out ≠ [] := mt hnil.mp hb
      have hk : keep (.mk mark' .dataflow out) = true := eq_true_of_ne_false (mt hempty hout)
      rw [List.filter_cons_of_pos hk, List.filter_nil, Block.opsAll, Block.opsAll, List.append_nil,
        Block.ops_dataflow hb, Block.ops_dataflow hout]
      exact h.block

mutual

theorem Expr.Visits.lands {asBody : Bool} {c d : Bool} {n n' : Nat} {e e' : Expr}
    {g l : List Binding} (hfit : Fit kind (e.ops asBody)) (hflat : e.isFlat c)
    (ht : Below n e.tags)
    (hvisits : Expr.Visits (.constants acts) (Var.OfKind kind) d n e g l e' n') :
    Lands acts e.seqMoments c (e.ops asBody) (e'.ops (asBody && g.isEmpty)) n n' g := by
  match hvisits with
  | .mk hb hw hf ha =>
    have h := Expr.Walks.lands hfit hflat (ht.mono hb.le) hw
    rw [hf.ops]
    exact h.around hw.isSeq_eq hb hw.extras ha

theorem Expr.Walks.lands {asBody : Bool} {c d : Bool} {n n' : Nat} {e e' : Expr}
    {g l : List Binding} (hfit : Fit kind (e.ops asBody)) (hflat : e.isFlat c)
    (ht : Below n e.tags)
    (hwalks : Expr.Walks (.constants acts) (Var.OfKind kind) d n e g l e' n') :
    Lands acts e.innerMoments c (e.ops asBody) (e'.ops (asBody && g.isEmpty)) n n' g := by
  match hwalks with
  | .leaf => exact .same (d := d) (.nil (le_refl _)) (.mentions _)
  | .var h =>
    have hop := congrArg Op.mention (Var.OfKind.mention_eq h hfit.cons.1)
    exact .same (d := d) (.nil (le_refl _)) (.single (.of_eq hop) rfl)
  | .shape h | .prim h => exact .same h.extras (.mentions [_])
  | .tuple hf hs =>
    -- Operands are normal, so no sequence is visited among them.
    have hops := congrArg (List.map Op.mention) (hf.mentions hfit.mentions)
    have hm := Expr.seqMomentsAll_of_areNormal (Expr.areNormal_of_fits hfit.mentions)
    rw [hs.image (Expr.ops _) (fun _ => rfl) fun _ => hops]
    show Lands acts (Expr.seqMomentsAll _) c _ (List.map _ (Expr.mentionsAll _)) n n' _
    rw [hm, hops]
    exact .same hf.extras (.mentions _)
  | .item hw hs =>
    have hfw := hfit.item
    have htw := ht.cons.2
    rw [hs.image (Expr.ops (asBody && g.isEmpty)) (fun _ => rfl) fun h =>
      hw.ops_of_sameAs hfw htw h false]
    have h := Expr.Visits.lands hfw hflat htw hw
    exact h
  | .call hc hx ha hs =>
    obtain ⟨hfc, hfa⟩ := hfit.call
    obtain ⟨hlc, -⟩ := Bool.and_eq_true_iff.mp hflat
    have htc := ht.cons.2.append.1
    have hm := Expr.seqMomentsAll_of_areNormal (Expr.areNormal_of_fits hfa)
    obtain ⟨call, hcall, hops⟩ := hs.call_ops
      (fun h => hc.ops_of_sameAs hfc htc (Bool.and_eq_true_iff.mp h).2 false) (ha.mentions hfa)
      (asBody && List.isEmpty _)
    show Lands acts (_ ++ Expr.seqMomentsAll _) c (_ ++ Call.sinfoOp _ :: _) _ n n' _
    rw [hm, hops]
    refine (Expr.Visits.lands hfc hlc htc hc).append (.same (hx.extras.append ha.extras) ?_)
    exact .keep (Call.sinfoOp_alike hcall) (Call.sinfoOp_open? _ c) (.mentions _)
  | .ite hc h1 h2 hs =>
    obtain ⟨hfc, hf1, hf2⟩ := hfit.ite
    obtain ⟨hlc, hlb⟩ := Bool.and_eq_true_iff.mp hflat
    obtain ⟨hl1, hl2⟩ := Bool.and_eq_true_iff.mp hlb
    obtain ⟨htc, htb⟩ := ht.cons.2.append
    obtain ⟨ht1, ht2⟩ := htb.append
    have ht1 := ht1.mono hc.le
    have ht2 := ht2.mono (hc.le.trans h1.le)
    have k1 := Expr.Scoped.lands hf1 hl1 ht1 h1
    have k2 := Expr.Scoped.lands hf2 hl2 ht2 h2
    have h := (Expr.Visits.lands hfc hlc htc hc).append (k1.nested.append k2.nested)
    rw [hs.image (Expr.ops (asBody && g.isEmpty)) (fun _ => rfl) fun hsame => by
      obtain ⟨hsct, hsf⟩ := Bool.and_eq_true_iff.mp hsame
      obtain ⟨hsc, hst⟩ := Bool.and_eq_true_iff.mp hsct
      simp only [Expr.mkIte, Expr.ops, hc.ops_of_sameAs hfc htc hsc,
        h1.ops_of_sameAs hf1 ht1 hst, h2.ops_of_sameAs hf2 ht2 hsf]]
    rw [List.append_nil, List.append_nil] at h
    exact .before (.single (.refl .conditional) rfl) h
  | .seq hb hy hs =>
    -- A sequence that is no body would be a misplaced one, against `hfit`.
    obtain ⟨rfl, hfb, hfy⟩ := hfit.seq
    obtain ⟨hlb, hly⟩ := Bool.and_eq_true_iff.mp hflat
    obtain ⟨htb, hty⟩ := ht.cons.2.append
    have hty := hty.mono hb.le
    obtain ⟨keep, hkeep, hops⟩ := hs.seq_ops (hb.eq_of_allSame htb) fun h =>
      hy.ops_of_sameAs hfy hty h false
    have h1 := Block.VisitAll.lands hkeep hfb hlb htb hb
    have h2 := (Expr.Visits.lands hfy hly hty hy).flush hy.extras nofun
    have h := h1.append h2
    rw [List.append_nil, Bool.false_and, ← hops] at h
    refine h.at_seq (Expr.Walks.isSeq_eq (.seq hb hy hs)) (Expr.Walks.extras (.seq hb hy hs)) ?_ ?_
    · intro hq
      rw [List.isEmpty_iff.mpr (hb.eq_nil_iff.mpr hq), Bool.and_true]
    · intro hq
      rw [List.isEmpty_eq_false_iff.mpr (mt hb.eq_nil_iff.mp hq), Bool.and_false]
  | .function hp hb hs =>
    obtain ⟨-, hfb⟩ := hfit.function
    have htb := ht.cons.2.append.2.mono hp.le
    rw [hs.image (Expr.ops (asBody && g.isEmpty)) (fun _ => rfl) fun hsame => by
      simp only [Expr.mkFunction, Expr.ops, hb.ops_of_sameAs hfb htb hsame]
      rfl]
    have h := Expr.Scoped.lands hfb hflat htb hb
    exact .preceded hp.extras (.nested (.before (.params _) (h.after (.single (.refl _) rfl))))

theorem Expr.Scoped.lands {c : Bool} {n n' : Nat} {e e' : Expr} {l : List Binding}
    (hfit : Fit kind (e.ops true)) (hflat : e.isFlat c) (ht : Below n e.tags)
    (hscoped : Expr.Scoped (.constants acts) (Var.OfKind kind) n e l e' n') :
    Lands acts e.seqMoments c (e.ops true) (e'.ops true) n n' [] := by
  match hscoped with
  | .bare h hn => exact (Expr.Visits.lands hfit hflat ht h).mono hn
  | .prefaced h hg _ hn =>
    have k := Expr.Visits.lands hfit hflat ht h
    rw [List.isEmpty_eq_false_iff.mpr hg] at k
    have k := (k.flush h.extras (c := c) nofun).mono hn
    rw [Expr.ops, if_pos rfl, Block.opsAll, Block.opsAll, List.append_nil]
    exact k

theorem Binding.Visits.lands {c d : Bool} {n n' : Nat} {b : Binding} {g l : List Binding}
    (hd : d = true → c = true) (hfit : Fit kind b.ops) (hflat : b.isFlat c) (ht : Below n b.tags)
    (hvisits : Binding.Visits (.constants acts) (Var.OfKind kind) d n b g l n') :
    Lands acts b.seqMoments c b.ops (Binding.opsAll g) n n' [] := by
  match hvisits with
  | .mk hb hv hm hk hs ha =>
    have hfv : Fit kind (b.value.ops false) := (b.ops_eq ▸ hfit).append.1
    have hlv : b.value.isFlat c := by
      cases b <;> exact hflat
    have htv : Below n b.value.tags := by
      cases b <;> exact ht.cons.2.cons.2
    have htv := htv.mono hb.le
    have h := (Expr.Visits.lands hfv hlv htv hv).between hb.extras hm.extras
    have h := h.flush (hb.extras.append (hv.extras.append hm.extras)) hd
    have hvalue := hs.image (fun b => b.value.ops false)
      (fun _ => by rw [Binding.value_rebuilt, Binding.value_rebuilt]) fun h => by
        rw [Binding.value_rebuilt, hv.ops_of_sameAs hfv htv h]
    rw [Binding.value_rebuilt] at hvalue
    have h := (h.after (.tailOps hs hk)).followed ha.extras hd
    have hm : b.seqMoments = b.value.seqMoments := by
      cases b <;> rfl
    rw [hm, b.ops_eq]
    simpa [Binding.opsAll_append, Binding.opsAll, Binding.ops_eq, hvalue] using h

theorem Binding.VisitAll.lands {c d : Bool} {n n' : Nat} {bs : List Binding} {g l : List Binding}
    (hd : d = true → c = true) (hfit : Fit kind (Binding.opsAll bs)) (hflat : Binding.areFlat c bs)
    (ht : Below n (Binding.tagsAll bs))
    (h : Binding.VisitAll (.constants acts) (Var.OfKind kind) d n bs g l n') :
    Lands acts (Binding.seqMomentsAll bs) c (Binding.opsAll bs) (Binding.opsAll g) n n' [] := by
  match h with
  | .nil => exact .same (d := d) (.nil (le_refl _)) .nil
  | .cons hb hs =>
    obtain ⟨hfb, hfs⟩ := hfit.append
    obtain ⟨hlb, hls⟩ := Bool.and_eq_true_iff.mp hflat
    obtain ⟨htb, hts⟩ := ht.append
    rw [Binding.opsAll_append]
    exact (Binding.Visits.lands hd hfb hlb htb hb).append
      (Binding.VisitAll.lands hd hfs hls (hts.mono hb.le) hs)

theorem Block.Visits.lands {c d : Bool} {n n' : Nat} {b b' : Block} {g l : List Binding}
    {keep : Block → Bool} (hkeep : ∀ b, keep b = false → b.bindings = []) (hfit : Fit kind b.ops)
    (hflat : b.isFlat c) (ht : Below n b.tags)
    (hvisits : Block.Visits (.constants acts) (Var.OfKind kind) d n b g l b' n') :
    Lands acts b.seqMoments c b.ops (Block.opsAll ([b'].filter keep)) n n' g := by
  match hvisits with
  | .mk hb hv hs ha =>
    have htb : Below n (Binding.tagsAll b.bindings) := by
      cases b
      exact ht.cons.2
    have htb := htb.mono hb.le
    have h := Lands.of_block hkeep hflat hs (hv.eq_of_allSame htb) hv.eq_nil_iff fun c' hd hl =>
      Binding.VisitAll.lands (c := c') hd hfit.block hl htb hv
    exact h.between hb.extras ha.extras

theorem Block.VisitAll.lands {c d : Bool} {n n' : Nat} {bs bs' : List Block} {g l : List Binding}
    {keep : Block → Bool} (hkeep : ∀ b, keep b = false → b.bindings = [])
    (hfit : Fit kind (Block.opsAll bs)) (hflat : Block.areFlat c bs)
    (ht : Below n (Block.tagsAll bs))
    (hvisits : Block.VisitAll (.constants acts) (Var.OfKind kind) d n bs g l bs' n') :
    Lands acts (Block.seqMomentsAll bs) c (Block.opsAll bs) (Block.opsAll (bs'.filter keep)) n n'
      g := by
  match hvisits with
  | .nil => exact .same (d := d) (.nil (le_refl _)) .nil
  | .cons hb hs =>
    obtain ⟨hfb, hfs⟩ := hfit.append
    obtain ⟨hlb, hls⟩ := Bool.and_eq_true_iff.mp hflat
    obtain ⟨htb, hts⟩ := ht.append
    have h := (Block.Visits.lands hkeep hfb hlb htb hb).append
      (Block.VisitAll.lands hkeep hfs hls (hts.mono hb.le) hs)
    rwa [← Block.opsAll_append, ← List.filter_append] at h

end

end Landing

end DataflowIR
