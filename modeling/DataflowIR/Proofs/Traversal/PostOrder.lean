import DataflowIR.Proofs.Traversal.Order
import Mathlib.Data.List.Induction

namespace DataflowIR

namespace Expr

/-- The expressions directly below an expression, from left to right. Where a variable is defined it
is no expression. -/
def parts : Expr → List Expr
  | leaf .. | var _ | shape .. | prim .. => []
  | tuple _ fields => fields
  | item _ whole _ => [whole]
  | call _ callee args _ _ => callee :: args
  | ite _ cond onTrue onFalse => [cond, onTrue, onFalse]
  | seq _ blocks body => (blocks.flatMap Block.bindings).map Binding.value ++ [body]
  | function _ _ body _ _ => [body]

/-- What a way down leads to: at each step it has the number of the part that it goes on with. -/
def occurrence? (e : Expr) : List Nat → Option Expr
  | [] => some e
  | i :: way => e.parts[i]?.bind (·.occurrence? way)

/-- What a way leads to that starts at one of several expressions. -/
def occurrenceAmong? (es : List Expr) : List Nat → Option Expr
  | [] => none
  | i :: way => es[i]?.bind (·.occurrence? way)

theorem exists_lt_of_occurrenceAmong? {es : List Expr} {way : List Nat}
    (h : (occurrenceAmong? es way).isSome) : ∃ i rest, way = i :: rest ∧ i < es.length := by
  cases way with
  | nil => cases h
  | cons i rest =>
    refine ⟨i, rest, rfl, ?_⟩
    by_contra hge
    simp [occurrenceAmong?, List.getElem?_eq_none (Nat.le_of_not_lt hge)] at h

/-- A way keeps its end when an expression is added after those that it starts at. -/
private theorem occurrenceAmong?_concat {es : List Expr} (x : Expr) {i : Nat} (way : List Nat)
    (h : i < es.length) :
    occurrenceAmong? (es ++ [x]) (i :: way) = occurrenceAmong? es (i :: way) := by
  simp only [occurrenceAmong?, List.getElem?_append_left h]

private theorem occurrenceAmong?_concat_length (es : List Expr) (x : Expr) (way : List Nat) :
    occurrenceAmong? (es ++ [x]) (es.length :: way) = x.occurrence? way := by
  simp [occurrenceAmong?]

private theorem size_lt_of_mem_parts {e x : Expr} (h : x ∈ e.parts) : x.size < e.size := by
  cases e with
  | leaf | var | shape | prim => cases h
  | tuple node fields =>
    have hx : x.size ≤ sizeOfList fields := size_le_of_mem h
    simp only [size]
    omega
  | item node whole index =>
    obtain rfl := List.mem_singleton.mp h
    simp only [size]
    omega
  | call node callee args attrs sinfoArgs =>
    simp only [size]
    rcases List.mem_cons.mp h with rfl | h
    · omega
    · have hx : x.size ≤ sizeOfList args := size_le_of_mem h
      omega
  | ite node cond onTrue onFalse =>
    simp only [parts, List.mem_cons, List.not_mem_nil, or_false] at h
    simp only [size]
    rcases h with rfl | rfl | rfl <;> omega
  | seq node blocks body =>
    simp only [size]
    rcases List.mem_append.mp h with h | h
    · obtain ⟨b, hb, rfl⟩ := List.mem_map.mp h
      obtain ⟨block, hblock, hb⟩ := List.mem_flatMap.mp hb
      have hvalue : b.value.size < b.size := by
        cases b <;> simp only [Binding.value, Binding.size] <;> omega
      have hbinding : b.size ≤ Binding.sizeOfList block.bindings := Binding.size_le_of_mem hb
      have hbindings : Binding.sizeOfList block.bindings < block.size := by
        obtain ⟨mark, kind, bindings⟩ := block
        simp only [Block.bindings, Block.size]
        omega
      have hblocks : block.size ≤ Block.sizeOfList blocks := Block.size_le_of_mem hblock
      omega
    · obtain rfl := List.mem_singleton.mp h
      omega
  | function node params body ret attrs =>
    obtain rfl := List.mem_singleton.mp h
    simp only [size]
    omega

end Expr

namespace Way

/-- The way goes on from where the other one ends. -/
def Below (way way' : List Nat) : Prop :=
  ∃ rest, rest ≠ [] ∧ way = way' ++ rest

/-- Where the ways part, this one goes on with an earlier part. -/
def LeftOf (way way' : List Nat) : Prop :=
  ∃ common i j rest rest', i < j ∧ way = common ++ i :: rest ∧ way' = common ++ j :: rest'

def Before (way way' : List Nat) : Prop :=
  Below way way' ∨ LeftOf way way'

private theorem before_nil (i : Nat) (way : List Nat) : Before (i :: way) [] := by
  exact .inl ⟨i :: way, List.cons_ne_nil i way, rfl⟩

theorem leftOf_of_lt {i j : Nat} (h : i < j) (way way' : List Nat) :
    LeftOf (i :: way) (j :: way') := by
  exact ⟨[], i, j, way, way', h, rfl, rfl⟩

theorem LeftOf.cons {way way' : List Nat} (h : LeftOf way way') (i : Nat) :
    LeftOf (i :: way) (i :: way') := by
  obtain ⟨common, j, k, rest, rest', hlt, rfl, rfl⟩ := h
  exact ⟨i :: common, j, k, rest, rest', hlt, rfl, rfl⟩

private theorem before_of_lt {i j : Nat} (h : i < j) (way way' : List Nat) :
    Before (i :: way) (j :: way') :=
  .inr (leftOf_of_lt h way way')

theorem Before.cons {way way' : List Nat} (h : Before way way') (i : Nat) :
    Before (i :: way) (i :: way') := by
  rcases h with ⟨rest, hne, rfl⟩ | h
  · exact .inl ⟨rest, hne, rfl⟩
  · exact .inr (h.cons i)

theorem Before.ne {way way' : List Nat} (h : Before way way') : way ≠ way' := by
  intro heq
  rcases h with ⟨rest, hne, hway⟩ | ⟨common, i, j, rest, rest', hlt, hway, hway'⟩
  · have hnil : rest = [] := by simpa [heq] using hway
    exact hne hnil
  · have hcons : i :: rest = j :: rest' := by
      apply List.append_cancel_left
      rw [← hway, heq, hway']
    have hij : i = j := (List.cons.inj hcons).1
    omega

end Way

/-- The ways lead to what is visited, they are all that lead to something, and they are in order. -/
structure Enumerates (occurrence? : List Nat → Option Expr) (ways : List (List Nat))
    (visited : List Expr) : Prop where
  leads : ways.map occurrence? = visited.map some
  complete : ∀ way, (occurrence? way).isSome → way ∈ ways
  ordered : ways.Pairwise Way.Before

namespace Enumerates

variable {ways ways' : List (List Nat)} {visited visited' : List Expr}

theorem isSome_of_mem {occurrence? : List Nat → Option Expr}
    (h : Enumerates occurrence? ways visited) {way : List Nat} (hw : way ∈ ways) :
    (occurrence? way).isSome := by
  have hmem : occurrence? way ∈ visited.map some := by
    rw [← h.leads]
    exact List.mem_map_of_mem hw
  obtain ⟨x, -, hx⟩ := List.mem_map.mp hmem
  rw [← hx]
  rfl

theorem nodup {occurrence? : List Nat → Option Expr} (h : Enumerates occurrence? ways visited) :
    ways.Nodup :=
  h.ordered.imp Way.Before.ne

theorem none : Enumerates (Expr.occurrenceAmong? []) [] [] where
  leads := rfl
  complete way h := by
    cases way with
    | nil => cases h
    | cons i way => simp [Expr.occurrenceAmong?] at h
  ordered := .nil

/-- The ways through one more expression come after those through the ones before it. -/
theorem concat {es : List Expr} {x : Expr}
    (h : Enumerates (Expr.occurrenceAmong? es) ways visited)
    (hx : Enumerates x.occurrence? ways' visited') :
    Enumerates (Expr.occurrenceAmong? (es ++ [x])) (ways ++ ways'.map (es.length :: ·))
      (visited ++ visited') where
  leads := by
    have hbefore : ways.map (Expr.occurrenceAmong? (es ++ [x])) = visited.map some := by
      rw [← h.leads]
      apply List.map_congr_left
      intro way hw
      obtain ⟨i, way, rfl, hi⟩ := Expr.exists_lt_of_occurrenceAmong? (h.isSome_of_mem hw)
      exact Expr.occurrenceAmong?_concat x way hi
    have hlast : (ways'.map (es.length :: ·)).map (Expr.occurrenceAmong? (es ++ [x])) =
        visited'.map some := by
      rw [← hx.leads, List.map_map]
      apply List.map_congr_left
      intro way _
      exact Expr.occurrenceAmong?_concat_length es x way
    rw [List.map_append, List.map_append, hbefore, hlast]
  complete := by
    intro way hw
    obtain ⟨i, way, rfl, hi⟩ := Expr.exists_lt_of_occurrenceAmong? hw
    rw [List.length_append, List.length_singleton] at hi
    rcases Nat.lt_succ_iff_lt_or_eq.mp hi with hlt | rfl
    · rw [Expr.occurrenceAmong?_concat x way hlt] at hw
      exact List.mem_append_left _ (h.complete _ hw)
    · rw [Expr.occurrenceAmong?_concat_length] at hw
      exact List.mem_append_right _ (List.mem_map_of_mem (hx.complete way hw))
  ordered := by
    have hlast : (ways'.map (es.length :: ·)).Pairwise Way.Before := by
      apply List.Pairwise.map _ _ hx.ordered
      intro way way' hbefore
      exact hbefore.cons es.length
    refine List.pairwise_append.mpr ⟨h.ordered, hlast, ?_⟩
    intro way hw way' hw'
    obtain ⟨i, way, rfl, hi⟩ := Expr.exists_lt_of_occurrenceAmong? (h.isSome_of_mem hw)
    obtain ⟨last, -, rfl⟩ := List.mem_map.mp hw'
    exact Way.before_of_lt hi way last

/-- By induction on the expressions from the end, so that the numbers of those before stay. -/
theorem among {visit : Expr → List Expr} (es : List Expr)
    (h : ∀ x ∈ es, ∃ ways, Enumerates x.occurrence? ways (visit x)) :
    ∃ ways, Enumerates (Expr.occurrenceAmong? es) ways (es.flatMap visit) := by
  induction es using List.reverseRecOn with
  | nil => exact ⟨[], none⟩
  | append_singleton es x ih =>
    obtain ⟨ways, hways⟩ := ih fun y hy => h y (List.mem_append_left _ hy)
    obtain ⟨ways', hways'⟩ := h x (by simp)
    refine ⟨ways ++ ways'.map (es.length :: ·), ?_⟩
    rw [List.flatMap_append, List.flatMap_singleton]
    exact hways.concat hways'

/-- The way that ends at once comes after all ways through the parts. -/
theorem node {e : Expr} (h : Enumerates (Expr.occurrenceAmong? e.parts) ways visited) :
    Enumerates e.occurrence? (ways ++ [[]]) (visited ++ [e]) where
  leads := by
    have hparts : ways.map e.occurrence? = ways.map (Expr.occurrenceAmong? e.parts) := by
      apply List.map_congr_left
      intro way hw
      cases way with
      | nil => cases h.isSome_of_mem hw
      | cons i way => rfl
    rw [List.map_append, List.map_append, hparts, h.leads]
    rfl
  complete := by
    intro way hw
    cases way with
    | nil => simp
    | cons i way => exact List.mem_append_left _ (h.complete (i :: way) hw)
  ordered := by
    refine List.pairwise_append.mpr ⟨h.ordered, List.pairwise_singleton _ _, ?_⟩
    intro way hw way' hw'
    obtain rfl := List.mem_singleton.mp hw'
    cases way with
    | nil => cases h.isSome_of_mem hw
    | cons i way => exact Way.before_nil i way

end Enumerates

namespace Site

/-- What the visitor acts on at the place itself. -/
def acted : Site → List Expr
  | expr e => [e]
  | _ => []

/-- The expressions from the place on, each after those below it. -/
def visited (s : Site) : List Expr :=
  (s.below.attach.flatMap fun s' => s'.1.visited) ++ s.acted
termination_by s.height
decreasing_by exact height_below s'.2

theorem visited_eq (s : Site) : s.visited = s.below.flatMap visited ++ s.acted := by
  rw [visited, List.flatMap_subtype fun _ _ => rfl, List.unattach_attach]

@[simp] theorem visited_type (i : StructInfo) : (type i).visited = [] := by
  rw [visited_eq]
  rfl

@[simp] theorem visited_span (i : Span) : (span i).visited = [] := by
  rw [visited_eq]
  rfl

@[simp] theorem visited_dim (d : Dim) : (dim d).visited = [] := by
  rw [visited_eq]
  rfl

@[simp] theorem flatMap_visited_spanSites (i : Option Span) :
    (spanSites i).flatMap visited = [] := by
  cases i <;> simp [spanSites]

@[simp] theorem visited_varDef (v : Var) : (varDef v).visited = [] := by
  have hkind : (varDefKind v).visited = [] := by
    rw [visited_eq]
    simp [below, acted]
  rw [visited_eq]
  simp [below, acted, hkind]

@[simp] theorem visited_binding (b : Binding) : (binding b).visited = (expr b.value).visited := by
  have hkind : (bindingKind b).visited = (expr b.value).visited := by
    rw [visited_eq]
    cases b <;> simp [below, acted, Binding.sites, Binding.value]
  rw [visited_eq]
  simp [below, acted, hkind]

@[simp] theorem visited_block (b : Block) :
    (block b).visited = (b.bindings.map Binding.value).flatMap fun e => (expr e).visited := by
  have hkind : (blockKind b).visited =
      (b.bindings.map Binding.value).flatMap fun e => (expr e).visited := by
    rw [visited_eq]
    simp [below, acted, List.flatMap_map]
  rw [visited_eq]
  simp [below, acted, hkind]

/-- An expression is visited after its parts, and they from left to right. -/
private theorem visited_expr (e : Expr) :
    (expr e).visited = (e.parts.flatMap fun x => (expr x).visited) ++ [e] := by
  have hkind : (exprKind e).visited = e.parts.flatMap fun x => (expr x).visited := by
    rw [visited_eq]
    cases e <;> simp [below, acted, Expr.sites, Expr.parts, List.flatMap_map, List.map_flatMap,
      List.flatMap_assoc]
  rw [visited_eq]
  simp [below, acted, hkind]

end Site

/-- By strong induction on the size: the parts of an expression are smaller. -/
private theorem Expr.exists_enumerates (e : Expr) :
    ∃ ways, Enumerates e.occurrence? ways (Site.expr e).visited := by
  induction hn : e.size using Nat.strongRecOn generalizing e with
  | ind n ih =>
    have hparts : ∀ x ∈ e.parts, ∃ ways, Enumerates x.occurrence? ways (Site.expr x).visited := by
      intro x hx
      have hlt : x.size < n := hn ▸ size_lt_of_mem_parts hx
      exact ih x.size hlt x rfl
    obtain ⟨ways, hways⟩ := Enumerates.among e.parts hparts
    rw [Site.visited_expr]
    exact ⟨_, hways.node⟩

namespace Visitor

variable {σ : Type} (callback : Expr → σ → σ)

/-- The callback on one expression after the other. -/
def callAll (visited : List Expr) (d : σ) : σ :=
  visited.foldl (fun d x => callback x d) d

private theorem callAll_append (visited visited' : List Expr) (d : σ) :
    callAll callback (visited ++ visited') d =
      callAll callback visited' (callAll callback visited d) :=
  List.foldl_append

private theorem visitAll_exec {go : Site → Act σ Unit} {sites : List Site}
    (hgo : ∀ s ∈ sites, ∀ d, (go s).exec d = (.ok (), callAll callback s.visited d)) (d : σ) :
    (visitAll go sites).exec d =
      (.ok (), callAll callback (sites.flatMap Site.visited) d) := by
  induction sites generalizing d with
  | nil => rfl
  | cons s rest ih =>
    obtain ⟨hs, hrest⟩ := List.forall_mem_cons.mp hgo
    rw [visitAll, Act.exec_bind, hs, List.flatMap_cons, callAll_append]
    exact ih hrest _

private theorem afterExprs_exec {go : Site → Act σ Unit} {s : Site}
    (hgo : ∀ s' ∈ s.below, ∀ d, (go s').exec d = (.ok (), callAll callback s'.visited d)) (d : σ) :
    (afterExprs (fun x => modify (callback x)) go s).exec d =
      (.ok (), callAll callback s.visited d) := by
  have hwalk : (walk go s).exec d =
      (.ok (), callAll callback (s.below.flatMap Site.visited) d) :=
    visitAll_exec callback hgo d
  unfold afterExprs
  rw [Act.exec_bind, hwalk, Site.visited_eq, callAll_append]
  cases s <;> rfl

/-- By induction on the fuel, which is enough for the places below where it is enough for a
place. -/
private theorem afterExprs_run {fuel : Fuel} {s : Site} (h : s.height ≤ fuel.toNat) (d : σ) :
    ((afterExprs fun x => modify (callback x)).run fuel s).exec d =
      (.ok (), callAll callback s.visited d) := by
  induction fuel generalizing s d with
  | spent => exact absurd s.height_pos (Nat.not_lt.mpr h)
  | step rest ih =>
    apply afterExprs_exec
    intro s' hs'
    have hlt : s'.height < (Fuel.step rest).toNat := (Site.height_below hs').trans_le h
    exact ih () (Nat.le_of_lt_succ hlt)

end Visitor

namespace Expr

private theorem postOrder_eq (e : Expr) : e.postOrder = .ok (Site.expr e).visited := by
  have hrun := Visitor.afterExprs_run List.cons (Site.height_le_fuel e) []
  have hrev : Visitor.callAll List.cons (Site.expr e).visited [] =
      (Site.expr e).visited.reverse := by
    simp [Visitor.callAll]
  rw [hrev] at hrun
  simp only [postOrder, hrun, List.reverse_reverse]

/-- Visiting an expression in post-order never fails. The callback runs once for every way down to
an expression, so once for every occurrence where nodes are shared: after it ran for all that lies
below, and for what lies to the left before what lies to the right. -/
theorem postOrder_enumerates (e : Expr) :
    ∃ (ways : List (List Nat)) (visited : List Expr),
      (∀ way, way ∈ ways ↔ (e.occurrence? way).isSome) ∧ ways.Nodup ∧
      ways.Pairwise Way.Before ∧
      ways.map e.occurrence? = visited.map some ∧
      e.postOrder = .ok visited ∧
      ∀ {σ : Type} (callback : Expr → σ → σ) (d : σ),
        ((Visitor.afterExprs fun x => modify (callback x)).run e.fuel (.expr e)).exec d =
          (.ok (), visited.foldl (fun d x => callback x d) d) := by
  obtain ⟨ways, h⟩ := e.exists_enumerates
  refine ⟨ways, (Site.expr e).visited, ?_, h.nodup, h.ordered, h.leads, e.postOrder_eq, ?_⟩
  · intro way
    exact ⟨h.isSome_of_mem, h.complete way⟩
  · intro σ callback d
    exact Visitor.afterExprs_run callback (Site.height_le_fuel e) d

example :
    let x : Expr := .var ⟨⟨⟨0, none⟩, none⟩, ⟨0, "x"⟩, false⟩
    let pair : Expr := .tuple ⟨⟨1, none⟩, none⟩ [x, x]
    pair.postOrder = .ok [x, x, pair] := by
  rfl

end Expr

end DataflowIR
