import DataflowIR.Proofs.Normalize.Completion

namespace DataflowIR

section Arguments

variable {known : String → Bool}

mutual

theorem Expr.check_calls_normal {asBody : Bool} {sc sc' : Scope} {e : Expr}
    (h : e.check known asBody sc = .ok sc') : ∀ c ∈ e.calls, Expr.areNormal c.args := by
  cases e with
  | leaf | var _ | shape | prim => nofun
  | tuple _ _ => exact Expr.checkAll_calls_normal (check_tuple.mp h).2
  | item _ whole _ => exact Expr.check_calls_normal (e := whole) (check_item.mp h)
  | call _ _ _ _ _ =>
    obtain ⟨hn, sc1, h1, -, h2⟩ := check_call.mp h
    exact List.forall_mem_cons.mpr ⟨Expr.areNormal_iff.mpr hn, List.forall_mem_append.mpr
      ⟨Expr.check_calls_normal h1, Expr.checkAll_calls_normal h2⟩⟩
  | ite _ _ _ _ =>
    obtain ⟨-, sc1, after, sc2, h1, h2, h3, -⟩ := check_ite.mp h
    exact List.forall_mem_append.mpr ⟨Expr.check_calls_normal h1, List.forall_mem_append.mpr
      ⟨Expr.check_calls_normal h2, Expr.check_calls_normal h3⟩⟩
  | seq _ _ _ =>
    obtain ⟨-, sc1, h1, h2⟩ := check_seq.mp h
    exact List.forall_mem_append.mpr
      ⟨Block.checkAll_calls_normal h1, Expr.check_calls_normal h2⟩
  | function _ _ body _ _ =>
    obtain ⟨sc1, sc2, -, h2, -⟩ := check_function.mp h
    exact Expr.check_calls_normal (e := body) h2

theorem Expr.checkAll_calls_normal {sc sc' : Scope} {es : List Expr}
    (h : Expr.checkAll known sc es = .ok sc') : ∀ c ∈ Expr.callsAll es, Expr.areNormal c.args := by
  cases es with
  | nil => nofun
  | cons e es =>
    obtain ⟨sc1, h1, h2⟩ := checkAll_cons.mp h
    exact List.forall_mem_append.mpr
      ⟨Expr.check_calls_normal h1, Expr.checkAll_calls_normal h2⟩

theorem Binding.check_calls_normal {sc sc' : Scope} {b : Binding} (h : b.check known sc = .ok sc') :
    ∀ c ∈ b.calls, Expr.areNormal c.args := by
  cases b with
  | bind _ _ value =>
    obtain ⟨sc1, h1, -⟩ := check_bind.mp h
    exact Expr.check_calls_normal (e := value) h1
  | cast _ _ value _ =>
    obtain ⟨sc1, h1, -⟩ := check_cast.mp h
    exact Expr.check_calls_normal (e := value) h1

theorem Binding.checkAll_calls_normal {sc sc' : Scope} {bs : List Binding}
    (h : Binding.checkAll known sc bs = .ok sc') :
    ∀ c ∈ Binding.callsAll bs, Expr.areNormal c.args := by
  cases bs with
  | nil => nofun
  | cons b bs =>
    obtain ⟨sc1, h1, h2⟩ := binding_checkAll_cons.mp h
    exact List.forall_mem_append.mpr
      ⟨Binding.check_calls_normal h1, Binding.checkAll_calls_normal h2⟩

theorem Block.check_calls_normal {sc sc' : Scope} {b : Block} :
    b.check known sc = .ok sc' → ∀ c ∈ b.calls, Expr.areNormal c.args := by
  match b with
  | .mk _ .plain bindings =>
    intro h
    have hbindings : Binding.checkAll known sc bindings = .ok sc' := h
    exact Binding.checkAll_calls_normal hbindings
  | .mk _ .dataflow bindings =>
    intro h
    obtain ⟨sc1, h1, -⟩ := check_dataflow.mp h
    exact Binding.checkAll_calls_normal h1

theorem Block.checkAll_calls_normal {sc sc' : Scope} {bs : List Block}
    (h : Block.checkAll known sc bs = .ok sc') :
    ∀ c ∈ Block.callsAll bs, Expr.areNormal c.args := by
  cases bs with
  | nil => nofun
  | cons b bs =>
    obtain ⟨sc1, h1, h2⟩ := block_checkAll_cons.mp h
    exact List.forall_mem_append.mpr
      ⟨Block.check_calls_normal h1, Block.checkAll_calls_normal h2⟩

end

end Arguments

/-- After a run that fused something in a well-formed module, another run leaves the module as it
is, whenever that is. The tags of the module were used up before the first run, so that no new node
passes for an old one. -/
theorem fusion_settles {m m' : Module} {w w' : World} (hwf : m.wellFormed = .ok ())
    (hb : Below w.next m.tags)
    (h : (Pass.fusedMultiplyAdd.apply m).exec w = (.ok (some m'), w')) (again : World) :
    ((Pass.fusedMultiplyAdd.apply m').exec again).1 = .ok none := by
  refine (Pass.settles Pass.fusedMultiplyAdd_ne hb ?_ h).2 again
  intro e he _
  obtain ⟨sc, hsc⟩ := Module.wellFormed_ok.mp hwf e he
  exact Expr.check_calls_normal hsc

namespace Chain

def x : Var :=
  ⟨⟨⟨0, none⟩, some (.tensorOfShape [.int 4] (.float 32))⟩, ⟨0, "x"⟩, false⟩

def named (index : Nat) (name : String) : Var :=
  ⟨⟨⟨index, none⟩, none⟩, ⟨index, name⟩, false⟩

def product : Var := named 1 "product"

def total : Var := named 2 "total"

def swapped : Var := named 3 "swapped"

def doubled : Var := named 4 "doubled"

def choice : Var := named 5 "choice"

def inner : Var := named 6 "inner"

def binary (tag : Nat) (name : String) (a b : Var) : Expr :=
  .mkCall ⟨tag, none⟩ (.mkOp (tag + 1) name) [.var a, .var b] none []

/-- The product is on the right of `swapped`, and `doubled` adds to what is fused before it. -/
def bindings : List Binding :=
  [.bind ⟨10, none⟩ product (binary 11 "relax.multiply" x x),
    .bind ⟨13, none⟩ total (binary 14 "relax.add" product x),
    .bind ⟨16, none⟩ swapped (binary 17 "relax.add" x product),
    .bind ⟨19, none⟩ doubled (binary 20 "relax.add" total product)]

/-- An addition in a branch, to a product from outside. -/
def branch : Expr :=
  .mkSeq ⟨22, none⟩ [.mk ⟨23, none⟩ .plain [.bind ⟨24, none⟩ inner
    (binary 25 "relax.add" product doubled)]] (.var inner)

def main : Function :=
  ⟨⟨⟨27, none⟩, none⟩, [x], .mkSeq ⟨28, none⟩ [.mk ⟨29, none⟩ .plain (bindings ++
    [.bind ⟨30, none⟩ choice (.mkIte ⟨31, none⟩ (.var x) branch (.var swapped))])] (.var choice),
    .object, .empty⟩

def module : Module :=
  (Module.empty.add 32 "main" main).2

def world : World := ⟨33, []⟩

end Chain

open Chain in
theorem fusion_settles_chain : module.wellFormed = .ok () ∧ Below world.next module.tags ∧
    ∃ m' w', (Pass.fusedMultiplyAdd.apply module).exec world = (.ok (some m'), w') ∧
      ((Pass.fusedMultiplyAdd.apply m').exec world).1 = .ok none := by
  have hwf : module.wellFormed = .ok () := by rfl
  have hb : Below world.next module.tags := by decide +kernel
  have hs : (Pass.fusedMultiplyAdd.changedModule? module world).isSome := by decide +kernel
  obtain ⟨m', hm⟩ := Option.isSome_iff_exists.mp hs
  have h := Pass.apply_of_changedModule? hm
  exact ⟨hwf, hb, m', _, h, fusion_settles hwf hb h world⟩

end DataflowIR
