import DataflowIR.Proofs.Relabeling.Walks

namespace DataflowIR

open Act (Tracks)
open Session

variable {ℓ : Relabeling} {go go' : (s : Site) → Build Unit s.Result}

namespace Transformer

private theorem binaryOperands?_relabel (σ : Equiv.Perm Nat) (c : Call) (name : String) :
    (c.relabel σ).binaryOperands? name =
      (c.binaryOperands? name).map fun x => (x.1.relabel σ, x.2.relabel σ) := by
  obtain ⟨node, callee, args, attrs, sinfoArgs⟩ := c
  match args with
  | [] | [_] | _ :: _ :: _ :: _ => rfl
  | [a, b] =>
    by_cases h : callee.asOp? = some name <;>
      simp [Call.binaryOperands?, Call.relabel, Call.isOp, h]

private theorem summands?_relabel (σ : Equiv.Perm Nat) (e : Expr) (name : String) :
    (e.relabel σ).asCall?.bind (·.binaryOperands? name) =
      (e.asCall?.bind (·.binaryOperands? name)).map fun x =>
        (x.1.relabel σ, x.2.relabel σ) := by
  rw [Expr.asCall?_relabel]
  cases e.asCall? with
  | none => rfl
  | some c => exact binaryOperands?_relabel σ c name

private theorem factors?_relabel (σ : Equiv.Perm Nat) (b : Builder) (e : Expr) :
    factors? (b.relabel σ) (e.relabel σ) =
      (factors? b e).map fun x => (x.1.relabel σ, x.2.relabel σ) := by
  unfold factors?
  rw [Expr.asVar?_relabel]
  cases e.asVar? with
  | none => rfl
  | some v =>
    simp only [Option.map_some, Option.bind_some, Builder.lookup_relabel]
    cases b.lookup v with
    | none => rfl
    | some value => exact summands?_relabel σ value "relax.multiply"

private theorem fuseAddition_tracks (e : Expr) : Tracks ℓ (Expr.relabel ℓ.perm)
    (fuseAddition e) (fuseAddition (e.relabel ℓ.perm)) := by
  unfold fuseAddition
  rw [summands?_relabel]
  cases e.asCall?.bind (·.binaryOperands? "relax.add") with
  | none => exact .pure e
  | some operands =>
    refine getBuilder_tracks.bind fun b => ?_
    rw [factors?_relabel]
    cases factors? b operands.1 with
    | none => exact .pure e
    | some factors =>
      dsimp only [Option.map_some]
      rw [Expr.span_relabel, Expr.sinfo_relabel]
      exact (report_tracks _ _).bind fun _ => (freshMark_tracks e.span).bind fun m =>
        fresh_tracks.bind fun n => .pure (Expr.call ⟨m, e.sinfo⟩ (.mkOp n "relax.ewise_fma")
          [factors.1, factors.2, operands.2] none [])

private theorem changeKind_tracks (dataflow : Bool) (v : Var) : Tracks ℓ (Var.relabel ℓ.perm)
    (changeKind dataflow v : Build Unit Var)
    (changeKind dataflow (v.relabel ℓ.perm) : Build Unit Var) := by
  refine (freshMark_tracks v.span).bind fun m => ?_
  refine (setRemap_tracks v.id (.make m v.id v.sinfo dataflow)).bind fun _ => ?_
  exact .pure (Var.make m v.id v.sinfo dataflow)

private theorem lowerCall_tracks (h : Transformer.Keeps ℓ go go') (mark : Mark) (v : Var)
    (out : StructInfo) (shape f packed : Expr) :
    Tracks ℓ id (lowerCall go mark v out shape f packed)
      (lowerCall go' (mark.relabel ℓ.perm) (v.relabel ℓ.perm) out (shape.relabel ℓ.perm)
        (f.relabel ℓ.perm) (packed.relabel ℓ.perm)) := by
  refine (h.expr shape).bind fun shape => (h.expr f).bind fun f => (h.expr packed).bind
    fun packed => ?_
  dsimp only
  have hargs : (packed.relabel ℓ.perm).asTuple?.getD [packed.relabel ℓ.perm] =
      (packed.asTuple?.getD [packed]).map (Expr.relabel ℓ.perm) := by
    rw [Expr.asTuple?_relabel]
    cases packed.asTuple? <;> rfl
  rw [hargs]
  generalize packed.asTuple?.getD [packed] = args
  refine fresh_tracks.bind fun n => (freshMark_tracks none).bind fun m => ?_
  refine (emit_tracks (.call ⟨m, some out⟩ (.mkOp n "relax.builtin.alloc_tensor") [shape] none
    [out]) "alloc").bind fun alloc => ?_
  refine (report_tracks _ _).bind fun _ => (freshMark_tracks none).bind fun m => ?_
  have hcall := emit_tracks (τ := Unit) (υ := Unit) (ℓ := ℓ)
    (.mkCall m f (args ++ [.var alloc]) none []) "call"
  rw [Expr.relabel_mkCall, List.map_append] at hcall
  refine hcall.bind fun _ => (h.varDef v).bind fun v' => (retype_tracks v' _).bind fun v' => ?_
  exact (Keeps.remapIfChanged v v').bind fun _ => (freshMark_tracks mark.span).bind fun m =>
    emitBinding_tracks (.bind m v' (.var alloc))

private theorem destinationPassing?_relabel (σ : Equiv.Perm Nat) (c : Call) :
    destinationPassing? (c.relabel σ) = (destinationPassing? c).map fun x =>
      (x.1.relabel σ, x.2.1.relabel σ, x.2.2.relabel σ) := by
  obtain ⟨node, callee, args, attrs, sinfoArgs⟩ := c
  match args with
  | [] | [_] | [_, _] | _ :: _ :: _ :: _ :: _ => rfl
  | [a, b, d] =>
    by_cases h : callee.asOp? = some "relax.call_dps" <;>
      simp [destinationPassing?, Call.relabel, Call.isOp, h]

private theorem lowerBinding_tracks (h : Transformer.Keeps ℓ go go') (b : Binding) :
    Tracks ℓ id (lowerBinding go b) (lowerBinding go' (b.relabel ℓ.perm)) := by
  cases b with
  | cast mark v value sinfo => exact h.walkBinding (.cast mark v value sinfo)
  | bind mark v value =>
    have hwalk := h.walkBinding (.bind mark v value)
    unfold lowerBinding
    dsimp only [Binding.relabel] at hwalk ⊢
    rw [Expr.asCall?_relabel]
    cases value.asCall? with
    | none => exact hwalk
    | some c =>
      dsimp only [Option.map_some]
      rw [destinationPassing?_relabel]
      cases destinationPassing? c with
      | none => exact hwalk
      | some parts =>
        exact lowerCall_tracks h mark v (destinationSinfo c v) parts.1 parts.2.1 parts.2.2

end Transformer

open Transformer (Keeps)

/-- One level of a pass. -/
private theorem Pass.keeps_step (p : Pass) (h : Keeps ℓ go go') :
    Keeps ℓ (p.transformer go) (p.transformer go') := by
  have hw : Keeps ℓ (Transformer.walk go) (Transformer.walk go') := h.walk
  cases p with
  | normalize => exact hw
  | fusedMultiplyAdd =>
    refine { hw with exprKind := ?_ }
    intro e
    cases e with
    | call node callee args attrs sinfoArgs =>
      exact (h.walkExpr _).bind Transformer.fuseAddition_tracks
    | _ => exact hw.exprKind _
  | explicitMemory =>
    refine { hw with
      bindingKind := Transformer.lowerBinding_tracks h
      blockKind := h.walkBlockAs .plain
      varDefKind := ?_ }
    intro v
    exact .ite (Transformer.changeKind_tracks false v) (h.walkVarDef v)

/-- By induction on the fuel: without any, both fail alike. -/
private theorem Pass.keeps_run (p : Pass) (fuel : Fuel) :
    Keeps ℓ (Transformer.run p.transformer fuel) (Transformer.run p.transformer fuel) := by
  induction fuel with
  | spent => constructor <;> exact fun _ => .fail .outOfFuel
  | step rest ih => exact p.keeps_step (ih ())

theorem Expr.kind_relabel (σ : Equiv.Perm Nat) (e : Expr) : (e.relabel σ).kind = e.kind := by
  cases e with
  | leaf node content => cases content <;> rfl
  | _ => rfl

/-- A pass over a function and over the relabeled function. -/
theorem Pass.transformFunction_tracks (p : Pass) (name : String) (f : Function) :
    Tracks ℓ (Option.map (Function.relabel ℓ.perm))
      (Module.transformFunction p.transformer .standard Expr.fuel name f)
      (Module.transformFunction p.transformer .standard Expr.fuel name (f.relabel ℓ.perm)) := by
  have hreset : Tracks (τ := Unit) (υ := Unit) ℓ id
      (modify fun s => { s with builder := .new .standard, remap := .empty })
      (modify fun s => { s with builder := .new .standard, remap := .empty }) :=
    .of_exec (fun _ => rfl) fun _ _ hs =>
      ⟨rfl, Rules.standard_uniform ℓ.perm, rfl, rfl, hs.supply⟩
  have hrun := (p.keeps_run (ℓ := ℓ) f.toExpr.fuel).expr f.toExpr
  unfold Module.transformFunction
  dsimp only
  rw [Expr.toExpr_relabel, Expr.fuel_relabel]
  refine hreset.bind fun _ => hrun.attempt.bind fun r => ?_
  cases r with
  | error fault => exact dropBuilder_tracks.bind fun _ => .fail fault
  | ok new =>
    simp only [relabelOutcome, Expr.sameAs_relabel, Expr.asFunction?_relabel, Expr.kind_relabel]
    refine .ite ((report_tracks _ _).bind fun _ => dropBuilder_tracks.bind fun _ => .pure none) ?_
    cases new.asFunction? with
    | some f' =>
      exact (report_tracks _ _).bind fun _ => dropBuilder_tracks.bind fun _ => .pure (some f')
    | none => exact dropBuilder_tracks.bind fun _ => .fail (.notAFunction name new.kind)

end DataflowIR
