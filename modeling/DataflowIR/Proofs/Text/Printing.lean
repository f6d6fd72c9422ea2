import DataflowIR.Traversal.Printer

namespace DataflowIR

/-- After a part that gives a result the rest runs on it. -/
theorem Act.exec_bind_of_ok {σ α β : Type} {act : Act σ α} {next : α → Act σ β} {s t : σ} {a : α}
    (h : act.exec s = (.ok a, t)) : (act >>= next).exec s = (next a).exec t := by
  rw [Act.exec_bind, h]

theorem Text.intercalate_newline (first : String) (rest : List String) :
    String.intercalate "\n" (first :: rest) = first ++ String.join (rest.map ("\n" ++ ·)) := by
  induction rest generalizing first with
  | nil => simp
  | cons next rest ih =>
    rw [String.intercalate_cons_cons, ih next, List.map_cons, String.join_cons]
    simp only [String.append_assoc]

/-- Lines with a line break between two of them, put between braces. -/
private theorem bracedLines_eq_intercalate (level : Int) {lines : List String} (h : lines ≠ []) :
    bracedLines level lines =
      "\x7b\n" ++ String.intercalate "\n" lines ++ "\n" ++ Text.spaces level ++ "\x7d" := by
  obtain ⟨first, rest, rfl⟩ := List.exists_cons_of_ne_nil h
  have hopen : "\x7b\n" = "\x7b" ++ "\n" := rfl
  rw [bracedLines, Text.intercalate_newline, List.map_cons, String.join_cons, hopen]
  simp only [String.append_assoc]

/-- Lines between braces after what opens them. -/
private theorem append_bracedLines_eq_intercalate (level : Int) (before : String)
    (lines : List String) :
    before ++ bracedLines level lines =
      String.intercalate "\n"
        ((before ++ "\x7b") :: (lines ++ [Text.spaces level ++ "\x7d"])) := by
  rw [Text.intercalate_newline, bracedLines, List.map_append, String.join_append]
  simp [String.append_assoc]

mutual

/-- By how many levels the printed form goes deeper than the line it starts on. -/
def Expr.levels : Expr → Nat
  | .leaf _ _ | .var _ | .shape _ _ | .prim _ _ _ => 0
  | .tuple _ fields => Expr.levelsOfList fields
  | .item _ whole _ => whole.levels
  | .call _ callee args _ _ => max callee.levels (Expr.levelsOfList args)
  | .ite _ cond onTrue onFalse =>
    max cond.levels
      (max (if onTrue.isSeq then onTrue.levels else onTrue.levels + 1)
        (if onFalse.isSeq then onFalse.levels else onFalse.levels + 1))
  | .seq _ blocks body => max (Block.levelsOfList blocks) body.levels + 1
  | .function _ _ body _ _ => if body.isSeq then body.levels else body.levels + 1

def Expr.levelsOfList : List Expr → Nat
  | [] => 0
  | e :: es => max e.levels (Expr.levelsOfList es)

def Binding.levels : Binding → Nat
  | .bind _ _ value => value.levels
  | .cast _ _ value _ => value.levels

def Binding.levelsOfList : List Binding → Nat
  | [] => 0
  | b :: bs => max b.levels (Binding.levelsOfList bs)

def Block.levels : Block → Nat
  | .mk _ .plain bindings => Binding.levelsOfList bindings
  | .mk _ .dataflow bindings => Binding.levelsOfList bindings + 1

/-- A block without bindings is not printed. -/
def Block.levelsOfList : List Block → Nat
  | [] => 0
  | .mk mark kind bindings :: bs =>
    let rest := Block.levelsOfList bs
    if bindings.isEmpty then rest else max (Block.levels (.mk mark kind bindings)) rest

end

namespace Printer

theorem toInt_next {level : Int32} (h : level ≠ Int32.maxValue) :
    (level + 1).toInt = level.toInt + 1 := by
  have hne : level.toInt ≠ Int32.maxValue.toInt := fun heq => h (Int32.toInt_inj.mp heq)
  have hle := level.toInt_le
  have hge := level.le_toInt
  rw [Int32.toInt_maxValue] at hne hle
  have hone : (1 : Int32).toInt = 1 := rfl
  rw [Int32.toInt_add, hone]
  exact Int.bmod_eq_of_le (by omega) (by omega)

theorem exec_deeper {level : Int32} (h : level ≠ Int32.maxValue) (s : Int32) :
    (deeper level).exec s = (.ok (level + 1), s) := by
  rw [deeper, if_neg h, Act.exec_pure]

theorem exec_indent {level : Int32} (h : level ≠ Int32.maxValue) :
    indent.exec level = (.ok (), level + 1) := by
  rw [indent, Act.exec_bind_of_ok (Act.exec_get level), Act.exec_bind_of_ok (exec_deeper h level)]
  rfl

private theorem exec_indent_greatest :
    indent.exec Int32.maxValue = (.error .levelOverflow, Int32.maxValue) := rfl

private theorem exec_outdent (level : Int32) : outdent.exec (level + 1) = (.ok (), level) := by
  rw [outdent, Act.exec_modify, Int32.add_sub_cancel]

/-- With `depth` levels below the current one the act gives `a` and comes back to the level; with
fewer it stops. -/
structure Prints {α : Type} (act : Act Int32 α) (depth : Nat) (a : α) (level : Int32) : Prop where
  fits : level.toInt + depth ≤ Int32.maxValue.toInt → act.exec level = (.ok a, level)
  overflows : Int32.maxValue.toInt < level.toInt + depth →
    ∃ t, act.exec level = (.error .levelOverflow, t)

namespace Prints

variable {α β : Type} {act : Act Int32 α} {m n : Nat} {a : α} {level : Int32}

theorem of_exec (h : act.exec level = (.ok a, level)) : Prints act 0 a level where
  fits _ := h
  overflows hover := by
    have hle := level.toInt_le
    omega

theorem pure (a : α) (level : Int32) : Prints (pure a) 0 a level :=
  of_exec (Act.exec_pure a level)

theorem get (level : Int32) : Prints get 0 level level :=
  of_exec (Act.exec_get level)

theorem bind {next : α → Act Int32 β} {b : β} (h : Prints act m a level)
    (k : Prints (next a) n b level) : Prints (act >>= next) (max m n) b level where
  fits hfit := by
    have hact := h.fits (by omega)
    rw [Act.exec_bind_of_ok hact]
    exact k.fits (by omega)
  overflows hover := by
    by_cases hm : level.toInt + m ≤ Int32.maxValue.toInt
    · rw [Act.exec_bind_of_ok (h.fits hm)]
      exact k.overflows (by omega)
    · obtain ⟨t, ht⟩ := h.overflows (by omega)
      exact ⟨t, by rw [Act.exec_bind, ht]⟩

/-- What comes after an act without levels has its own. -/
theorem after {next : α → Act Int32 β} {b : β} (h : Prints act 0 a level)
    (k : Prints (next a) n b level) : Prints (act >>= next) n b level := by
  have hbind := h.bind k
  rwa [Nat.zero_max] at hbind

/-- What comes before an act without levels has its own. -/
theorem before {next : α → Act Int32 β} {b : β} (h : Prints act m a level)
    (k : Prints (next a) 0 b level) : Prints (act >>= next) m b level := by
  have hbind := h.bind k
  rwa [Nat.max_zero] at hbind

theorem map {f : α → β} (h : Prints act m a level) :
    Prints (act >>= fun a => Pure.pure (f a)) m (f a) level := by
  have hpure : Prints (Pure.pure (f a)) 0 (f a) level := .pure (f a) level
  exact h.before hpure

/-- What stands one level deeper has one level more. -/
theorem nested (h : ∀ next : Int32, next.toInt = level.toInt + 1 → Prints act m a next) :
    Prints (Printer.nested act) (m + 1) a level where
  fits hfit := by
    have hne : level ≠ Int32.maxValue := by
      rintro rfl
      omega
    have hnext := toInt_next hne
    have hact := (h (level + 1) hnext).fits (by omega)
    rw [Printer.nested, Act.exec_bind_of_ok (exec_indent hne), Act.exec_bind_of_ok hact,
      Act.exec_bind_of_ok (exec_outdent level), Act.exec_pure]
  overflows hover := by
    by_cases hne : level = Int32.maxValue
    · subst hne
      refine ⟨Int32.maxValue, ?_⟩
      rw [Printer.nested, Act.exec_bind, exec_indent_greatest]
    · have hnext := toInt_next hne
      obtain ⟨t, ht⟩ := (h (level + 1) hnext).overflows (by omega)
      refine ⟨t, ?_⟩
      rw [Printer.nested, Act.exec_bind_of_ok (exec_indent hne), Act.exec_bind, ht]

/-- A text on a line of its own stands one level deeper, with the braces around it. -/
theorem enclosed {act : Act Int32 String} {text : String}
    (h : ∀ next : Int32, next.toInt = level.toInt + 1 → Prints act m text next) :
    Prints (Printer.enclosed act) (m + 1)
      (bracedLines level.toInt [Text.spaces (level.toInt + 1) ++ text]) level where
  fits hfit := by
    have hne : level ≠ Int32.maxValue := by
      rintro rfl
      omega
    have hnext := toInt_next hne
    have hact := (h (level + 1) hnext).fits (by omega)
    have hinner : act.attempt.exec (level + 1) = (.ok (.ok text), level + 1) := by
      rw [Act.exec_attempt, hact]
    rw [Printer.enclosed, Act.exec_bind_of_ok (exec_indent hne), Act.exec_bind_of_ok hinner,
      Act.exec_bind_of_ok (exec_outdent level), Act.exec_bind_of_ok (Act.exec_get level),
      Act.exec_bind_of_ok (exec_deeper hne level),
      Act.exec_bind_of_ok (Act.exec_resume (.ok _) level), Act.exec_pure,
      bracedLines_eq_intercalate level.toInt (by simp), pad, pad, hnext]
    simp [String.append_assoc]
  overflows hover := by
    by_cases hne : level = Int32.maxValue
    · subst hne
      refine ⟨Int32.maxValue, ?_⟩
      rw [Printer.enclosed, Act.exec_bind, exec_indent_greatest]
    · have hnext := toInt_next hne
      obtain ⟨t, ht⟩ := (h (level + 1) hnext).overflows (by omega)
      have hinner : act.attempt.exec (level + 1) = (.ok (.error .levelOverflow), t) := by
        rw [Act.exec_attempt, ht]
      have hout : outdent.exec t = (.ok (), t - 1) := Act.exec_modify _ t
      refine ⟨t - 1, ?_⟩
      rw [Printer.enclosed, Act.exec_bind_of_ok (exec_indent hne), Act.exec_bind_of_ok hinner,
        Act.exec_bind_of_ok hout, Act.exec_bind_of_ok (Act.exec_get (t - 1))]
      -- Wherever the failure left the level, the line is not begun.
      by_cases hgreatest : t - 1 = Int32.maxValue
      · rw [Act.exec_bind, deeper, if_pos hgreatest]
        rfl
      · rw [Act.exec_bind_of_ok (exec_deeper hgreatest (t - 1))]
        rfl

end Prints

/-- Expressions up to a size are printed as far as there are levels for them. -/
def Faithful (self : Expr → Act Int32 String) (bound : Nat) : Prop :=
  ∀ e : Expr, e.size ≤ bound → ∀ level, Prints (self e) e.levels (e.textAt level.toInt) level

variable {self : Expr → Act Int32 String} {bound : Nat}

theorem Faithful.list (h : Faithful self bound) {es : List Expr}
    (hes : Expr.sizeOfList es ≤ bound) (level : Int32) :
    Prints (list self es) (Expr.levelsOfList es) (Expr.textsAt level.toInt es) level := by
  induction es with
  | nil => exact .pure [] level
  | cons e es ih =>
    simp only [Expr.sizeOfList] at hes
    have he := h e (by omega) level
    have hrest := ih (by omega)
    exact he.bind hrest.map

theorem Faithful.binding (h : Faithful self bound) {b : Binding} (hb : b.value.size ≤ bound)
    (level : Int32) : Prints (binding self b) b.levels (b.textAt level.toInt) level := by
  cases b with
  | bind _ _ value | cast _ _ value _ =>
    have hvalue := h value hb level
    exact hvalue.map

theorem Faithful.bindings (h : Faithful self bound) {bs : List Binding}
    (hbs : Binding.sizeOfList bs ≤ bound) (level : Int32) :
    Prints (bindings self (pad level) bs) (Binding.levelsOfList bs)
      (Binding.linesAt level.toInt bs) level := by
  induction bs with
  | nil => exact .pure [] level
  | cons b bs ih =>
    have hvalue : b.value.size ≤ b.size := by
      cases b <;> simp only [Binding.value, Binding.size] <;> omega
    simp only [Binding.sizeOfList] at hbs
    have hb := h.binding (b := b) (by omega) level
    have hrest := ih (by omega)
    exact hb.bind hrest.map

theorem Faithful.block (h : Faithful self bound) {b : Block} (hb : b.size ≤ bound)
    (level : Int32) : Prints (block self b) b.levels (b.textAt level.toInt) level := by
  cases b with
  | mk mark kind bs =>
    simp only [Block.size] at hb
    have hbs : Binding.sizeOfList bs ≤ bound := by omega
    cases kind with
    | plain =>
      have hlines := h.bindings hbs level
      exact (Prints.get level).after hlines.map
    | dataflow =>
      have hlines : Prints (nested do
          let inner ← get
          let lines ← Printer.bindings self (pad inner) bs
          return lines ++ outputLines inner.toInt (bs.map Binding.var))
          (Binding.levelsOfList bs + 1)
          (Binding.linesAt (level.toInt + 1) bs ++
            outputLines (level.toInt + 1) (bs.map Binding.var)) level := by
        apply Prints.nested
        intro next hnext
        rw [← hnext]
        exact (Prints.get next).after (h.bindings hbs next).map
      have hopen : pad level ++ "dataflow \x7b" =
          Text.spaces level.toInt ++ "dataflow " ++ "\x7b" := by
        rw [String.append_assoc]
        rfl
      rw [Block.textAt, append_bracedLines_eq_intercalate, ← hopen]
      exact (Prints.get level).after hlines.map

theorem Faithful.blocks (h : Faithful self bound) {bs : List Block}
    (hbs : Block.sizeOfList bs ≤ bound) (level : Int32) :
    Prints (blocks self bs) (Block.levelsOfList bs) (Block.textsAt level.toInt bs) level := by
  induction bs with
  | nil => exact .pure [] level
  | cons b bs ih =>
    simp only [Block.sizeOfList] at hbs
    have hb := h.block (b := b) (by omega) level
    have hrest := ih (by omega)
    cases b with
    | mk mark kind bindings =>
      rw [Printer.blocks, Block.textsAt, Block.levelsOfList]
      by_cases hempty : bindings.isEmpty
      · simp only [if_pos hempty]
        exact hrest
      · simp only [if_neg hempty]
        exact hb.bind hrest.map

theorem Faithful.seq (h : Faithful self bound) (node : Node) {bs : List Block} {body : Expr}
    (hsize : Block.sizeOfList bs + body.size ≤ bound) (level : Int32) :
    Prints (seq self bs body) (Expr.seq node bs body).levels
      ((Expr.seq node bs body).textAt level.toInt) level := by
  have hblocks : Block.sizeOfList bs ≤ bound := by omega
  have hlines : Prints (nested do
      let lines ← Printer.blocks self bs
      let text ← self body
      return lines ++ [pad (← get) ++ text]) (max (Block.levelsOfList bs) body.levels + 1)
      (Block.textsAt (level.toInt + 1) bs ++
        [Text.spaces (level.toInt + 1) ++ body.textAt (level.toInt + 1)]) level := by
    apply Prints.nested
    intro next hnext
    rw [← hnext]
    have hbody := h body (by omega) next
    have hlast : Prints (do
        let text ← self body
        return Block.textsAt next.toInt bs ++ [pad (← get) ++ text]) body.levels
        (Block.textsAt next.toInt bs ++ [Text.spaces next.toInt ++ body.textAt next.toInt])
        next :=
      hbody.before (Prints.get next).map
    exact (h.blocks hblocks next).bind hlast
  rw [Expr.textAt, bracedLines_eq_intercalate level.toInt (by simp)]
  exact hlines.before (Prints.get level).map

/-- A sequence as it is, another expression on a line of its own. -/
def bracedText (level : Int) (e : Expr) : String :=
  if e.isSeq then e.textAt level
  else bracedLines level [Text.spaces (level + 1) ++ e.textAt (level + 1)]

def bracedLevels (e : Expr) : Nat :=
  if e.isSeq then e.levels else e.levels + 1

theorem Faithful.braced (h : Faithful self bound) {e : Expr} (he : e.size ≤ bound)
    (level : Int32) :
    Prints (braced self e) (bracedLevels e) (bracedText level.toInt e) level := by
  have hother : ∀ next : Int32, next.toInt = level.toInt + 1 →
      Prints (self e) e.levels (e.textAt (level.toInt + 1)) next := by
    intro next hnext
    rw [← hnext]
    exact h e he next
  cases e with
  | seq node bs body =>
    have hparts : Block.sizeOfList bs + body.size ≤ bound := by
      simp only [Expr.size] at he
      omega
    exact h.seq node hparts level
  | _ => exact Prints.enclosed hother

theorem Faithful.function (h : Faithful self bound) (name : Option String) {f : Function}
    (hf : f.body.size ≤ bound) (level : Int32) :
    Prints (function self name f) (bracedLevels f.body) (f.textAt level.toInt name) level := by
  have hbody := h.braced hf level
  exact hbody.map

/-- One step of the recursion: what is printed of the parts is printed of the whole. -/
theorem Faithful.expr (h : Faithful self bound) : Faithful (expr self) (bound + 1) := by
  intro e he level
  cases e with
  | leaf | var | shape | prim => exact .pure _ level
  | tuple node fields =>
    simp only [Expr.size] at he
    have hsize : Expr.sizeOfList fields ≤ bound := by omega
    have hfields := h.list hsize level
    exact hfields.map
  | item node whole index =>
    simp only [Expr.size] at he
    have hwhole := h whole (by omega) level
    exact hwhole.map
  | call node callee args attrs sinfoArgs =>
    simp only [Expr.size] at he
    have hcallee := h callee (by omega) level
    have hsize : Expr.sizeOfList args ≤ bound := by omega
    have hargs := h.list hsize level
    exact hcallee.bind hargs.map
  | ite node cond onTrue onFalse =>
    simp only [Expr.size] at he
    have hcond := h cond (by omega) level
    have htrue := h.braced (e := onTrue) (by omega) level
    have hfalse := h.braced (e := onFalse) (by omega) level
    exact hcond.bind (htrue.bind hfalse.map)
  | seq node bs body =>
    simp only [Expr.size] at he
    exact h.seq node (by omega) level
  | function node params body ret attrs =>
    simp only [Expr.size] at he
    have hbody : body.size ≤ bound := by omega
    exact h.function none (f := ⟨node, params, body, ret, attrs⟩) hbody level

theorem faithful_run (fuel : Fuel) : Faithful (evaluator.run fuel) fuel.toNat := by
  induction fuel with
  | spent =>
    intro e he
    exact absurd e.size_pos (Nat.not_lt.mpr he)
  | step rest ih =>
    exact (ih ()).expr

theorem size_le_fuel (e : Expr) : e.size ≤ e.fuel.toNat := by
  rw [Expr.fuel_eq_ofNat, Fuel.toNat_ofNat]
  omega

/-- The printer gives the printed form at its level, and is at that level again afterwards. It stops
only where the printed form nests deeper than there are levels. -/
theorem prints_print (e : Expr) (level : Int32) :
    Prints (print e) e.levels (e.textAt level.toInt) level := by
  exact faithful_run e.fuel e (size_le_fuel e) level

theorem prints_printBinding (b : Binding) (level : Int32) :
    Prints (printBinding b) b.levels (b.textAt level.toInt) level := by
  have hfuel := size_le_fuel b.value
  exact (faithful_run _).binding hfuel level

theorem prints_printBlock (b : Block) (level : Int32) :
    Prints (printBlock b) b.levels (b.textAt level.toInt) level := by
  have hfuel : b.size ≤ (b.fuelBefore fun _ => .spent).toNat := by
    rw [Block.toNat_fuelBefore]
    omega
  exact (faithful_run _).block hfuel level

theorem prints_printFunction (name : Option String) (f : Function) (level : Int32) :
    Prints (printFunction name f) (bracedLevels f.body) (f.textAt level.toInt name) level := by
  have hfuel := size_le_fuel f.body
  exact (faithful_run _).function name hfuel level

end Printer

end DataflowIR
