import ScriptEngine.Eval.Evaluator
import ScriptEngine.Proofs.Environment.Store

/-!
How a statement writes its targets.

Definitions and assignments evaluate their right sides (`Evaluator.sides`) and then write one target
after the other. Which frame a target is written in, and why it may be refused (`Writing.place`),
can be told before the first is written, since no write changes it (`Writing.place_writing`). So the
targets before the first refused one are written, each with the last value it is given, and nothing
else is (`Writing.eachPair_cases`).
-/

namespace ScriptEngine

open Evaluator

namespace Evaluator

/-- The values of the right sides, however many there are. One expression may yield several. -/
def sides (ev : Evaluator) : List Expr → Eval EvalError (List Value)
  | [e] => do
    let v ← ev.expr e
    pure v.results
  | es => ev.exprs es

theorem sides_singleton {ev : Evaluator} {e : Expr} {m m' : Machine} {v : Value}
    (h : ev.expr e m = .value v m') : ev.sides [e] m = .value v.results m' := by
  simp only [sides, bind, Eval.bind, h, pure, Eval.pure]

/-- There must be as many values as targets. -/
theorem rightSides_eq (ev : Evaluator) (count : Nat) (es : List Expr) :
    ev.rightSides count es = ev.sides es >>= fun vs =>
      if vs.length = count then pure vs else Eval.fail (.assignmentMismatch count vs.length) := by
  match es with
  | [] | _ :: _ :: _ => rfl
  | [e] =>
    funext m
    simp only [rightSides, sides, bind, Eval.bind]
    cases ev.expr e m <;> rfl

end Evaluator

/-- The statements that write several targets. -/
inductive Writing where
  /-- `targets := values`. -/
  | define
  /-- `targets = values`. -/
  | assign

/-- The machine after `v` has been written under `x` in a frame. -/
def Machine.writing (m : Machine) (id : FrameId) (x : String) (v : Value) : Machine :=
  { m with frames := m.frames.define id x ⟨v, .mutable⟩ }

/-- The value of the last pair under a name. -/
def lastValue? (x : String) : List (String × Value) → Option Value
  | [] => none
  | (y, v) :: pairs => (lastValue? x pairs).or (if y = x then some v else none)

section LastValue

variable {x : String} {names : List String} {vs : List Value}

theorem lastValue?_eq_none (h : x ∉ names) : lastValue? x (names.zip vs) = none := by
  induction names generalizing vs with
  | nil => rfl
  | cons y names ih =>
    cases vs with
    | nil => rfl
    | cons v vs =>
      obtain ⟨hne, h⟩ := not_or.mp (mt List.mem_cons.mpr h)
      rw [List.zip_cons_cons, lastValue?, ih h, if_neg (Ne.symm hne), Option.none_or]

theorem mem_of_lastValue? (h : lastValue? x (names.zip vs) ≠ none) : x ∈ names :=
  Decidable.byContradiction fun hx => h (lastValue?_eq_none hx)

/-- Among different names, every value is the last one. -/
theorem lastValue?_of_nodup (hnodup : names.Nodup) {v : Value} (h : (x, v) ∈ names.zip vs) :
    lastValue? x (names.zip vs) = some v := by
  induction names generalizing vs with
  | nil => cases h
  | cons y names ih =>
    cases vs with
    | nil => cases h
    | cons w vs =>
      obtain ⟨hnew, hnodup⟩ := List.nodup_cons.mp hnodup
      rw [List.zip_cons_cons] at h ⊢
      rcases List.mem_cons.mp h with heq | h
      · cases heq
        rw [lastValue?, lastValue?_eq_none hnew, if_pos rfl, Option.none_or]
      · rw [lastValue?, ih hnodup h, Option.some_or]

end LastValue

namespace Writing

/-- The statement that writes the targets. -/
def stmt : Writing → Span → List String → List Expr → Stmt
  | define, s, targets, values => .define s targets values
  | assign, s, targets, values => .assign s targets none values

/-- How one target is written. -/
def write : Writing → String → Value → Eval EvalError Unit
  | define => bindUnlessBlank .mutable
  | assign => assignUnlessBlank

/-- The frame that a target is written in: the current one for a definition, and the one that the
name is resolved in for an assignment; or why it is not written. -/
def place (w : Writing) (m : Machine) (x : String) : Except BindError FrameId :=
  if isReserved x then .error .reserved
  else match w with
    | define => .ok m.env.current
    | assign =>
      match m.frames.resolve m.env.current x with
      | none => .error .undefined
      | some (owner, b) =>
        match b.mutability with
        | .immutable => .error .immutable
        | .mutable => .ok owner

/-- Why a target is refused, if it is; the blank name never is. -/
def refusal? (w : Writing) (m : Machine) (x : String) : Option BindError :=
  if x = blank then none
  else match w.place m x with
    | .ok _ => none
    | .error e => some e

section Write

variable {w : Writing} {m : Machine} {id : FrameId} {x : String} {v : Value} {e : BindError}

/-- One target is written in its place, or refused. -/
theorem write_eq (hx : x ≠ blank) (v : Value) :
    w.write x v m = match w.place m x with
      | .ok id => .value () (m.writing id x v)
      | .error e => .exit (.of (e.cause x)) m := by
  cases w with
  | define =>
    simp only [write, bindUnlessBlank, if_neg hx, Eval.bindName, Environment.define, place]
    cases isReserved x <;> rfl
  | assign =>
    simp only [write, assignUnlessBlank, if_neg hx, Eval.assignName, Environment.assign,
      Frames.assign, place]
    cases isReserved x with
    | true => rfl
    | false =>
      cases m.frames.resolve m.env.current x with
      | none => rfl
      | some found =>
        obtain ⟨owner, b⟩ := found
        cases hb : b.mutability <;> simp only [hb] <;> rfl

theorem place_of_refusal?_eq_none (hx : x ≠ blank) (h : w.refusal? m x = none) :
    ∃ id, w.place m x = .ok id := by
  rw [refusal?, if_neg hx] at h
  cases hp : w.place m x with
  | ok id => exact ⟨id, rfl⟩
  | error e =>
    rw [hp] at h
    cases h

theorem place_of_refusal?_eq_some (h : w.refusal? m x = some e) :
    x ≠ blank ∧ w.place m x = .error e := by
  unfold refusal? at h
  split at h
  · cases h
  · next hx =>
    refine ⟨hx, ?_⟩
    split at h
    · cases h
    · next hp =>
      cases h
      exact hp

theorem refusal?_of_place (h : w.place m x = .ok id) : w.refusal? m x = none := by
  rw [refusal?, h]
  exact ite_self none

theorem place_define_of_unreserved (hx : isReserved x = false) :
    define.place m x = .ok m.env.current := by
  rw [place, hx, if_neg Bool.false_ne_true]

/-- An assignment writes in place of a variable. -/
theorem place_assign_eq_ok_iff :
    assign.place m x = .ok id ↔ isReserved x = false ∧
      ∃ v, m.frames.resolve m.env.current x = some (id, ⟨v, .mutable⟩) := by
  unfold place
  cases isReserved x with
  | true => simp
  | false =>
    cases m.frames.resolve m.env.current x with
    | none => simp
    | some found =>
      obtain ⟨owner, u, mutability⟩ := found
      cases mutability <;> simp

/-- **To write a target moves no other.** -/
theorem place_writing (h : w.place m x = .ok id) (v : Value) (y : String) :
    w.place (m.writing id x v) y = w.place m y := by
  cases w with
  | define => rfl
  | assign =>
    have hparents : ∀ id', (m.writing id x v).frames.parent? id' = m.frames.parent? id' :=
      fun _ => Frames.parent?_define
    -- What is written over is a variable already.
    have hentries : ∀ id', ((m.writing id x v).frames.binding? id' y).map (·.mutability) =
        (m.frames.binding? id' y).map (·.mutability) := by
      intro id'
      obtain ⟨-, u, hresolve⟩ := place_assign_eq_ok_iff.mp h
      have hold := Frames.binding?_of_resolve hresolve
      by_cases heq : id = id' ∧ x = y
      · obtain ⟨rfl, rfl⟩ := heq
        rw [hold, Machine.writing, Frames.binding?_define_self (Frames.lt_size_of_binding? hold)]
        rfl
      · rw [Machine.writing, Frames.binding?_define_of_ne heq]
    have hresolve := Frames.resolve_congr hparents hentries m.env.current
    have hcurrent : (m.writing id x v).env.current = m.env.current := rfl
    simp only [place, hcurrent]
    cases hold : m.frames.resolve m.env.current y with
    | none =>
      rw [hold, Option.map_none, Option.map_eq_none_iff] at hresolve
      rw [hresolve]
    | some found =>
      rw [hold, Option.map_some, Option.map_eq_some_iff] at hresolve
      obtain ⟨found', hnew, heq⟩ := hresolve
      obtain ⟨howner, hmut⟩ := Prod.mk.inj heq
      rw [hnew]
      simp only [howner, hmut]

theorem refusal?_writing (h : w.place m x = .ok id) (v : Value) (y : String) :
    w.refusal? (m.writing id x v) y = w.refusal? m y := by
  rw [refusal?, refusal?, place_writing h]

end Write

/-! ### Several targets -/

/-- `m'` is `m` after the pairs have been written: each name that is not blank has its last value,
in its place, and everything else is as it was. -/
structure Written (w : Writing) (pairs : List (String × Value)) (m m' : Machine) : Prop where
  entered : ∀ x v id, lastValue? x pairs = some v → x ≠ blank → w.place m x = .ok id →
    id.index < m.frames.size → m'.frames.binding? id x = some ⟨v, .mutable⟩
  kept : ∀ id x, (lastValue? x pairs ≠ none → x ≠ blank → w.place m x ≠ .ok id) →
    m'.frames.binding? id x = m.frames.binding? id x
  parents : ∀ id, m'.frames.parent? id = m.frames.parent? id
  places : ∀ x, w.place m' x = w.place m x
  rest : m' = { m with frames := m'.frames }

section Written

variable {w : Writing} {m m' : Machine} {x : String} {v : Value} {pairs : List (String × Value)}
  {names : List String} {vs : List Value}

theorem written_nil (w : Writing) (m : Machine) : w.Written [] m m where
  entered _ _ _ hlast := nomatch hlast
  kept _ _ _ := rfl
  parents _ := rfl
  places _ := rfl
  rest := rfl

/-- Writing one target and then others. -/
theorem Written.cons {id : FrameId} (hx : x ≠ blank) (hplace : w.place m x = .ok id)
    (h : w.Written pairs (m.writing id x v) m') : w.Written ((x, v) :: pairs) m m' where
  entered y u id' hlast hy hplace' hlt := by
    have hsame := place_writing hplace v
    have hlt' : id'.index < (m.writing id x v).frames.size :=
      (Frames.size_define ..).symm ▸ hlt
    rw [lastValue?] at hlast
    cases hrest : lastValue? y pairs with
    | some u' =>
      rw [hrest, Option.some_or] at hlast
      cases hlast
      exact h.entered y u id' hrest hy ((hsame y).trans hplace') hlt'
    | none =>
      rw [hrest, Option.none_or] at hlast
      split at hlast
      · next heq =>
        cases hlast
        cases heq
        cases hplace.symm.trans hplace'
        rw [h.kept id x fun hne => absurd hrest hne]
        exact Frames.binding?_define_self hlt
      · cases hlast
  kept id' y hy := by
    rw [h.kept id' y fun hlast hblank hplace' => ?_]
    · refine Frames.binding?_define_of_ne ?_
      rintro ⟨rfl, rfl⟩
      refine hy ?_ hx hplace
      rw [lastValue?, if_pos rfl]
      cases lastValue? x pairs <;> nofun
    · rw [place_writing hplace] at hplace'
      refine hy ?_ hblank hplace'
      rw [lastValue?]
      cases hrest : lastValue? y pairs with
      | none => exact absurd hrest hlast
      | some u => nofun
  parents id' := (h.parents id').trans Frames.parent?_define
  places y := (h.places y).trans (place_writing hplace v y)
  rest := h.rest

/-- The blank name takes its value nowhere. -/
theorem Written.cons_blank (h : w.Written pairs m m') : w.Written ((blank, v) :: pairs) m m' := by
  have hlast : ∀ y, y ≠ blank → lastValue? y ((blank, v) :: pairs) = lastValue? y pairs :=
    fun y hy => by rw [lastValue?, if_neg (Ne.symm hy), Option.or_none]
  refine ⟨fun y u id hu hy => ?_, fun id y hy => ?_, h.parents, h.places, h.rest⟩
  · exact h.entered y u id (hlast y hy ▸ hu) hy
  · exact h.kept id y fun hne hblank => hy (hlast y hblank ▸ hne) hblank

/-- What has no pair keeps its entries. -/
theorem Written.kept_of_not_mem (h : w.Written (names.zip vs) m m') (hx : x ∉ names)
    (id : FrameId) : m'.frames.binding? id x = m.frames.binding? id x :=
  h.kept id x fun hlast => absurd (lastValue?_eq_none hx) hlast

/-- **Targets are written in order, up to the first that is refused.** -/
theorem eachPair_cases (w : Writing) (hlen : names.length = vs.length) (m : Machine) :
    (∃ m', eachPair w.write names vs m = .value () m' ∧ (∀ x ∈ names, w.refusal? m x = none) ∧
      w.Written (names.zip vs) m m') ∨
    ∃ before x after e m', names = before ++ x :: after ∧
      (∀ y ∈ before, w.refusal? m y = none) ∧ w.refusal? m x = some e ∧
      eachPair w.write names vs m = .exit (.of (e.cause x)) m' ∧
      w.Written (before.zip vs) m m' := by
  induction names generalizing vs m with
  | nil => exact .inl ⟨m, rfl, by simp, written_nil w m⟩
  | cons x names ih =>
    cases vs with
    | nil => cases hlen
    | cons v vs =>
      have hlen : names.length = vs.length := Nat.succ.inj hlen
      cases hrefused : w.refusal? m x with
      | some e =>
        obtain ⟨hx, hplace⟩ := place_of_refusal?_eq_some hrefused
        refine .inr ⟨[], x, names, e, m, rfl, by simp, hrefused, ?_, written_nil w m⟩
        simp only [eachPair, bind, Eval.bind, write_eq hx, hplace]
      | none =>
        -- What remains is written from the machine that the first target leaves.
        have hfirst : ∃ m₁, w.write x v m = .value () m₁ ∧
            (∀ y, w.refusal? m₁ y = w.refusal? m y) ∧
            ∀ {pairs m'}, w.Written pairs m₁ m' → w.Written ((x, v) :: pairs) m m' := by
          by_cases hx : x = blank
          · subst hx
            refine ⟨m, ?_, fun _ => rfl, Written.cons_blank⟩
            cases w <;> rfl
          · obtain ⟨id, hplace⟩ := place_of_refusal?_eq_none hx hrefused
            refine ⟨m.writing id x v, ?_, refusal?_writing hplace v, Written.cons hx hplace⟩
            rw [write_eq hx, hplace]
        obtain ⟨m₁, hrun, hsame, hwritten⟩ := hfirst
        have hpair : eachPair w.write (x :: names) (v :: vs) m = eachPair w.write names vs m₁ := by
          simp only [eachPair, bind, Eval.bind, hrun]
        rw [hpair]
        rcases ih hlen m₁ with ⟨m', hrest, hall, h⟩ |
          ⟨before, y, after, e, m', hnames, hall, hy, hrest, h⟩
        · refine .inl ⟨m', hrest, List.forall_mem_cons.mpr ⟨hrefused, fun y hy => ?_⟩, hwritten h⟩
          rw [← hsame, hall y hy]
        · refine .inr ⟨x :: before, y, after, e, m', by rw [hnames, List.cons_append],
            List.forall_mem_cons.mpr ⟨hrefused, fun z hz => ?_⟩, ?_, hrest, hwritten h⟩
          · rw [← hsame, hall z hz]
          · rw [← hsame, hy]

/-- If none is refused, all targets are written. -/
theorem exists_written (hlen : names.length = vs.length)
    (hnames : ∀ x ∈ names, w.refusal? m x = none) :
    ∃ m', eachPair w.write names vs m = .value () m' ∧ w.Written (names.zip vs) m m' := by
  rcases w.eachPair_cases hlen m with ⟨m', hrun, -, h⟩ |
    ⟨before, x, after, e, -, hsplit, -, hrefused, -⟩
  · exact ⟨m', hrun, h⟩
  · have hmem : x ∈ names := hsplit ▸ List.mem_append_right before (List.mem_cons_self ..)
    cases (hnames x hmem).symm.trans hrefused

end Written

/-! ### The whole statement -/

section Statement

variable {w : Writing} {n : Nat} {es : List Expr} {m m₁ : Machine} {vs : List Value}

/-- An effect that ends normally, as a statement. -/
theorem effect_of_value {x : Eval EvalError Unit} (h : x m = .value () m₁) (s : Span) :
    ((effect x.asStmt).mapExit (·.locate s)) m = .value .void m₁ := by
  simp only [effect, Eval.mapExit, Eval.handle, Eval.asStmt, bind, Eval.bind, h, pure, Eval.pure]

/-- An effect that fails for a cause is located at its statement. -/
theorem effect_of_exit {x : Eval EvalError Unit} {cause : Cause} (h : x m = .exit (.of cause) m₁)
    (s : Span) : ((effect x.asStmt).mapExit (·.locate s)) m =
      .exit (.failed ⟨cause, some s, none, []⟩) m₁ := by
  simp only [effect, Eval.mapExit, Eval.handle, Eval.asStmt, bind, Eval.bind, h]
  rfl

theorem stmtForm_stmt (w : Writing) (ev : Evaluator) (budget : Nat) (label : Option String)
    (s : Span) (names : List String) (es : List Expr) :
    ev.stmtForm budget label (w.stmt s names es) =
      effect (ev.rightSides names.length es >>= eachPair w.write names).asStmt := by
  cases w <;> rfl

/-- A statement whose right sides have values. -/
theorem stmt_of_values (h : (evaluator n).sides es m = .value vs m₁) (label : Option String)
    (s : Span) (names : List String) :
    (evaluator (n + 1)).stmt label (w.stmt s names es) m =
      if vs.length = names.length then
        ((effect (eachPair w.write names vs).asStmt).mapExit (·.locate s)) m₁
      else .exit (.failed ⟨.assignmentMismatch names.length vs.length, some s, none, []⟩) m₁ := by
  have hspan : (w.stmt s names es).span = s := by cases w <;> rfl
  simp only [evaluator, onOwnStack_eq, stmtForm_stmt, rightSides_eq, hspan, effect, Eval.mapExit,
    Eval.handle, Eval.asStmt, bind, Eval.bind, h]
  by_cases hlen : vs.length = names.length
  · simp only [if_pos hlen, pure, Eval.pure]
  · simp only [if_neg hlen]
    rfl

/-- A statement with a right side that fails. -/
theorem stmt_of_exit {e : EvalError} (h : (evaluator n).sides es m = .exit e m₁)
    (label : Option String) (s : Span) (names : List String) :
    (evaluator (n + 1)).stmt label (w.stmt s names es) m = .exit (.failed (e.locate s)) m₁ := by
  have hspan : (w.stmt s names es).span = s := by cases w <;> rfl
  simp only [evaluator, onOwnStack_eq, stmtForm_stmt, rightSides_eq, hspan, effect, Eval.mapExit,
    Eval.handle, Eval.asStmt, bind, Eval.bind, h, Eval.raise, Exit.locate]

theorem stmt_of_exhausted (h : (evaluator n).sides es m = .exhausted) (label : Option String)
    (s : Span) (names : List String) :
    (evaluator (n + 1)).stmt label (w.stmt s names es) m = .exhausted := by
  simp only [evaluator, onOwnStack_eq, stmtForm_stmt, rightSides_eq, effect, Eval.mapExit,
    Eval.handle, Eval.asStmt, bind, Eval.bind, h]

end Statement

end Writing

end ScriptEngine
