import Mathlib
import ScriptEngine.Proofs.Eval.Soundness
import ScriptEngine.Proofs.Lockstep.Simulation

/-!
What the limit on calls does to a run.

A run under a limit and a run under a larger one, or under none, go in lockstep on equal stores,
until a call would pass the smaller limit: `Lockstep.limited`. So the limit cuts runs off and does
nothing else. Where it does, the stack held as many calls as the limit allows, and the innermost of
them recorded these when the error left it (`CutAt`).

Main statement: `limit_only_cuts`.
-/

namespace ScriptEngine

/-! ### Limits -/

/-- The machine with another limit on its calls. -/
def Machine.withLimit (m : Machine) (limit : Option Nat) : Machine :=
  { m with calls := { m.calls with limit } }

namespace Run

/-- The run with another limit in the machine that it leaves behind. -/
def withLimit {ε α : Type} (limit : Option Nat) : Run ε α → Run ε α
  | .value a m => .value a (m.withLimit limit)
  | .exit e m => .exit e (m.withLimit limit)
  | .exhausted => .exhausted

/-- The run was cut off by the limit on calls. -/
def Overflows {α : Type} : Run EvalError α → Prop
  | .exit e _ => e.isOverflow = true
  | .value .. | .exhausted => False

end Run

/-- What an error that arises under the limit `limit` says of the calls: no more than `limit` are
recorded; and if the limit was reached, exactly that many are, or are still live. -/
structure CutAt (limit : Nat) (e : EvalError) (c : CallStack) : Prop where
  bounded : ∀ b, e.backtrace = some b → b.length ≤ limit
  cause : e.isOverflow = true → e.cause = .stackOverflow limit
  live : e.isOverflow = true → e.backtrace = none → c.depth = limit
  recorded : ∀ b, e.isOverflow = true → e.backtrace = some b → b.length = limit

namespace CutAt

variable {limit : Nat} {e : EvalError} {c : CallStack}

/-- An error that has just arisen: if it reports the limit, so many calls are live. -/
theorem of_cause {cause : Cause}
    (h : cause.isOverflow = true → cause = .stackOverflow limit ∧ c.depth = limit) :
    CutAt limit (.of cause) c where
  bounded _ hb := nomatch hb
  cause hover := (h hover).1
  live hover _ := (h hover).2
  recorded _ _ hb := nomatch hb

theorem locate (h : CutAt limit e c) (span : Span) : CutAt limit (e.locate span) c := by
  unfold EvalError.locate
  split
  · exact h
  · exact ⟨h.bounded, h.cause, h.live, h.recorded⟩

/-- The innermost call records the live calls. -/
theorem trace (h : CutAt limit e c) (hc : c.depth ≤ limit) :
    CutAt limit (e.trace c.capture) c.pop := by
  have hlength : c.capture.length = c.depth := Array.length_toList
  unfold EvalError.trace
  split
  · next b hb =>
    have hlive : e.isOverflow = true → e.backtrace = none → c.pop.depth = limit := by
      intro _ hnone
      rw [hb] at hnone
      cases hnone
    exact ⟨h.bounded, h.cause, hlive, h.recorded⟩
  · next hnone =>
    constructor
    · rintro b ⟨⟩
      rwa [hlength]
    · exact h.cause
    · exact fun _ hnone => nomatch hnone
    · rintro b hover ⟨⟩
      rw [hlength, h.live hover hnone]

end CutAt

/-- Whether the stack is full depends on its limit and its depth. -/
theorem CallStack.full?_eq_none_iff {c : CallStack} :
    c.full? = none ↔ ∀ max, c.limit = some max → c.depth < max := by
  unfold full?
  cases c.limit with
  | none => simp
  | some max => simp [Option.filter_some]

theorem CallStack.limit_of_full? {c : CallStack} {max : Nat} (h : c.full? = some max) :
    c.limit = some max ∧ max ≤ c.depth := by
  obtain ⟨hlimit, hle⟩ := Option.filter_eq_some_iff.mp h
  exact ⟨hlimit, by simpa using hle⟩

namespace Lockstep

/-- Two runs on one store that have the same live calls, under a limit that is met and one that is
no smaller. Only where the limits differ is the first run cut off alone. -/
def limited (fs : Frames) (limit : Nat) (larger : Option Nat)
    (hle : ∀ max, larger = some max → limit ≤ max) : Lockstep where
  before₁ := fs
  before₂ := fs
  Shared id := id.index < fs.size
  lt₁ h := h
  lt₂ h := h
  globals := Eq
  calls c₁ c₂ := c₁.limit = some limit ∧ c₂ = { c₁ with limit := larger } ∧ c₁.depth ≤ limit
  error := CutAt limit
  cuts := larger ≠ some limit
  frames_eq := by
    rintro c₁ _ ⟨_, rfl, _⟩
    rfl
  full := by
    rintro c₁ _ ⟨hlimit, rfl, _⟩
    by_cases heq : larger = some limit
    · rw [heq, ← hlimit]
      exact .inl rfl
    cases hfull : c₁.full? with
    | some max => exact .inr ⟨heq, by simp⟩
    | none =>
      have hlt := CallStack.full?_eq_none_iff.mp hfull limit hlimit
      exact .inl (CallStack.full?_eq_none_iff.mpr fun max hmax =>
        Nat.lt_of_lt_of_le hlt (hle max hmax))
  enter := by
    rintro c₁ _ frame ⟨hlimit, rfl, _⟩ hfull
    have hlt := CallStack.full?_eq_none_iff.mp hfull limit hlimit
    refine ⟨hlimit, rfl, ?_⟩
    rw [CallStack.depth, CallStack.enter, Array.size_push]
    exact hlt
  pop := by
    rintro c₁ _ ⟨hlimit, rfl, hdepth⟩
    refine ⟨hlimit, rfl, ?_⟩
    rw [CallStack.depth, CallStack.pop, Array.size_pop]
    exact Nat.le_trans (Nat.sub_le ..) hdepth
  ordinary := by
    intro cause c hcause
    apply CutAt.of_cause
    rw [hcause]
    exact fun hover => nomatch hover
  overflow := by
    rintro c₁ _ max ⟨hlimit, rfl, hdepth⟩ hfull
    obtain ⟨hmax, hle'⟩ := CallStack.limit_of_full? hfull
    obtain rfl : max = limit := Option.some.inj (hmax.symm.trans hlimit)
    exact CutAt.of_cause fun _ => ⟨rfl, Nat.le_antisymm hdepth hle'⟩
  locate := fun span h => h.locate span
  trace := by
    rintro e c₁ _ ⟨_, _, hdepth⟩ h
    exact h.trace hdepth

section Limited

variable {fs : Frames} {limit : Nat} {larger : Option Nat}
  {hle : ∀ max, larger = some max → limit ≤ max}

theorem seen_limited (id : FrameId) : (limited fs limit larger hle).Seen id :=
  Nat.lt_or_ge id.index fs.size

@[simp]
theorem handle_limited : (limited fs limit larger hle).handle = id := by
  funext frame
  by_cases hlt : frame.index < fs.size
  · exact if_pos hlt
  · have hindex : fs.size + (frame.index - fs.size) = frame.index := by
      have hsize := Nat.le_of_not_lt hlt
      omega
    exact (if_neg hlt).trans (congrArg FrameId.mk hindex)

theorem eq_of_same {v₁ v₂ : Value} (h : (limited fs limit larger hle).Same v₁ v₂) : v₂ = v₁ := by
  rw [h.2, handle_limited]
  exact Value.relocate_eq_self fun _ _ => rfl

theorem frames_eq_of_matches {fs₁ fs₂ : Frames}
    (h : (limited fs limit larger hle).Matches fs₁ fs₂) : fs₂ = fs₁ := by
  have hget : ∀ frame, fs₂.get? frame = fs₁.get? frame := by
    intro frame
    have hframe := h.get? (seen_limited frame)
    rw [handle_limited, id] at hframe
    rw [hframe]
    cases fs₁.get? frame with
    | none => rfl
    | some f => exact congrArg some (Frame.relocate_eq_self fun _ _ => rfl)
  have hframes : fs₂.frames = fs₁.frames := Array.ext_getElem? fun i => hget ⟨i⟩
  cases fs₁
  cases fs₂
  cases hframes
  rfl

/-- Machines in step differ in the limit alone. -/
theorem eq_withLimit_of_inStep {m₁ m₂ : Machine} (h : (limited fs limit larger hle).InStep m₁ m₂) :
    m₂ = m₁.withLimit larger := by
  obtain ⟨frames₁, types₁, ⟨current₁, outer₁, global₁⟩, functions₁, calls₁, iota₁⟩ := m₁
  obtain ⟨frames₂, types₂, ⟨current₂, outer₂, global₂⟩, functions₂, calls₂, iota₂⟩ := m₂
  have hcurrent := h.current_eq
  have houter := h.outer_eq
  rw [handle_limited] at hcurrent houter
  rw [List.map_id] at houter
  cases frames_eq_of_matches h.frames
  cases h.types
  cases h.functions
  cases h.globals
  cases h.calls.2.1
  cases hcurrent
  cases houter
  cases h.iota
  rfl

/-- One store in place of both, and nothing run so far. -/
theorem matches_refl (fs : Frames) (limit : Nat) (larger : Option Nat)
    (hle : ∀ max, larger = some max → limit ≤ max) :
    (limited fs limit larger hle).Matches fs fs where
  grown := Nat.le_refl _
  size := by simp [limited]
  get? {frame} _ := by
    rw [handle_limited, id]
    cases fs.get? frame with
    | none => rfl
    | some f => exact congrArg some (Frame.relocate_eq_self fun _ _ => rfl).symm
  within _ _ := fun frame _ => seen_limited frame
  unseen₁ _ _ := rfl
  unseen₂ _ _ := rfl

theorem inStep_withLimit {m : Machine} (hm : m.calls.depth ≤ limit)
    (hle : ∀ max, larger = some max → limit ≤ max) :
    (limited m.frames limit larger hle).InStep (m.withLimit (some limit)) (m.withLimit larger) where
  frames := matches_refl m.frames limit larger hle
  types := rfl
  functions := rfl
  code {_ f} _ := ⟨seen_limited f.scope, by rw [handle_limited, id]⟩
  globals := rfl
  calls := ⟨rfl, rfl, hm⟩
  current := seen_limited _
  current_eq := by rw [handle_limited]; rfl
  outer id _ := seen_limited id
  outer_eq := by rw [handle_limited, List.map_id]; rfl
  iota := rfl

end Limited

end Lockstep

/-! ### Live calls -/

/-- The evaluator `ev`, for which `other` stands in wherever more than `depth` calls are live. -/
def Evaluator.upTo (ev : Evaluator) (depth : Nat) (other : Evaluator) : Evaluator where
  stmt label s m := if m.calls.depth ≤ depth then ev.stmt label s m else other.stmt label s m
  expr e m := if m.calls.depth ≤ depth then ev.expr e m else other.expr e m

/-- Under the limit, nothing is evaluated with more live calls. -/
theorem Lockstep.Mirrors.upTo {fs : Frames} {limit : Nat} {larger : Option Nat}
    {hle : ∀ max, larger = some max → limit ≤ max} {ev₁ ev₂ : Evaluator}
    (h : (limited fs limit larger hle).Mirrors ev₁ ev₂) (other : Evaluator) :
    (limited fs limit larger hle).Mirrors ev₁ (ev₂.upTo limit other) where
  expr e m₁ m₂ hm := by
    obtain ⟨_, hcalls, hdepth⟩ := hm.calls
    have hdepth' : m₂.calls.depth ≤ limit := hcalls ▸ hdepth
    simp only [Evaluator.upTo, if_pos hdepth']
    exact h.expr e hm
  stmt label s m₁ m₂ hm := by
    obtain ⟨_, hcalls, hdepth⟩ := hm.calls
    have hdepth' : m₂.calls.depth ≤ limit := hcalls ▸ hdepth
    simp only [Evaluator.upTo, if_pos hdepth']
    exact h.stmt label s hm

/-! ### Programs -/

/-- A program run on a machine under a limit on its calls. -/
def runUnder (limit : Option Nat) (budget : Nat) (program : List Stmt) (m : Machine) :
    Run EvalError Value :=
  runProgram budget program (m.withLimit limit)

section Programs

variable {budget limit : Nat} {larger : Option Nat} {program : List Stmt} {m : Machine}

/-- A run under a limit goes in lockstep with a run under a larger one, also on another evaluator
that mirrors the program's. -/
theorem together_runFrom (program : List Stmt) (hm : m.calls.depth ≤ limit)
    (hle : ∀ max, larger = some max → limit ≤ max) {ev : Evaluator}
    (hev : (Lockstep.limited m.frames limit larger hle).Mirrors (evaluator budget) ev) :
    (runUnder (some limit) budget program m).Together
      (Lockstep.limited m.frames limit larger hle).InStep
      (Lockstep.limited m.frames limit larger hle).Same
      (Lockstep.limited m.frames limit larger hle).errors
      (ev.runFrom .void program (m.withLimit larger)) := by
  rw [runUnder, runProgram, runProgramFrom_eq]
  exact hev.runFrom (Lockstep.same_of_isPlain rfl) program (Lockstep.inStep_withLimit hm hle)

/-- A run that the limit does not cut off is the run under every larger limit. -/
theorem runUnder_eq_of_not_overflows (hm : m.calls.depth ≤ limit)
    (hle : ∀ max, larger = some max → limit ≤ max)
    (hrun : ¬ (runUnder (some limit) budget program m).Overflows) :
    runUnder larger budget program m =
      (runUnder (some limit) budget program m).withLimit larger := by
  have h := together_runFrom program hm hle (Lockstep.mirrors_self _ budget)
  rw [← runProgramFrom_eq] at h
  change Run.Together _ _ _ _ (runUnder larger budget program m) at h
  generalize runUnder (some limit) budget program m = run₁,
    runUnder larger budget program m = run₂ at h hrun
  cases h with
  | value hv hm' =>
    rw [Lockstep.eq_of_same hv, Lockstep.eq_withLimit_of_inStep hm']
    rfl
  | exit he hm' =>
    rw [he.1, Lockstep.eq_withLimit_of_inStep hm']
    rfl
  | exhausted => rfl
  | cut hcut => exact (hrun hcut.2.1).elim

theorem limit_le_self : ∀ max, some limit = some max → limit ≤ max :=
  fun _ h => Nat.le_of_eq (Option.some.inj h)

/-- Under one limit, nothing but the machine itself is in step with it. -/
theorem eq_of_inStep_self {fs : Frames} {m₁ m₂ : Machine}
    (h : (Lockstep.limited fs limit (some limit) limit_le_self).InStep m₁ m₂) : m₂ = m₁ := by
  have hlimit : some limit = m₁.calls.limit := h.calls.1.symm
  rw [Lockstep.eq_withLimit_of_inStep h, hlimit]
  rfl

/-- Under the limit, what would happen with more live calls makes no difference. -/
theorem runUnder_upTo (hm : m.calls.depth ≤ limit) (other : Evaluator) :
    (evaluatorVia (·.upTo limit other) budget).runFrom .void program (m.withLimit (some limit)) =
      runUnder (some limit) budget program m := by
  have h := together_runFrom program hm limit_le_self
    (Lockstep.mirrors _ (fun hmirrors => hmirrors.upTo other) budget)
  generalize runUnder (some limit) budget program m = run₁,
    (evaluatorVia (·.upTo limit other) budget).runFrom .void program
      (m.withLimit (some limit)) = run₂ at h
  cases h with
  | value hv hm' => rw [Lockstep.eq_of_same hv, eq_of_inStep_self hm']
  | exit he hm' => rw [he.1, eq_of_inStep_self hm']
  | exhausted => rfl
  | cut hcut => exact (hcut.1 rfl).elim

/-- What an error of a run under a limit says of the calls. -/
theorem cutAt_of_runUnder (hm : m.calls.depth ≤ limit) {e : EvalError} {m' : Machine}
    (hrun : runUnder (some limit) budget program m = .exit e m') : CutAt limit e m'.calls := by
  have h := together_runFrom program hm limit_le_self (Lockstep.mirrors_self _ budget)
  rw [hrun] at h
  generalize (evaluator budget).runFrom .void program (m.withLimit (some limit)) = run₂ at h
  cases h with
  | exit he _ => exact he.2
  | cut hcut => exact (hcut.1 rfl).elim

theorem calls_of_runUnder {e : EvalError} {m' : Machine}
    (hrun : runUnder (some limit) budget program m = .exit e m') :
    m'.calls = (m.withLimit (some limit)).calls := by
  have hobeys : ∀ s ∈ program, s.Obeys Policy.any.body := fun _ _ _ _ => trivial
  have hends := Policy.any.keeps_runProgram budget hobeys _
    (Policy.holds_any (m.withLimit (some limit)))
  exact congrArg Machine.Context.calls (hends.of_exit hrun).1.context_eq

/-- **A limit on calls only ever cuts a run off.** For a program that is run without live calls, and
for every limit that is no smaller:

- unless the limit is reported, the run under the larger limit ends in the same way, and leaves the
  same machine but for the limit;
- an error records at most as many calls as the limit allows; if it reports the limit, it names it
  and, unless no call is allowed at all, records exactly so many;
- nothing is evaluated with more live calls than the limit allows, so an evaluator that does
  otherwise there makes no difference. -/
theorem limit_only_cuts (budget : Nat) (program : List Stmt) {m : Machine}
    (hm : m.calls.isEmpty = true) {limit : Nat} {larger : Option Nat}
    (hle : ∀ max, larger = some max → limit ≤ max) :
    (¬ (runUnder (some limit) budget program m).Overflows →
        runUnder larger budget program m =
          (runUnder (some limit) budget program m).withLimit larger) ∧
      (∀ e m', runUnder (some limit) budget program m = .exit e m' →
        (∀ b, e.backtrace = some b → b.length ≤ limit) ∧
          (e.isOverflow = true → e.cause = .stackOverflow limit ∧
            (1 ≤ limit → ∃ b, e.backtrace = some b ∧ b.length = limit))) ∧
      ∀ other, (evaluatorVia (·.upTo limit other) budget).runFrom .void program
        (m.withLimit (some limit)) = runUnder (some limit) budget program m := by
  have hdepth : m.calls.depth = 0 := by
    rw [CallStack.isEmpty, Array.isEmpty_iff] at hm
    rw [CallStack.depth, hm]
    rfl
  have hbelow : m.calls.depth ≤ limit := hdepth ▸ Nat.zero_le limit
  refine ⟨runUnder_eq_of_not_overflows hbelow hle, fun e m' hrun => ?_, runUnder_upTo hbelow⟩
  have hcut := cutAt_of_runUnder hbelow hrun
  refine ⟨hcut.bounded, fun hover => ⟨hcut.cause hover, fun hpos => ?_⟩⟩
  cases hb : e.backtrace with
  | some b => exact ⟨b, rfl, hcut.recorded b hover hb⟩
  | none =>
    -- Outside of every call nothing is recorded, but there the limit allows no call.
    have hlive := hcut.live hover hb
    rw [calls_of_runUnder hrun] at hlive
    have hzero : m.calls.depth = limit := hlive
    omega

end Programs

/-! ### A recursion of three calls -/

/-- `n := 2; f := func() { if n > 0 { n--; f() } }; f()`. -/
def countdown : List Stmt := [
  .define default ["n"] [.int default 2],
  .define default ["f"] [.func default [] (.branch default none
    (.binary default .gt (.ident default "n") (.int default 0))
    (.block default [.incDec default "n" false,
      .expr default (.call default (.ident default "f") [])])
    none)],
  .expr default (.call default (.ident default "f") [])]

/-- A machine on which nothing has run. -/
def Machine.fresh : Machine :=
  let (env, frames) := Environment.create .empty
  ⟨frames, .empty, env, .empty, .empty none, none⟩

/-- Three live calls suffice for the run. With two of them it is cut off, and records both. -/
theorem limit_only_cuts_countdown :
    (∃ m', runUnder (some 3) 20 countdown .fresh = .value .void m') ∧
      runUnder none 20 countdown .fresh =
        (runUnder (some 3) 20 countdown .fresh).withLimit none ∧
      ∃ e m' b, runUnder (some 2) 20 countdown .fresh = .exit e m' ∧
        e.cause = .stackOverflow 2 ∧ e.backtrace = some b ∧ b.length = 2 := by
  have hunlimited : ∀ limit max : Nat, (none : Option Nat) = some max → limit ≤ max :=
    fun _ _ h => nomatch h
  have hvalue : ∃ m', runUnder (some 3) 20 countdown .fresh = .value .void m' := ⟨_, by cbv⟩
  have hexit : ∃ e m', runUnder (some 2) 20 countdown .fresh = .exit e m' ∧
      e.isOverflow = true := ⟨_, _, by cbv, by decide⟩
  refine ⟨hvalue, ?_, ?_⟩
  · apply (limit_only_cuts 20 countdown (by decide) (hunlimited 3)).1
    obtain ⟨m', hvalue⟩ := hvalue
    rw [hvalue]
    exact id
  · obtain ⟨e, m', hexit, hover⟩ := hexit
    obtain ⟨hcause, hrecorded⟩ :=
      ((limit_only_cuts 20 countdown (by decide) (hunlimited 2)).2.1 e m' hexit).2 hover
    obtain ⟨b, hb, hlength⟩ := hrecorded (by decide)
    exact ⟨e, m', b, hexit, hcause, hb, hlength⟩

end ScriptEngine
