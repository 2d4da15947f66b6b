import ScriptEngine.Proofs.Eval.Causes
import ScriptEngine.Proofs.Lockstep.Correspondence

/-!
Two runs in lockstep.

A `Lockstep` is a correspondence of stores together with what may differ in the live calls of the
two runs. Machines are in step (`Lockstep.InStep`) if they agree on the frames that are seen, on the
universe and on the code of callables, and stand at corresponding places. Two runs end together
(`Run.Together`) if both end with corresponding values or exits in machines that are in step again,
or both run out of budget; only the limit on calls may cut the first one off.

`L.Syncs x₁ x₂ V E` says that from machines in step the computations end together. There is one rule
for each way to put a computation together, and the last rules are those of the elementary
computations.
-/

namespace ScriptEngine

/-- An error that reports the limit on calls. -/
def EvalError.isOverflow (e : EvalError) : Bool :=
  e.cause.isOverflow

/-- A correspondence of stores, and what may differ in the live calls of two runs. -/
structure Lockstep extends Correspondence where
  /-- How the package frames of the environments of the runs correspond. -/
  globals : FrameId → FrameId → Prop
  /-- How the live calls of the runs correspond. -/
  calls : CallStack → CallStack → Prop
  /-- What is known of an error that the first run meets under the given live calls. -/
  error : EvalError → CallStack → Prop
  /-- Whether the limit may cut off the first run while the second goes on. -/
  cuts : Prop
  frames_eq : ∀ {c₁ c₂}, calls c₁ c₂ → c₂.frames = c₁.frames
  full : ∀ {c₁ c₂}, calls c₁ c₂ → c₂.full? = c₁.full? ∨ cuts ∧ c₁.full? ≠ none
  enter : ∀ {c₁ c₂} frame, calls c₁ c₂ → c₁.full? = none → calls (c₁.enter frame) (c₂.enter frame)
  pop : ∀ {c₁ c₂}, calls c₁ c₂ → calls c₁.pop c₂.pop
  ordinary : ∀ {cause c}, cause.isOverflow = false → error (.of cause) c
  overflow : ∀ {c₁ c₂ max}, calls c₁ c₂ → c₁.full? = some max → error (.of (.stackOverflow max)) c₁
  locate : ∀ {e c} span, error e c → error (e.locate span) c
  trace : ∀ {e c₁ c₂}, calls c₁ c₂ → error e c₁ → error (e.trace c₁.capture) c₁.pop

/-- How the exits of two runs correspond. -/
structure ExitPairs (ε : Type) where
  /-- The exits that both runs take together, the first one under the given live calls. -/
  alike : ε → CallStack → ε → Prop
  /-- The exits of the first run that say nothing of the second one. -/
  cut : ε → CallStack → Prop

/-- Both runs end in the same way, in machines that `R` relates, or the first one was cut off. -/
inductive Run.Together {ε α : Type} (R : Machine → Machine → Prop) (V : α → α → Prop)
    (E : ExitPairs ε) : Run ε α → Run ε α → Prop where
  | value {a₁ a₂ m₁ m₂} : V a₁ a₂ → R m₁ m₂ → Together R V E (.value a₁ m₁) (.value a₂ m₂)
  | exit {e₁ e₂ m₁ m₂} : E.alike e₁ m₁.calls e₂ → R m₁ m₂ →
      Together R V E (.exit e₁ m₁) (.exit e₂ m₂)
  | exhausted : Together R V E .exhausted .exhausted
  | cut {e₁ m₁ r₂} : E.cut e₁ m₁.calls → Together R V E (.exit e₁ m₁) r₂

theorem Run.Together.mono {ε α : Type} {R R' : Machine → Machine → Prop} {V : α → α → Prop}
    {E : ExitPairs ε} {r₁ r₂ : Run ε α} (h : r₁.Together R V E r₂)
    (hR : ∀ {m₁ m₂}, R m₁ m₂ → R' m₁ m₂) : r₁.Together R' V E r₂ := by
  cases h with
  | value ha hm => exact .value ha (hR hm)
  | exit he hm => exact .exit he (hR hm)
  | exhausted => exact .exhausted
  | cut hcut => exact .cut hcut

/-- The exit with the results that it carries relocated. -/
def Exit.relocate (ρ : FrameId → FrameId) : Exit → Exit
  | .result vs => .result (vs.map (Value.relocate ρ))
  | x => x

namespace Lockstep

section Definitions

variable (L : Lockstep)

/-- Both runs have the value, as each sees it. -/
def Same (v₁ v₂ : Value) : Prop :=
  v₁.Within L.Seen ∧ v₂ = v₁.relocate L.handle

/-- Both runs have the values, as each sees them. -/
def SameAll (vs₁ vs₂ : List Value) : Prop :=
  (∀ v ∈ vs₁, v.Within L.Seen) ∧ vs₂ = vs₁.map (Value.relocate L.handle)

/-- The machines agree wherever they stand. -/
structure Alike (m₁ m₂ : Machine) : Prop where
  frames : L.Matches m₁.frames m₂.frames
  types : m₂.types = m₁.types
  functions : m₂.functions = m₁.functions
  code : ∀ {id f}, m₁.functions.find? id = some f → L.Seen f.scope ∧ L.handle f.scope = f.scope
  globals : L.globals m₁.env.global m₂.env.global
  calls : L.calls m₁.calls m₂.calls

/-- The machines agree and stand at corresponding places. -/
structure InStep (m₁ m₂ : Machine) : Prop extends Alike L m₁ m₂ where
  current : L.Seen m₁.env.current
  current_eq : m₂.env.current = L.handle m₁.env.current
  outer : ∀ id ∈ m₁.env.outer, L.Seen id
  outer_eq : m₂.env.outer = m₁.env.outer.map L.handle
  iota : m₂.iota = m₁.iota

/-- Both runs meet the same error; the limit on calls may be met by the first one alone. -/
def errors : ExitPairs EvalError where
  alike e₁ c e₂ := e₂ = e₁ ∧ L.error e₁ c
  cut e c := L.cuts ∧ e.isOverflow = true ∧ L.error e c ∧ ∃ c', L.calls c c'

/-- What is known of an exit that the first run takes under the given live calls. -/
def Sound (c : CallStack) : Exit → Prop
  | .failed e => L.error e c
  | .result vs => ∀ v ∈ vs, v.Within L.Seen
  | .leaveLoop _ | .nextRound _ => True

/-- Both runs make the same jump or meet the same error. -/
def exits : ExitPairs Exit where
  alike x₁ c x₂ := x₂ = x₁.relocate L.handle ∧ L.Sound c x₁
  cut x c := ∃ e, x = .failed e ∧ L.errors.cut e c

/-- From machines that are in step, the computations end together. -/
def Syncs {ε α : Type} (x₁ x₂ : Eval ε α) (V : α → α → Prop) (E : ExitPairs ε) : Prop :=
  ∀ ⦃m₁ m₂⦄, L.InStep m₁ m₂ → Run.Together L.InStep V E (x₁ m₁) (x₂ m₂)

end Definitions

variable {L : Lockstep} {ε ε' α β : Type} {V : α → α → Prop} {E : ExitPairs ε}

/-! ### Values and exits -/

theorem same_of_isPlain {v : Value} (h : v.isPlain = true) : L.Same v v :=
  ⟨Value.within_of_isPlain h, (Value.relocate_of_isPlain h).symm⟩

theorem sameAll_nil : L.SameAll [] [] :=
  ⟨by simp, rfl⟩

theorem SameAll.cons {v₁ v₂ : Value} {vs₁ vs₂ : List Value} (h : L.Same v₁ v₂)
    (hs : L.SameAll vs₁ vs₂) : L.SameAll (v₁ :: vs₁) (v₂ :: vs₂) :=
  ⟨List.forall_mem_cons.mpr ⟨h.1, hs.1⟩, by rw [h.2, hs.2, List.map_cons]⟩

theorem SameAll.length_eq {vs₁ vs₂ : List Value} (h : L.SameAll vs₁ vs₂) :
    vs₂.length = vs₁.length := by
  rw [h.2, List.length_map]

theorem Same.results {v₁ v₂ : Value} (h : L.Same v₁ v₂) : L.SameAll v₁.results v₂.results :=
  ⟨Value.within_results h.1, by rw [h.2, Value.results_relocate]⟩

theorem Same.spread {v₁ v₂ : Value} (h : L.Same v₁ v₂) : L.SameAll v₁.spread v₂.spread :=
  ⟨Value.within_spread h.1, by rw [h.2, Value.spread_relocate]⟩

theorem SameAll.ofResults {vs₁ vs₂ : List Value} (h : L.SameAll vs₁ vs₂) :
    L.Same (.ofResults vs₁) (.ofResults vs₂) :=
  ⟨Value.within_ofResults h.1, by rw [h.2, Value.relocate_ofResults]⟩

theorem error_locate {e : EvalError} {span : Span} :
    (e.locate span).isOverflow = e.isOverflow := by
  unfold EvalError.locate
  split <;> rfl

theorem errors_locate_alike {e₁ e₂ : EvalError} {c : CallStack} (span : Span)
    (h : L.errors.alike e₁ c e₂) : L.errors.alike (e₁.locate span) c (e₂.locate span) :=
  ⟨congrArg (·.locate span) h.1, L.locate span h.2⟩

theorem errors_locate_cut {e : EvalError} {c : CallStack} (span : Span) (h : L.errors.cut e c) :
    L.errors.cut (e.locate span) c :=
  ⟨h.1, error_locate.trans h.2.1, L.locate span h.2.2.1, h.2.2.2⟩

theorem exits_locate_alike {x₁ x₂ : Exit} {c : CallStack} (span : Span)
    (h : L.exits.alike x₁ c x₂) : L.exits.alike (x₁.locate span) c (x₂.locate span) := by
  obtain ⟨rfl, hsound⟩ := h
  cases x₁ with
  | failed e => exact ⟨rfl, L.locate span hsound⟩
  | leaveLoop | nextRound | result => exact ⟨rfl, hsound⟩

theorem exits_locate_cut {x : Exit} {c : CallStack} (span : Span) (h : L.exits.cut x c) :
    L.exits.cut (x.locate span) c := by
  obtain ⟨e, rfl, hcut⟩ := h
  exact ⟨e.locate span, rfl, errors_locate_cut span hcut⟩

/-! ### Machines in step -/

namespace InStep

variable {m₁ m₂ : Machine}

theorem opened (h : L.InStep m₁ m₂) : L.InStep m₁.opened m₂.opened where
  frames := by
    have hframes := h.frames.grow h.current
    rw [← h.current_eq] at hframes
    exact hframes
  types := h.types
  functions := h.functions
  code := h.code
  globals := h.globals
  calls := h.calls
  current := h.frames.seen_next
  current_eq := h.frames.handle_next.symm
  outer := List.forall_mem_cons.mpr ⟨h.current, h.outer⟩
  outer_eq := by
    change m₂.env.current :: m₂.env.outer = (m₁.env.current :: m₁.env.outer).map L.handle
    rw [h.current_eq, h.outer_eq, List.map_cons]
  iota := h.iota

theorem closed (h : L.InStep m₁ m₂) : L.InStep m₁.closed m₂.closed := by
  have houter := h.outer
  have houter_eq := h.outer_eq
  unfold Machine.closed Environment.pop
  cases hm : m₁.env.outer with
  | nil =>
    rw [hm, List.map_nil] at houter_eq
    rw [houter_eq]
    exact ⟨h.toAlike, h.current, h.current_eq, by simp [hm], by simp [hm, houter_eq], h.iota⟩
  | cons frame rest =>
    rw [hm] at houter houter_eq
    rw [houter_eq, List.map_cons]
    exact { h with
      current := houter frame (List.mem_cons_self ..)
      current_eq := rfl
      outer := fun id hid => houter id (List.mem_cons_of_mem _ hid)
      outer_eq := rfl }

theorem withFrames (h : L.InStep m₁ m₂) {fs₁ fs₂ : Frames} (hfs : L.Matches fs₁ fs₂) :
    L.InStep { m₁ with frames := fs₁ } { m₂ with frames := fs₂ } :=
  { h with frames := hfs }

theorem withTypes (h : L.InStep m₁ m₂) (u : Universe) :
    L.InStep { m₁ with types := u } { m₂ with types := u } :=
  { h with types := rfl }

theorem withIota (h : L.InStep m₁ m₂) (iota : Option Int64) :
    L.InStep { m₁ with iota } { m₂ with iota } :=
  { h with iota := rfl }

end InStep

/-! ### Rules -/

theorem syncs_pure {a₁ a₂ : α} (h : V a₁ a₂) : L.Syncs (pure a₁) (pure a₂) V E :=
  fun _ _ hm => .value h hm

theorem syncs_exhausted : L.Syncs (Eval.exhausted : Eval ε α) Eval.exhausted V E :=
  fun _ _ _ => .exhausted

theorem syncs_raise {e₁ e₂ : ε} (h : ∀ c, E.alike e₁ c e₂) :
    L.Syncs (Eval.raise e₁) (Eval.raise e₂) V E :=
  fun _ _ hm => .exit (h _) hm

theorem syncs_fail {c : Cause} (hc : c.isOverflow = false) :
    L.Syncs (Eval.fail c) (Eval.fail c) V L.errors :=
  syncs_raise fun _ => ⟨rfl, L.ordinary hc⟩

theorem syncs_asks {f₁ f₂ : Machine → α} (h : ∀ {m₁ m₂}, L.InStep m₁ m₂ → V (f₁ m₁) (f₂ m₂)) :
    L.Syncs (Eval.asks f₁) (Eval.asks f₂) V E :=
  fun _ _ hm => .value (h hm) hm

theorem syncs_update {f₁ f₂ : Machine → Machine}
    (h : ∀ {m₁ m₂}, L.InStep m₁ m₂ → L.InStep (f₁ m₁) (f₂ m₂)) :
    L.Syncs (Eval.update f₁) (Eval.update f₂) (fun _ _ => True) E :=
  fun _ _ hm => .value trivial (h hm)

/-- Results that agree, of operations that fail with causes of their own. -/
theorem syncs_ofExcept {r₁ r₂ : Except Cause α} (hok : ∀ a, r₁ = .ok a → ∃ b, r₂ = .ok b ∧ V a b)
    (herror : ∀ c, r₁ = .error c → r₂ = .error c ∧ c.isLocal = true) :
    L.Syncs (Eval.ofExcept r₁) (Eval.ofExcept r₂) V L.errors := by
  cases r₁ with
  | ok a =>
    obtain ⟨b, rfl, hb⟩ := hok a rfl
    exact syncs_pure hb
  | error c =>
    obtain ⟨rfl, hc⟩ := herror c rfl
    exact syncs_fail (Cause.isOverflow_of_isLocal hc)

theorem Syncs.bind {x₁ x₂ : Eval ε β} {U : β → β → Prop} (hx : L.Syncs x₁ x₂ U E)
    {f₁ f₂ : β → Eval ε α} (hf : ∀ b₁ b₂, U b₁ b₂ → L.Syncs (f₁ b₁) (f₂ b₂) V E) :
    L.Syncs (x₁ >>= f₁) (x₂ >>= f₂) V E := by
  intro m₁ m₂ hm
  have h := hx hm
  change Run.Together _ _ _ (Eval.bind x₁ f₁ m₁) (Eval.bind x₂ f₂ m₂)
  unfold Eval.bind
  generalize x₁ m₁ = r₁, x₂ m₂ = r₂ at h
  cases h with
  | value hb hm' => exact hf _ _ hb hm'
  | exit he hm' => exact .exit he hm'
  | exhausted => exact .exhausted
  | cut hcut => exact .cut hcut

/-- Handlers that agree on the exits they are given; an exit that cuts off the first run passes. -/
theorem Syncs.handle {x₁ x₂ : Eval ε' α} {E' : ExitPairs ε'} (hx : L.Syncs x₁ x₂ V E')
    {h₁ h₂ : ε' → Eval ε α}
    (halike : ∀ {e₁ e₂ m₁ m₂}, L.InStep m₁ m₂ → E'.alike e₁ m₁.calls e₂ →
      Run.Together L.InStep V E (h₁ e₁ m₁) (h₂ e₂ m₂))
    (hcut : ∀ {e c}, E'.cut e c → ∃ e', h₁ e = Eval.raise e' ∧ E.cut e' c) :
    L.Syncs (x₁.handle h₁) (x₂.handle h₂) V E := by
  intro m₁ m₂ hm
  have h := hx hm
  unfold Eval.handle
  generalize x₁ m₁ = r₁, x₂ m₂ = r₂ at h
  cases h with
  | value ha hm' => exact .value ha hm'
  | exit he hm' => exact halike hm' he
  | exhausted => exact .exhausted
  | cut hc =>
    obtain ⟨e', he', hc'⟩ := hcut hc
    dsimp only
    rw [he']
    exact .cut hc'

theorem Syncs.mapExit {x₁ x₂ : Eval ε' α} {E' : ExitPairs ε'} (hx : L.Syncs x₁ x₂ V E')
    {f : ε' → ε} (halike : ∀ {e₁ e₂ c}, E'.alike e₁ c e₂ → E.alike (f e₁) c (f e₂))
    (hcut : ∀ {e c}, E'.cut e c → E.cut (f e) c) : L.Syncs (x₁.mapExit f) (x₂.mapExit f) V E :=
  hx.handle (fun hm he => .exit (halike he) hm) fun hc => ⟨_, rfl, hcut hc⟩

theorem Syncs.asStmt {x₁ x₂ : Eval EvalError α} (hx : L.Syncs x₁ x₂ V L.errors) :
    L.Syncs x₁.asStmt x₂.asStmt V L.exits :=
  hx.mapExit (fun h => ⟨congrArg Exit.failed h.1, h.2⟩) fun h => ⟨_, rfl, h⟩

/-- A handler that ends jumps or passes them on, and passes on everything else. -/
theorem Syncs.jumps {x₁ x₂ : Eval Exit α} (hx : L.Syncs x₁ x₂ V L.exits) {h : Exit → Eval Exit α}
    (hfailed : ∀ e, h (.failed e) = Eval.raise (.failed e))
    (hresult : ∀ vs, h (.result vs) = Eval.raise (.result vs))
    (hjump : ∀ x, (∃ a, V a a ∧ h x = pure a) ∨ h x = Eval.raise x) :
    L.Syncs (x₁.handle h) (x₂.handle h) V L.exits := by
  apply hx.handle
  · rintro x _ m₁ m₂ hm ⟨rfl, hsound⟩
    cases x with
    | failed e =>
      rw [Exit.relocate, hfailed]
      · exact .exit ⟨rfl, hsound⟩ hm
      · exact fun vs hvs => nomatch hvs
    | result vs =>
      rw [Exit.relocate, hresult, hresult]
      exact .exit ⟨rfl, hsound⟩ hm
    | leaveLoop label | nextRound label =>
      rw [Exit.relocate]
      · rcases hjump _ with ⟨a, ha, htaken⟩ | hpassed
        · rw [htaken]
          exact .value ha hm
        · rw [hpassed]
          exact .exit ⟨rfl, hsound⟩ hm
      · exact fun vs hvs => nomatch hvs
  · rintro _ c ⟨e, rfl, hcut⟩
    exact ⟨.failed e, hfailed e, e, rfl, hcut⟩

theorem Syncs.leaving {x₁ x₂ : Eval ε α} {f₁ f₂ : Machine → Machine} {m₁ m₂ : Machine}
    (hx : Run.Together L.InStep V E (x₁ m₁) (x₂ m₂))
    (hcalls : ∀ m, (f₁ m).calls = m.calls)
    (hf : ∀ {m₁ m₂}, L.InStep m₁ m₂ → L.InStep (f₁ m₁) (f₂ m₂)) :
    Run.Together L.InStep V E (x₁.leaving f₁ m₁) (x₂.leaving f₂ m₂) := by
  unfold Eval.leaving
  generalize x₁ m₁ = r₁, x₂ m₂ = r₂ at hx
  cases hx with
  | value ha hm => exact .value ha (hf hm)
  | exit he hm => exact .exit ((hcalls _).symm ▸ he) (hf hm)
  | exhausted => exact .exhausted
  | cut hc => exact .cut ((hcalls _).symm ▸ hc)

theorem Syncs.inFrame {x₁ x₂ : Eval ε α} (hx : L.Syncs x₁ x₂ V E) :
    L.Syncs (Eval.inFrame x₁) (Eval.inFrame x₂) V E := by
  intro m₁ m₂ hm
  have hcalls : ∀ m, (Machine.closed m).calls = m.calls := fun _ => rfl
  exact Syncs.leaving (hx hm.opened) hcalls InStep.closed

theorem Syncs.repeatWhile {round₁ round₂ : Eval ε Bool} (h : L.Syncs round₁ round₂ Eq E)
    (budget : Nat) :
    L.Syncs (Eval.repeatWhile round₁ budget) (Eval.repeatWhile round₂ budget) (fun _ _ => True)
      E := by
  induction budget with
  | zero => exact fun _ _ _ => .exhausted
  | succ budget ih =>
    intro m₁ m₂ hm
    have hround := h hm
    rw [Eval.repeatWhile, Eval.repeatWhile]
    generalize round₁ m₁ = r₁, round₂ m₂ = r₂ at hround
    cases hround with
    | @value again _ _ _ ha hm' =>
      subst ha
      cases again with
      | true => exact ih hm'
      | false => exact .value trivial hm'
    | exit he hm' => exact .exit he hm'
    | exhausted => exact .exhausted
    | cut hc => exact .cut hc

/-! ### Names and types -/

theorem syncs_identifier (name : String) :
    L.Syncs (Eval.identifier name) (Eval.identifier name) L.Same L.errors := by
  intro m₁ m₂ hm
  have hlookup : m₂.env.lookup m₂.frames name =
      (m₁.env.lookup m₁.frames name).map (Value.relocate L.handle) := by
    rw [Environment.lookup, hm.current_eq]
    exact hm.frames.lookup hm.current
  unfold Eval.identifier Environment.identifier
  rw [hlookup, hm.iota]
  by_cases htrue : name = "true"
  · simp only [if_pos htrue]
    exact .value (same_of_isPlain rfl) hm
  by_cases hfalse : name = "false"
  · simp only [if_neg htrue, if_pos hfalse]
    exact .value (same_of_isPlain rfl) hm
  by_cases hiota : name = "iota"
  · simp only [if_neg htrue, if_neg hfalse, if_pos hiota]
    cases m₁.iota with
    | none => exact .exit ⟨rfl, L.ordinary rfl⟩ hm
    | some n => exact .value (same_of_isPlain rfl) hm
  · simp only [if_neg htrue, if_neg hfalse, if_neg hiota]
    cases hv : m₁.env.lookup m₁.frames name with
    | none => exact .exit ⟨rfl, L.ordinary rfl⟩ hm
    | some v => exact .value ⟨hm.frames.within_of_lookup hm.current hv, rfl⟩ hm

theorem syncs_bindName (name : String) {v₁ v₂ : Value} (hv : L.Same v₁ v₂)
    (mutability : Mutability) :
    L.Syncs (Eval.bindName name ⟨v₁, mutability⟩) (Eval.bindName name ⟨v₂, mutability⟩)
      (fun _ _ => True) L.errors := by
  intro m₁ m₂ hm
  unfold Eval.bindName Environment.define
  cases isReserved name with
  | true => exact .exit ⟨rfl, L.ordinary rfl⟩ hm
  | false =>
    rw [hv.2, hm.current_eq]
    exact .value trivial
      (hm.withFrames (hm.frames.define (b := ⟨v₁, mutability⟩) hm.current hv.1 name))

theorem syncs_assignName (name : String) {v₁ v₂ : Value} (hv : L.Same v₁ v₂) :
    L.Syncs (Eval.assignName name v₁) (Eval.assignName name v₂) (fun _ _ => True) L.errors := by
  intro m₁ m₂ hm
  have hassign := hm.frames.assign hm.current hv.1 name
  unfold Eval.assignName Environment.assign
  cases isReserved name with
  | true => exact .exit ⟨rfl, L.ordinary rfl⟩ hm
  | false =>
    rw [hv.2, hm.current_eq]
    split at hassign
    · next hok₁ hok₂ =>
      simp only [hok₁, hok₂, Bool.false_eq_true, if_false]
      exact .value trivial (hm.withFrames hassign)
    · next e₁ e₂ herror₁ herror₂ =>
      simp only [herror₁, herror₂, Bool.false_eq_true, if_false, hassign]
      have hcause : (e₁.cause name).isOverflow = false :=
        Cause.isOverflow_of_isLocal (e₁.isLocal_cause name)
      exact .exit ⟨rfl, L.ordinary hcause⟩ hm
    · exact hassign.elim

theorem syncs_onTypes (f : UniverseM α) :
    L.Syncs (Eval.onTypes f) (Eval.onTypes f) Eq L.errors := by
  intro m₁ m₂ hm
  unfold Eval.onTypes
  rw [hm.types]
  rcases f.run.run m₁.types with ⟨e | a, u⟩
  · dsimp only
    split
    · exact .exhausted
    · exact .exit ⟨rfl, L.ordinary rfl⟩ (hm.withTypes u)
  · exact .value rfl (hm.withTypes u)

end Lockstep

end ScriptEngine
