import Mathlib
import ScriptEngine.Proofs.Lockstep.Simulation

/-!
What a call can see and change.

A call reaches the frames that its callee, its arguments and the code of callables capture, and from
these on the frames that they lead to: their parents, and what the values bound in them capture
(`Machine.Reaches`). Two machines that agree on these frames run the call in lockstep, wherever the
callers stand and whatever the other frames hold: `Lockstep.encapsulated`.

Main statement: `call_is_encapsulated`.
-/

namespace ScriptEngine

/-! ### Reached frames -/

/-- A call of `callee` on `args` reaches the frame from what it is given. -/
inductive Machine.Reaches (m : Machine) (callee : Value) (args : List Value) : FrameId → Prop where
  | callee {id} : callee.Captures id → Reaches m callee args id
  | argument {v id} : v ∈ args → v.Captures id → Reaches m callee args id
  | code {func f} : m.functions.find? func = some f → Reaches m callee args f.scope
  | frame {id f id'} : Reaches m callee args id → m.frames.get? id = some f → f.LeadsTo id' →
      Reaches m callee args id'

/-- The machines have the same live calls, universe and code of callables, and agree on the frames
that the call reaches. -/
structure Machine.AgreeFor (callee : Value) (args : List Value) (m₁ m₂ : Machine) : Prop where
  calls : m₂.calls = m₁.calls
  types : m₂.types = m₁.types
  functions : m₂.functions = m₁.functions
  frames : ∀ {id}, m₁.Reaches callee args id →
    ∃ f, m₁.frames.get? id = some f ∧ m₂.frames.get? id = some f

variable {callee : Value} {args : List Value} {m₁ m₂ : Machine}

/-- The call reaches the same frames in both machines. -/
theorem Machine.AgreeFor.reaches (h : AgreeFor callee args m₁ m₂) {id : FrameId}
    (hid : m₁.Reaches callee args id) : m₂.Reaches callee args id := by
  induction hid with
  | callee hc => exact .callee hc
  | argument hv hc => exact .argument hv hc
  | code hf => exact .code (h.functions.symm ▸ hf)
  | frame hid hf hleads ih =>
    obtain ⟨g, hg₁, hg₂⟩ := h.frames hid
    obtain rfl := Option.some.inj (hf.symm.trans hg₁)
    exact .frame ih hg₂ hleads

/-! ### The lockstep of a call -/

namespace Lockstep

/-- Two runs of a call on machines that agree on what it reaches. -/
def encapsulated (h : Machine.AgreeFor callee args m₁ m₂) : Lockstep where
  before₁ := m₁.frames
  before₂ := m₂.frames
  Shared := m₁.Reaches callee args
  lt₁ hid :=
    have ⟨_, hf, _⟩ := h.frames hid
    Frames.lt_size_of_get? hf
  lt₂ hid :=
    have ⟨_, _, hf⟩ := h.frames hid
    Frames.lt_size_of_get? hf
  globals _ _ := True
  calls := Eq
  error _ _ := True
  cuts := False
  frames_eq hc := congrArg CallStack.frames hc.symm
  full hc := .inl (congrArg CallStack.full? hc.symm)
  enter frame hc _ := congrArg (CallStack.enter · frame) hc
  pop hc := congrArg CallStack.pop hc
  ordinary _ := trivial
  overflow _ _ := trivial
  locate _ _ := trivial
  trace _ _ := trivial

section Encapsulated

variable {h : Machine.AgreeFor callee args m₁ m₂}

/-- What is reached keeps its handle. -/
theorem handle_of_reaches {id : FrameId} (hid : m₁.Reaches callee args id) :
    (encapsulated h).handle id = id :=
  Correspondence.handle_of_shared (w := (encapsulated h).toCorrespondence) hid

theorem same_of_reaches {v : Value} (hv : v.Within (m₁.Reaches callee args)) :
    (encapsulated h).Same v v :=
  ⟨fun id hid => .inl (hv id hid),
    (Value.relocate_eq_self fun id hid => handle_of_reaches (hv id hid)).symm⟩

theorem matches_encapsulated : (encapsulated h).Matches m₁.frames m₂.frames where
  grown := Nat.le_refl _
  size := by simp [encapsulated]
  get? {id} hid := by
    rcases hid with hreached | hnew
    · obtain ⟨f, hf₁, hf₂⟩ := h.frames hreached
      have hkept : f.relocate (encapsulated h).handle = f :=
        Frame.relocate_eq_self fun id' hid' => handle_of_reaches (.frame hreached hf₁ hid')
      rw [handle_of_reaches hreached, hf₁, hf₂, Option.map_some, hkept]
    · have hnone : m₁.frames.get? id = none := Frames.get?_eq_none_iff.mpr hnew
      rw [hnone, Option.map_none]
      apply Frames.get?_eq_none_iff.mpr
      rw [Correspondence.handle_of_le hnew]
      exact Nat.le_add_right ..
  within {id f} hid hf := by
    rcases hid with hreached | hnew
    · exact fun id' hid' => .inl (.frame hreached hf hid')
    · have hnone : m₁.frames.get? id = none := Frames.get?_eq_none_iff.mpr hnew
      rw [hnone] at hf
      cases hf
  unseen₁ _ _ := rfl
  unseen₂ _ _ := rfl

theorem alike_encapsulated : (encapsulated h).Alike m₁ m₂ where
  frames := matches_encapsulated
  types := h.types
  functions := h.functions
  code hf := ⟨.inl (.code hf), handle_of_reaches (.code hf)⟩
  globals := trivial
  calls := h.calls.symm

end Encapsulated

end Lockstep

/-! ### Encapsulation -/

/-- The call has the same effects on both machines, up to the handles of new frames: on what it
reaches and on the frames that it adds. It leaves all other frames as they were. -/
structure SameEffects (callee : Value) (args : List Value) (m₁ m₂ m₁' m₂' : Machine) : Prop where
  types : m₂'.types = m₁'.types
  functions : m₂'.functions = m₁'.functions
  calls : m₂'.calls = m₁'.calls
  reached : ∀ {id}, m₁.Reaches callee args id →
    m₂'.frames.get? id =
      (m₁'.frames.get? id).map (Frame.relocate (.renumber m₁.frames.size m₂.frames.size))
  added : ∀ {id}, m₁.frames.size ≤ id.index →
    m₂'.frames.get? (id.renumber m₁.frames.size m₂.frames.size) =
      (m₁'.frames.get? id).map (Frame.relocate (.renumber m₁.frames.size m₂.frames.size))
  unreached₁ : ∀ {id f}, ¬ m₁.Reaches callee args id → m₁.frames.get? id = some f →
    m₁'.frames.get? id = some f
  unreached₂ : ∀ {id f}, ¬ m₂.Reaches callee args id → m₂.frames.get? id = some f →
    m₂'.frames.get? id = some f

theorem sameEffects_of_alike {h : Machine.AgreeFor callee args m₁ m₂} {m₁' m₂' : Machine}
    (hm : (Lockstep.encapsulated h).Alike m₁' m₂') : SameEffects callee args m₁ m₂ m₁' m₂' where
  types := hm.types
  functions := hm.functions
  calls := hm.calls.symm
  reached {id} hid := by
    have hget := hm.frames.get? (.inl hid)
    rw [Lockstep.handle_of_reaches hid] at hget
    exact hget
  added hid := hm.frames.get? (.inr hid)
  unreached₁ hid hf := (hm.frames.unseen₁ (Frames.lt_size_of_get? hf) hid).trans hf
  unreached₂ hid hf :=
    (hm.frames.unseen₂ (Frames.lt_size_of_get? hf) fun hid₁ => hid (h.reaches hid₁)).trans hf

/-- **Calls are encapsulated.** On machines that agree on the frames that a call reaches, the call
ends in the same way and has the same effects, up to the handles of the frames that it adds,
whatever the environments of the callers, the pending ordinal of constants and all other frames
are. -/
theorem call_is_encapsulated (budget : Nat) (h : Machine.AgreeFor callee args m₁ m₂) (name : String)
    (span : Option Span) :
    match callValue budget callee args name span m₁, callValue budget callee args name span m₂ with
    | .value v₁ m₁', .value v₂ m₂' =>
      v₂ = v₁.relocate (.renumber m₁.frames.size m₂.frames.size) ∧
        SameEffects callee args m₁ m₂ m₁' m₂'
    | .exit e₁ m₁', .exit e₂ m₂' => e₂ = e₁ ∧ SameEffects callee args m₁ m₂ m₁' m₂'
    | .exhausted, .exhausted => True
    | _, _ => False := by
  have hmirrors := (Lockstep.encapsulated h).mirrors_self budget
  have hcallee : (Lockstep.encapsulated h).Same callee callee :=
    Lockstep.same_of_reaches fun _ hid => .callee hid
  have hargs : (Lockstep.encapsulated h).SameAll args args := by
    have harg : ∀ v ∈ args, (Lockstep.encapsulated h).Same v v :=
      fun v hv => Lockstep.same_of_reaches fun _ hid => .argument hv hid
    refine ⟨fun v hv => (harg v hv).1, ?_⟩
    exact ((List.map_congr_left fun v hv => (harg v hv).2.symm).trans (List.map_id' args)).symm
  have hcall := hmirrors.callValue_alike Lockstep.alike_encapsulated hcallee hargs name span
  unfold callValue
  generalize (evaluator budget).callValue callee args name span m₁ = run₁,
    (evaluator budget).callValue callee args name span m₂ = run₂ at hcall
  cases hcall with
  | value hv hm' => exact ⟨hv.2, sameEffects_of_alike hm'.toAlike⟩
  | exit he hm' => exact ⟨he.1, sameEffects_of_alike hm'.toAlike⟩
  | exhausted => trivial
  | cut hcut => exact False.elim hcut.1

/-! ### A counter -/

/-- `return n`. -/
def reading : Stmt :=
  .result ⟨1, 2⟩ [.ident default "n"]

/-- `func() { n++; return func() { return n } }`, made in the first frame. -/
def counter : Function :=
  ⟨[], .block default [.incDec default "n" true, .result default [.func default [] reading]], ⟨0⟩⟩

/-- The machine on which the counter stands at one. -/
def counting : Machine :=
  ⟨(Frames.empty.grow none).define ⟨0⟩ "n" ⟨.int 1, .mutable⟩, .empty, ⟨⟨0⟩, [], ⟨0⟩⟩, .empty,
    .empty none, none⟩

/-- The machine with one more frame, which hides the counter's name and is current. -/
def countingBelow : Machine :=
  { counting with
    frames := (counting.frames.grow (some ⟨0⟩)).define ⟨1⟩ "n" ⟨.int 7, .immutable⟩
    env := ⟨⟨1⟩, [⟨0⟩], ⟨0⟩⟩
    iota := some 3 }

/-- The counter reaches the frame that it was made in, and no other. -/
theorem eq_of_reaches_counting {id : FrameId} (h : counting.Reaches (.func counter) [] id) :
    id = ⟨0⟩ := by
  induction h with
  | callee hc =>
    cases hc
    rfl
  | argument hv => cases hv
  | code hf => cases hf
  | frame _ hf hleads ih =>
    subst ih
    cases hf
    cases hleads with
    | parent hp => cases hp
    | captured he hc =>
      obtain rfl := List.mem_singleton.mp he
      cases hc

theorem agreeFor_counter : Machine.AgreeFor (.func counter) [] counting countingBelow where
  calls := rfl
  types := rfl
  functions := rfl
  frames hid := by
    rw [eq_of_reaches_counting hid]
    exact ⟨_, rfl, rfl⟩

/-- The call counts in the shared frame, and returns a function that captures the frame of the
call's block: the third frame of the first machine, and the fourth of the second one. -/
theorem call_is_encapsulated_counter :
    ∃ m₁' m₂', callValue 9 (.func counter) [] "f" none counting =
        .value (.func ⟨[], reading, ⟨2⟩⟩) m₁' ∧
      callValue 9 (.func counter) [] "f" none countingBelow =
        .value (.func ⟨[], reading, ⟨3⟩⟩) m₂' ∧
      SameEffects (.func counter) [] counting countingBelow m₁' m₂' := by
  have h := call_is_encapsulated 9 agreeFor_counter "f" none
  obtain ⟨m₁', hrun⟩ : ∃ m₁', callValue 9 (.func counter) [] "f" none counting =
      .value (.func ⟨[], reading, ⟨2⟩⟩) m₁' := ⟨_, by cbv⟩
  rw [hrun] at h ⊢
  cases hrun₂ : callValue 9 (.func counter) [] "f" none countingBelow with
  | value v₂ m₂' =>
    rw [hrun₂] at h
    obtain ⟨rfl, heffects⟩ := h
    exact ⟨m₁', m₂', rfl, rfl, heffects⟩
  | exit | exhausted =>
    rw [hrun₂] at h
    exact h.elim

end ScriptEngine
