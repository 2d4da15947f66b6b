import ScriptEngine.Proofs.Environment.Store
import ScriptEngine.Proofs.Eval.Soundness

/-!
What evaluation does to the frames that were there before it.

A frame is reassigned if at most the values of its mutable bindings differ afterwards
(`Frame.Reassigned`). Names are bound in the current frame only, and every construct that may bind
one runs in a frame of its own; so each step of an evolution reassigns all frames but the current
one, and that one too unless what is evaluated may declare names itself (`Evolves.reassigned`).

Main statement: `evaluation_reassigns_frames`.
-/

namespace ScriptEngine

/-! ### Reassigned frames -/

/-- The frame `f'` is `f` after assignments: it has the parent and the names of `f`, each as mutable
as it was, and the values of its constants. -/
structure Frame.Reassigned (f f' : Frame) : Prop where
  parent : f'.parent = f.parent
  names : f'.bindings.keys = f.bindings.keys
  mutability : ∀ name, (f'.bindings.find? name).map (·.mutability) =
    (f.bindings.find? name).map (·.mutability)
  constants : ∀ name b, f.bindings.find? name = some b → b.mutability = .immutable →
    f'.bindings.find? name = some b

namespace Frame.Reassigned

theorem refl (f : Frame) : f.Reassigned f :=
  ⟨rfl, rfl, fun _ => rfl, fun _ _ h _ => h⟩

theorem trans {f₁ f₂ f₃ : Frame} (h : f₁.Reassigned f₂) (h' : f₂.Reassigned f₃) :
    f₁.Reassigned f₃ where
  parent := h'.parent.trans h.parent
  names := h'.names.trans h.names
  mutability name := (h'.mutability name).trans (h.mutability name)
  constants name b hb himm := h'.constants name b (h.constants name b hb himm) himm

/-- Writing a mutable binding reassigns the frame. -/
theorem set {f : Frame} {name : String} {b : Binding} (hb : f.bindings.find? name = some b)
    (hmut : b.mutability = .mutable) (v : Value) :
    f.Reassigned { f with bindings := f.bindings.set name ⟨v, .mutable⟩ } where
  parent := rfl
  names := by rw [Assoc.keys_set, if_pos (Assoc.mem_keys_of_find? hb)]
  mutability name' := by
    by_cases h : name' = name
    · subst h
      simp [hb, hmut]
    · rw [Assoc.find?_set_of_ne _ h]
  constants name' b' hb' himm := by
    have h : name' ≠ name := by
      rintro rfl
      rw [hb] at hb'
      cases hb'
      rw [hmut] at himm
      cases himm
    rw [Assoc.find?_set_of_ne _ h, hb']

end Frame.Reassigned

/-! ### Stores -/

/-- Every frame of `fs`, that of `declaring` apart, is still there in `fs'` and at most
reassigned. -/
def Frames.Reassigned (declaring : Option FrameId) (fs fs' : Frames) : Prop :=
  ∀ id f, some id ≠ declaring → fs.get? id = some f →
    ∃ f', fs'.get? id = some f' ∧ f.Reassigned f'

namespace Frames.Reassigned

variable {declaring : Option FrameId} {fs fs' : Frames}

theorem refl (fs : Frames) : fs.Reassigned declaring fs :=
  fun _ f _ hf => ⟨f, hf, .refl f⟩

theorem trans {fs'' : Frames} (h : fs.Reassigned declaring fs')
    (h' : fs'.Reassigned declaring fs'') : fs.Reassigned declaring fs'' := by
  intro id f hid hf
  obtain ⟨f', hf', hr⟩ := h id f hid hf
  obtain ⟨f'', hf'', hr'⟩ := h' id f' hid hf'
  exact ⟨f'', hf'', hr.trans hr'⟩

/-- To bind a name in a frame leaves the other frames as they were. -/
theorem define (fs : Frames) (id : FrameId) (name : String) (b : Binding) :
    fs.Reassigned (some id) (fs.define id name b) := by
  intro id' f hid hf
  have hne : id' ≠ id := fun heq => hid (congrArg some heq)
  exact ⟨f, (get?_define_of_ne hne fs name b).trans hf, .refl f⟩

theorem assign {id : FrameId} {name : String} {v : Value} (h : fs.assign id name v = .ok fs') :
    fs.Reassigned declaring fs' := by
  obtain ⟨owner, b, hresolve, hmut, rfl⟩ := exists_of_assign h
  obtain ⟨g, hg, hb⟩ := exists_of_resolve hresolve
  intro id' f _ hf
  by_cases howner : id' = owner
  · subst howner
    rw [hg] at hf
    cases hf
    exact ⟨_, by rw [get?_define_self, hg, Option.map_some], .set hb hmut v⟩
  · exact ⟨f, (get?_define_of_ne howner fs name _).trans hf, .refl f⟩

/-- What happens below a new frame, which may be given names, leaves no names in the frames that
were there before it. -/
theorem of_grow {parent : Option FrameId}
    (h : (fs.grow parent).Reassigned (some fs.next) fs') : fs.Reassigned declaring fs' := by
  intro id f _ hf
  have hlt := lt_size_of_get? hf
  have hne : some id ≠ some fs.next := by
    intro heq
    cases heq
    exact Nat.lt_irrefl _ hlt
  exact h id f hne ((get?_grow_of_lt hlt parent).trans hf)

end Frames.Reassigned

/-! ### Evolutions -/

/-- The frame in which an evaluation may bind names: the current one, if it may bind any. -/
def Machine.declaring (m : Machine) (binds : Bool) : Option FrameId :=
  if binds then some m.env.current else none

/-- **Every evolution reassigns the frames that were there before**, the current one apart if it may
bind names. -/
theorem Evolves.reassigned {P : Value → Prop} {binds : Bool} {m m' : Machine}
    (h : Evolves P binds m m') : m.frames.Reassigned (m.declaring binds) m'.frames := by
  induction h with
  | refl | resolve => exact .refl _
  | @trans binds m₁ m₂ m₃ h₁ _ ih₁ ih₂ =>
    have henv : m₂.env = m₁.env := congrArg (·.env) h₁.context_eq
    have hdeclaring : m₂.declaring binds = m₁.declaring binds := by
      rw [Machine.declaring, Machine.declaring, henv]
    exact ih₁.trans (hdeclaring ▸ ih₂)
  | @define m name b frames hd _ =>
    unfold Environment.define at hd
    split at hd
    · cases hd
    · cases hd
      exact Frames.Reassigned.define m.frames m.env.current name b
  | @assign binds m name v frames ha _ =>
    unfold Environment.assign at ha
    split at ha
    · cases ha
    · exact .assign ha
  | inFrame _ ih => exact Frames.Reassigned.of_grow ih
  | underOrdinal _ ih => exact ih
  | called _ _ ih => exact Frames.Reassigned.of_grow ih

/-! ### Evaluation -/

/-- However `x` ends from `m`, it has at most reassigned the frames of `m`; if `binds` is true, it
may have bound names in the current one. -/
def Eval.Reassigns {ε α : Type} (x : Eval ε α) (m : Machine) (binds : Bool) : Prop :=
  x.Ends m (fun _ m' => m.frames.Reassigned (m.declaring binds) m'.frames)
    fun _ m' => m.frames.Reassigned (m.declaring binds) m'.frames

theorem Policy.Keeps.reassigns {π : Policy} {binds : Bool} {ε α : Type} {V : α → Prop}
    {X : ε → Prop} {x : Eval ε α} (h : π.Keeps binds x V X) {m : Machine} (hm : π.Holds m) :
    x.Reassigns m binds := by
  apply (h m hm).mono
  · exact fun _ _ ⟨hm', _⟩ => hm'.reassigned
  · exact fun _ _ ⟨hm', _⟩ => hm'.reassigned

/-- **Evaluation declares nothing in the frames it finds, and changes no constant.** From every
machine, however the evaluation of a statement, an expression or a call ends, each frame of the
machine still has its names, as mutable as they were, and the values of its constants. The frame
that is current is an exception for definitions and constant blocks alone, labeled or not: these are
the statements of which `Stmt.binds` is true. -/
theorem evaluation_reassigns_frames (budget : Nat) (m : Machine) :
    (∀ label s, ((evaluator budget).stmt label s).Reassigns m s.binds) ∧
      (∀ e, (evalExpr budget e).Reassigns m false) ∧
      ∀ callee args name span, (callValue budget callee args name span).Reassigns m false := by
  have h := Policy.any.governs budget
  have hm := Policy.holds_any m
  refine ⟨fun label s => ?_, fun e => ?_, fun callee args name span => ?_⟩
  · exact (h.stmt label fun _ _ => trivial).reassigns hm
  · exact (h.expr fun _ _ => trivial).reassigns hm
  · exact (h.callValue trivial fun _ _ => trivial).reassigns hm

end ScriptEngine
