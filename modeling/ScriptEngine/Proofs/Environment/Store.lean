import Mathlib.Logic.Relation
import ScriptEngine.Proofs.Environment.Values

/-!
The store of frames, seen frame by frame: what adding a frame and binding a name do to the frame
under each handle, which frame an assignment writes to, and how the entries (`binding?`) and the
parents (`parent?`) change.
-/

namespace ScriptEngine

namespace Frames

variable {fs fs' : Frames} {id id' : FrameId} {name : String} {b : Binding}

/-- The frames of a store are those below its size. -/
theorem get?_eq_none_iff : fs.get? id = none ↔ fs.size ≤ id.index :=
  Array.getElem?_eq_none_iff

theorem lt_size_of_get? {f : Frame} (h : fs.get? id = some f) : id.index < fs.size :=
  (Array.getElem?_eq_some_iff.mp h).1

/-! ### Adding a frame -/

@[simp]
theorem size_grow (fs : Frames) (parent : Option FrameId) :
    (fs.grow parent).size = fs.size + 1 :=
  Array.size_push ..

theorem get?_grow_of_lt (h : id.index < fs.size) (parent : Option FrameId) :
    (fs.grow parent).get? id = fs.get? id :=
  Array.getElem?_push_lt h |>.trans (Array.getElem?_eq_getElem h).symm

/-- The new frame binds nothing, and has the parent that was asked for if it exists. -/
theorem get?_grow_next (fs : Frames) (parent : Option FrameId) :
    (fs.grow parent).get? fs.next = some ⟨.empty, parent.filter fun p => p.index < fs.size⟩ :=
  Array.getElem?_push_size

/-! ### Binding a name -/

@[simp]
theorem size_define (fs : Frames) (id : FrameId) (name : String) (b : Binding) :
    (fs.define id name b).size = fs.size :=
  Array.size_modify ..

theorem get?_define_self (fs : Frames) (id : FrameId) (name : String) (b : Binding) :
    (fs.define id name b).get? id =
      (fs.get? id).map fun f => { f with bindings := f.bindings.set name b } := by
  simp [get?, define, Array.getElem?_modify]

theorem get?_define_of_ne (h : id' ≠ id) (fs : Frames) (name : String) (b : Binding) :
    (fs.define id name b).get? id' = fs.get? id' := by
  have hindex : id.index ≠ id'.index := by
    intro heq
    cases id
    cases id'
    exact h (congrArg FrameId.mk heq.symm)
  simp [get?, define, Array.getElem?_modify, hindex]

/-! ### Names -/

theorem resolve_of_get?_eq_none (h : fs.get? id = none) : fs.resolve id name = none := by
  rw [resolve]
  split
  · rfl
  · next f hf =>
    rw [h] at hf
    cases hf

/-- A name is resolved in the frame itself, or else in its parent. -/
theorem resolve_of_get? {f : Frame} (h : fs.get? id = some f) :
    fs.resolve id name = match f.bindings.find? name with
      | some b => some (id, b)
      | none => f.parent.bind (fs.resolve · name) := by
  rw [resolve]
  split
  · next hnone =>
    rw [h] at hnone
    cases hnone
  · next g hg =>
    rw [h] at hg
    cases hg
    cases f.bindings.find? name with
    | some b => rfl
    | none =>
      dsimp only
      split
      · next hp => rw [hp, Option.bind_none]
      · next p hp => rw [hp, Option.bind_some]

/-- An assignment that succeeds writes to the frame that the name is resolved in, in place of a
mutable binding. -/
theorem exists_of_assign {v : Value} (h : fs.assign id name v = .ok fs') :
    ∃ owner b, fs.resolve id name = some (owner, b) ∧ b.mutability = .mutable ∧
      fs' = fs.define owner name ⟨v, .mutable⟩ := by
  unfold assign at h
  cases hresolve : fs.resolve id name with
  | none =>
    rw [hresolve] at h
    cases h
  | some found =>
    obtain ⟨owner, b⟩ := found
    rw [hresolve] at h
    cases hmut : b.mutability with
    | immutable =>
      simp only [hmut] at h
      cases h
    | mutable =>
      simp only [hmut] at h
      cases h
      exact ⟨owner, b, rfl, hmut, rfl⟩

/-! ### Entries and parents -/

section Entries

variable {name' : String}

/-- What a frame itself binds a name to. -/
def binding? (fs : Frames) (id : FrameId) (name : String) : Option Binding :=
  (fs.get? id).bind (·.bindings.find? name)

/-- The parent of a frame, if there is such a frame. -/
def parent? (fs : Frames) (id : FrameId) : Option (Option FrameId) :=
  (fs.get? id).map (·.parent)

/-- `p` is the parent of `id`. -/
def Below (fs : Frames) (id p : FrameId) : Prop :=
  fs.parent? id = some (some p)

theorem binds_eq_isSome : fs.binds id name = (fs.binding? id name).isSome := by
  unfold binds binding?
  cases fs.get? id with
  | none => rfl
  | some f => rfl

theorem lt_size_of_binding? (h : fs.binding? id name = some b) : id.index < fs.size := by
  obtain ⟨f, hf, -⟩ := Option.bind_eq_some_iff.mp h
  exact lt_size_of_get? hf

/-- A parent is older than what is below it. -/
theorem Below.lt {p : FrameId} (h : fs.Below id p) : p.index < id.index ∧ id.index < fs.size := by
  obtain ⟨f, hf, hp⟩ := Option.map_eq_some_iff.mp h
  exact ⟨fs.parent_older _ _ _ hf hp, lt_size_of_get? hf⟩

/-- No frame is around itself. -/
theorem not_transGen_below : ¬ Relation.TransGen fs.Below id id := by
  have hlt : ∀ {id p}, Relation.TransGen fs.Below id p → p.index < id.index := by
    intro id p h
    induction h with
    | single h => exact h.lt.1
    | tail _ h ih => exact Nat.lt_trans h.lt.1 ih
  exact fun h => Nat.lt_irrefl _ (hlt h)

/-! ### Entries and parents under each change -/

theorem get?_grow_of_ne (h : id ≠ fs.next) (parent : Option FrameId) :
    (fs.grow parent).get? id = fs.get? id := by
  rcases Nat.lt_trichotomy id.index fs.size with hlt | heq | hgt
  · exact get?_grow_of_lt hlt parent
  · exact absurd (congrArg FrameId.mk heq) h
  · rw [get?_eq_none_iff.mpr (Nat.le_of_lt hgt), get?_eq_none_iff, size_grow]
    exact hgt

theorem get?_next : fs.get? fs.next = none :=
  get?_eq_none_iff.mpr (Nat.le_refl _)

theorem binding?_grow (parent : Option FrameId) :
    (fs.grow parent).binding? id name = fs.binding? id name := by
  unfold binding?
  by_cases h : id = fs.next
  · rw [h, get?_grow_next, get?_next]
    rfl
  · rw [get?_grow_of_ne h]

theorem parent?_grow_of_ne (h : id ≠ fs.next) (parent : Option FrameId) :
    (fs.grow parent).parent? id = fs.parent? id :=
  congrArg (Option.map _) (get?_grow_of_ne h parent)

/-- A frame is opened below any frame that exists. -/
theorem parent?_grow_next {parent : Option FrameId}
    (h : ∀ p, parent = some p → p.index < fs.size) :
    (fs.grow parent).parent? fs.next = some parent := by
  rw [parent?, get?_grow_next, Option.map_some]
  cases parent with
  | none => rfl
  | some p => rw [Option.filter_some, if_pos (decide_eq_true (h p rfl))]

theorem parent?_define : (fs.define id name b).parent? id' = fs.parent? id' := by
  unfold parent?
  by_cases h : id' = id
  · rw [h, get?_define_self, Option.map_map]
    rfl
  · rw [get?_define_of_ne h]

theorem binding?_define_self (h : id.index < fs.size) :
    (fs.define id name b).binding? id name = some b := by
  obtain ⟨f, hf⟩ : ∃ f, fs.get? id = some f := ⟨_, Array.getElem?_eq_getElem h⟩
  rw [binding?, get?_define_self, hf]
  exact Assoc.find?_set_self ..

theorem binding?_define_of_ne (h : ¬ (id = id' ∧ name = name')) :
    (fs.define id name b).binding? id' name' = fs.binding? id' name' := by
  unfold binding?
  by_cases hid : id' = id
  · subst hid
    rw [get?_define_self]
    cases fs.get? id' with
    | none => rfl
    | some f => exact Assoc.find?_set_of_ne _ (fun hname => h ⟨rfl, hname.symm⟩) _
  · rw [get?_define_of_ne hid]

/-! ### Names again, by entries and parents -/

/-- A name is resolved where a frame has an entry for it, and else in the parent. -/
theorem resolve_eq (fs : Frames) (id : FrameId) (name : String) :
    fs.resolve id name = match fs.binding? id name with
      | some b => some (id, b)
      | none => (fs.parent? id).join.bind (fs.resolve · name) := by
  cases hf : fs.get? id with
  | none =>
    rw [resolve_of_get?_eq_none hf, binding?, parent?, hf]
    rfl
  | some f =>
    rw [resolve_of_get? hf, binding?, parent?, hf]
    rfl

theorem resolve_of_binding? (h : fs.binding? id name = some b) :
    fs.resolve id name = some (id, b) := by
  rw [resolve_eq, h]

theorem Below.resolve {p : FrameId} (h : fs.Below id p) (hnone : fs.binding? id name = none) :
    fs.resolve id name = fs.resolve p name := by
  rw [resolve_eq, hnone, show fs.parent? id = some (some p) from h]
  rfl

theorem binding?_of_resolve {owner : FrameId} (h : fs.resolve id name = some (owner, b)) :
    fs.binding? owner name = some b := by
  obtain ⟨f, hf, hb⟩ := exists_of_resolve h
  rw [binding?, hf, Option.bind_some, hb]

/-- The frame that a name is resolved in, and whether it is a constant there, do not depend on any
value. -/
theorem resolve_congr (hparents : ∀ id, fs'.parent? id = fs.parent? id)
    (hentries : ∀ id, (fs'.binding? id name).map (·.mutability) =
      (fs.binding? id name).map (·.mutability)) (id : FrameId) :
    (fs'.resolve id name).map (fun found => (found.1, found.2.mutability)) =
      (fs.resolve id name).map fun found => (found.1, found.2.mutability) := by
  -- The parent is older, so the induction is on the position of the frame.
  induction hn : id.index using Nat.strongRecOn generalizing id with
  | _ n ih =>
    have hentry := hentries id
    rw [resolve_eq fs', resolve_eq fs, hparents]
    cases hb : fs.binding? id name with
    | some b =>
      rw [hb, Option.map_some, Option.map_eq_some_iff] at hentry
      obtain ⟨b', hb', hmut⟩ := hentry
      simp only [hb', Option.map_some, hmut]
    | none =>
      rw [hb, Option.map_none, Option.map_eq_none_iff] at hentry
      simp only [hentry]
      rcases hp : fs.parent? id with _ | _ | p
      · rfl
      · rfl
      · exact ih p.index (hn ▸ (Below.lt hp).1) p rfl

end Entries

end Frames

end ScriptEngine
