import ScriptEngine.Proofs.Environment.Store
import ScriptEngine.Proofs.Lockstep.Relocation

/-!
Two stores of frames in correspondence.

Two runs start from stores that share some frames under the same handles. Each run adds frames of
its own, and these correspond in the order in which they were added (`Correspondence.handle`). The
runs see the shared frames and the new ones, and no others (`Correspondence.Seen`).

`Correspondence.Matches` says that the stores agree on what is seen, up to handles, and that what is
not seen is as it was. It is kept when both runs add a frame (`Matches.grow`), bind a name
(`Matches.define`) or assign to one (`Matches.assign`), and a name then resolves alike in both
(`Matches.resolve`).
-/

namespace ScriptEngine

/-- The handle in which frames are counted from `k` on instead of from `n` on; frames below `n` keep
their handles. -/
def FrameId.renumber (n k : Nat) (id : FrameId) : FrameId :=
  if id.index < n then id else ⟨k + (id.index - n)⟩

/-- The stores that two runs start from, and the frames that both see under the same handle. -/
structure Correspondence where
  before₁ : Frames
  before₂ : Frames
  Shared : FrameId → Prop
  lt₁ : ∀ {id}, Shared id → id.index < before₁.size
  lt₂ : ∀ {id}, Shared id → id.index < before₂.size

namespace Correspondence

/-- The frame of the second run that corresponds to a frame of the first. -/
def handle (w : Correspondence) (id : FrameId) : FrameId :=
  id.renumber w.before₁.size w.before₂.size

/-- The frames that the first run may see: those that are shared and those that it adds. -/
def Seen (w : Correspondence) (id : FrameId) : Prop :=
  w.Shared id ∨ w.before₁.size ≤ id.index

variable {w : Correspondence}

theorem handle_of_shared {id : FrameId} (h : w.Shared id) : w.handle id = id :=
  if_pos (w.lt₁ h)

theorem handle_of_le {id : FrameId} (h : w.before₁.size ≤ id.index) :
    w.handle id = ⟨w.before₂.size + (id.index - w.before₁.size)⟩ :=
  if_neg (Nat.not_lt.mpr h)

/-- Frames that are seen stay distinct. -/
theorem handle_inj {a b : FrameId} (ha : w.Seen a) (hb : w.Seen b) (h : w.handle a = w.handle b) :
    a = b := by
  rcases ha with ha | ha <;> rcases hb with hb | hb
  · rwa [handle_of_shared ha, handle_of_shared hb] at h
  · rw [handle_of_shared ha, handle_of_le hb] at h
    have hlt := w.lt₂ ha
    rw [h] at hlt
    exact absurd hlt (Nat.not_lt.mpr (Nat.le_add_right ..))
  · rw [handle_of_le ha, handle_of_shared hb] at h
    have hlt := w.lt₂ hb
    rw [← h] at hlt
    exact absurd hlt (Nat.not_lt.mpr (Nat.le_add_right ..))
  · rw [handle_of_le ha, handle_of_le hb, FrameId.mk.injEq] at h
    cases a
    cases b
    simp only [FrameId.mk.injEq] at ha hb h ⊢
    omega

/-- The stores of the two runs agree on the frames that are seen, which lead to such frames only,
and every other frame is as it was at the start. -/
structure Matches (w : Correspondence) (fs₁ fs₂ : Frames) : Prop where
  grown : w.before₁.size ≤ fs₁.size
  size : fs₂.size = w.before₂.size + (fs₁.size - w.before₁.size)
  get? : ∀ {id}, w.Seen id → fs₂.get? (w.handle id) = (fs₁.get? id).map (Frame.relocate w.handle)
  within : ∀ {id f}, w.Seen id → fs₁.get? id = some f → f.Within w.Seen
  unseen₁ : ∀ {id}, id.index < w.before₁.size → ¬ w.Shared id → fs₁.get? id = w.before₁.get? id
  unseen₂ : ∀ {id}, id.index < w.before₂.size → ¬ w.Shared id → fs₂.get? id = w.before₂.get? id

namespace Matches

variable {fs₁ fs₂ : Frames} {id : FrameId} {name : String}

theorem frame (h : w.Matches fs₁ fs₂) (hid : w.Seen id) {f : Frame} (hf : fs₁.get? id = some f) :
    fs₂.get? (w.handle id) = some (f.relocate w.handle) := by
  rw [h.get? hid, hf, Option.map_some]

/-- A frame that is seen exists in both stores or in none. -/
theorem lt_size_iff (h : w.Matches fs₁ fs₂) (hid : w.Seen id) :
    (w.handle id).index < fs₂.size ↔ id.index < fs₁.size := by
  have hnone : fs₂.get? (w.handle id) = none ↔ fs₁.get? id = none := by
    rw [h.get? hid, Option.map_eq_none_iff]
  rw [Frames.get?_eq_none_iff, Frames.get?_eq_none_iff] at hnone
  rw [← Nat.not_le, hnone, Nat.not_le]

/-! ### Adding a frame -/

theorem seen_next (h : w.Matches fs₁ fs₂) : w.Seen fs₁.next :=
  .inr h.grown

theorem handle_next (h : w.Matches fs₁ fs₂) : w.handle fs₁.next = fs₂.next := by
  have hnext : w.before₁.size ≤ fs₁.next.index := h.grown
  rw [handle_of_le hnext, Frames.next, Frames.next, h.size]

/-- A parent that is seen is taken over by both stores or by none. -/
theorem filter_parent (h : w.Matches fs₁ fs₂) {parent : FrameId} (hparent : w.Seen parent) :
    (some (w.handle parent)).filter (fun p => p.index < fs₂.size) =
      ((some parent).filter fun p => p.index < fs₁.size).map w.handle := by
  simp only [Option.filter_some, h.lt_size_iff hparent]
  split <;> rfl

theorem get?_grow (h : w.Matches fs₁ fs₂) {parent : FrameId} (hparent : w.Seen parent)
    (hid : w.Seen id) :
    (fs₂.grow (some (w.handle parent))).get? (w.handle id) =
      ((fs₁.grow (some parent)).get? id).map (Frame.relocate w.handle) := by
  rcases Nat.lt_trichotomy id.index fs₁.size with hlt | heq | hgt
  · rw [Frames.get?_grow_of_lt ((h.lt_size_iff hid).mpr hlt), Frames.get?_grow_of_lt hlt,
      h.get? hid]
  · obtain rfl : id = fs₁.next := congrArg FrameId.mk heq
    rw [h.handle_next, Frames.get?_grow_next, Frames.get?_grow_next, h.filter_parent hparent]
    rfl
  · have hsize := h.size
    have hgrown := h.grown
    have hle : w.before₁.size ≤ id.index := by omega
    have hnone₁ : (fs₁.grow (some parent)).get? id = none :=
      Frames.get?_eq_none_iff.mpr (by rw [Frames.size_grow]; omega)
    have hnone₂ : (fs₂.grow (some (w.handle parent))).get? (w.handle id) = none := by
      rw [handle_of_le hle]
      apply Frames.get?_eq_none_iff.mpr
      rw [Frames.size_grow, hsize]
      dsimp only
      omega
    rw [hnone₁, hnone₂, Option.map_none]

theorem within_grow (h : w.Matches fs₁ fs₂) {parent : FrameId} (hparent : w.Seen parent)
    (hid : w.Seen id) {f : Frame} (hf : (fs₁.grow (some parent)).get? id = some f) :
    f.Within w.Seen := by
  by_cases hlt : id.index < fs₁.size
  · rw [Frames.get?_grow_of_lt hlt] at hf
    exact h.within hid hf
  · have hbound := Frames.lt_size_of_get? hf
    rw [Frames.size_grow] at hbound
    obtain rfl : id = fs₁.next := congrArg FrameId.mk (show id.index = fs₁.size by omega)
    rw [Frames.get?_grow_next] at hf
    cases hf
    intro p hp
    cases hp with
    | parent hp =>
      have hp' : (some parent).filter (fun p => p.index < fs₁.size) = some p := hp
      obtain ⟨heq, _⟩ := Option.filter_eq_some_iff.mp hp'
      cases heq
      exact hparent
    | captured he _ => cases he

/-- Both runs add a frame below the same frame. -/
theorem grow (h : w.Matches fs₁ fs₂) {parent : FrameId} (hparent : w.Seen parent) :
    w.Matches (fs₁.grow (some parent)) (fs₂.grow (some (w.handle parent))) where
  grown := by
    have hgrown := h.grown
    rw [Frames.size_grow]
    omega
  size := by
    have hgrown := h.grown
    have hsize := h.size
    rw [Frames.size_grow, Frames.size_grow]
    omega
  get? := fun hid => h.get?_grow hparent hid
  within := fun hid hf => h.within_grow hparent hid hf
  unseen₁ := by
    intro id hlt hid
    rw [Frames.get?_grow_of_lt (Nat.lt_of_lt_of_le hlt h.grown), h.unseen₁ hlt hid]
  unseen₂ := by
    intro id hlt hid
    have hlt' : id.index < fs₂.size := by
      rw [h.size]
      omega
    rw [Frames.get?_grow_of_lt hlt', h.unseen₂ hlt hid]

/-! ### Binding a name -/

/-- A frame that no one sees is not one that is seen. -/
theorem handle_ne_of_unseen (hid : w.Seen id) {id' : FrameId} (hlt : id'.index < w.before₂.size)
    (hunseen : ¬ w.Shared id') : id' ≠ w.handle id := by
  rintro rfl
  rcases hid with hshared | hle
  · rw [handle_of_shared hshared] at hunseen
    exact hunseen hshared
  · rw [handle_of_le hle] at hlt
    exact Nat.not_lt.mpr (Nat.le_add_right ..) hlt

/-- Both runs bind a name in the same frame to the same value. -/
theorem define (h : w.Matches fs₁ fs₂) (hid : w.Seen id) {b : Binding}
    (hb : b.value.Within w.Seen) (name : String) :
    w.Matches (fs₁.define id name b) (fs₂.define (w.handle id) name (b.relocate w.handle)) where
  grown := by simpa using h.grown
  size := by simpa using h.size
  get? := by
    intro id' hid'
    by_cases heq : id' = id
    · subst heq
      rw [Frames.get?_define_self, Frames.get?_define_self, h.get? hid, Option.map_map,
        Option.map_map]
      congr 1
      funext f
      exact (Frame.relocate_set name b).symm
    · have hne : w.handle id' ≠ w.handle id := fun hh => heq (handle_inj hid' hid hh)
      rw [Frames.get?_define_of_ne heq, Frames.get?_define_of_ne hne, h.get? hid']
  within := by
    intro id' f hid' hf
    by_cases heq : id' = id
    · subst heq
      rw [Frames.get?_define_self] at hf
      obtain ⟨g, hg, rfl⟩ := Option.map_eq_some_iff.mp hf
      exact (h.within hid hg).set hb
    · rw [Frames.get?_define_of_ne heq] at hf
      exact h.within hid' hf
  unseen₁ := by
    intro id' hlt hunseen
    have hne : id' ≠ id := by
      rintro rfl
      exact hid.elim hunseen (Nat.not_le.mpr hlt)
    rw [Frames.get?_define_of_ne hne, h.unseen₁ hlt hunseen]
  unseen₂ := by
    intro id' hlt hunseen
    rw [Frames.get?_define_of_ne (handle_ne_of_unseen hid hlt hunseen), h.unseen₂ hlt hunseen]

/-! ### Names -/

/-- A name that the first run resolves from a frame that is seen resolves to such a frame. -/
theorem seen_of_resolve (h : w.Matches fs₁ fs₂) (hid : w.Seen id) {owner : FrameId} {b : Binding}
    (hr : fs₁.resolve id name = some (owner, b)) : w.Seen owner ∧ b.value.Within w.Seen := by
  fun_induction Frames.resolve fs₁ id name with
  | case1 => cases hr
  | case2 id f hf b' hb =>
    cases hr
    exact ⟨hid, (h.within hid hf).binding hb⟩
  | case3 => cases hr
  | case4 id f hf hb p hp ih => exact ih (h.within hid hf p (.parent hp)) hr

/-- A name resolves alike from frames that correspond. -/
theorem resolve (h : w.Matches fs₁ fs₂) (hid : w.Seen id) :
    fs₂.resolve (w.handle id) name =
      (fs₁.resolve id name).map fun found => (w.handle found.1, found.2.relocate w.handle) := by
  fun_induction Frames.resolve fs₁ id name with
  | case1 id hnone =>
    apply Frames.resolve_of_get?_eq_none
    rw [h.get? hid, hnone, Option.map_none]
  | case2 id f hf b hb =>
    rw [Frames.resolve_of_get? (h.frame hid hf), Frame.find?_relocate, hb]
    rfl
  | case3 id f hf hb hp =>
    rw [Frames.resolve_of_get? (h.frame hid hf), Frame.find?_relocate, hb, Frame.relocate, hp]
    rfl
  | case4 id f hf hb p hp ih =>
    rw [Frames.resolve_of_get? (h.frame hid hf), Frame.find?_relocate, hb, Frame.relocate, hp,
      ← ih (h.within hid hf p (.parent hp))]
    rfl

theorem lookup (h : w.Matches fs₁ fs₂) (hid : w.Seen id) :
    fs₂.lookup (w.handle id) name = (fs₁.lookup id name).map (Value.relocate w.handle) := by
  rw [Frames.lookup, Frames.lookup, h.resolve hid, Option.map_map, Option.map_map]
  rfl

/-- What the first run looks up leads to frames that are seen. -/
theorem within_of_lookup (h : w.Matches fs₁ fs₂) (hid : w.Seen id) {v : Value}
    (hv : fs₁.lookup id name = some v) : v.Within w.Seen := by
  obtain ⟨found, hfound, rfl⟩ := Option.map_eq_some_iff.mp hv
  exact (h.seen_of_resolve hid hfound).2

/-- Both runs assign the same value to a name, or fail alike. -/
theorem assign (h : w.Matches fs₁ fs₂) (hid : w.Seen id) {v : Value} (hv : v.Within w.Seen)
    (name : String) :
    match fs₁.assign id name v, fs₂.assign (w.handle id) name (v.relocate w.handle) with
      | .ok fs₁', .ok fs₂' => w.Matches fs₁' fs₂'
      | .error e₁, .error e₂ => e₂ = e₁
      | _, _ => False := by
  unfold Frames.assign
  rw [h.resolve hid]
  cases hr : fs₁.resolve id name with
  | none => rfl
  | some found =>
    obtain ⟨owner, value, mutability⟩ := found
    cases mutability with
    | immutable => rfl
    | mutable => exact h.define (b := ⟨v, .mutable⟩) (h.seen_of_resolve hid hr).1 hv name

end Matches

end Correspondence

end ScriptEngine
