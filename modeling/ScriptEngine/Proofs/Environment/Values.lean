import ScriptEngine.Environment.Basic

/-!
What holds of all values that are bound somewhere. A store gets new values only by binding and
assigning, and what a name stands for is a bound value.
-/

namespace ScriptEngine

/-- After a write, every entry is the new one or was there before. -/
theorem Assoc.eq_or_find?_of_set {κ ν : Type} [DecidableEq κ] {m : Assoc κ ν} {k k' : κ}
    {v v' : ν} (h : (m.set k v).find? k' = some v') : v' = v ∨ m.find? k' = some v' := by
  by_cases hk : k' = k
  · rw [hk, Assoc.find?_set_self] at h
    exact .inl (Option.some.inj h).symm
  · rw [Assoc.find?_set_of_ne m hk] at h
    exact .inr h

namespace Frames

variable {P : Value → Prop} {fs fs' : Frames} {id : FrameId} {name : String} {v : Value}

/-- `P` holds of every value that a frame of the store binds. -/
def Binds (P : Value → Prop) (fs : Frames) : Prop :=
  ∀ id f name b, fs.get? id = some f → f.bindings.find? name = some b → P b.value

theorem binds_empty : Binds P empty := by
  intro id f name b hf
  simp [get?, empty] at hf

/-- A new frame binds nothing. -/
theorem Binds.grow (h : Binds P fs) (parent : Option FrameId) : Binds P (fs.grow parent) := by
  intro id f name b hf hb
  simp only [get?, Frames.grow, Array.getElem?_push] at hf
  split at hf
  · cases hf
    rw [Assoc.find?_empty] at hb
    cases hb
  · exact h id f name b hf hb

theorem Binds.define (h : Binds P fs) {b : Binding} (hb : P b.value) :
    Binds P (fs.define id name b) := by
  intro id' f name' b' hf hb'
  simp only [get?, Frames.define, Array.getElem?_modify] at hf
  split at hf
  · obtain ⟨g, hg, rfl⟩ := Option.map_eq_some_iff.mp hf
    rcases Assoc.eq_or_find?_of_set hb' with rfl | hold
    · exact hb
    · exact h id' g name' b' hg hold
  · exact h id' f name' b' hf hb'

theorem Binds.assign (h : Binds P fs) (hv : P v) (ha : fs.assign id name v = .ok fs') :
    Binds P fs' := by
  unfold Frames.assign at ha
  split at ha
  · cases ha
  · split at ha
    · cases ha
    · cases ha
      exact h.define hv

/-- Where a name is resolved, a frame binds it. -/
theorem exists_of_resolve {owner : FrameId} {b : Binding}
    (h : fs.resolve id name = some (owner, b)) :
    ∃ f, fs.get? owner = some f ∧ f.bindings.find? name = some b := by
  fun_induction resolve fs id name with
  | case1 => cases h
  | case2 id f hf b' hb =>
    cases h
    exact ⟨f, hf, hb⟩
  | case3 => cases h
  | case4 id f hf hb p hp ih => exact ih h

theorem Binds.lookup (h : Binds P fs) (hl : fs.lookup id name = some v) : P v := by
  obtain ⟨⟨owner, b⟩, hr, rfl⟩ := Option.map_eq_some_iff.mp hl
  obtain ⟨f, hf, hb⟩ := exists_of_resolve hr
  exact h owner f name b hf hb

end Frames

namespace Environment

variable {P : Value → Prop} {env : Environment} {fs fs' : Frames} {name : String}

theorem binds_define (h : fs.Binds P) {b : Binding} (hb : P b.value)
    (hd : env.define fs name b = .ok fs') : fs'.Binds P := by
  unfold define at hd
  split at hd
  · cases hd
  · cases hd
    exact h.define hb

theorem binds_assign (h : fs.Binds P) {v : Value} (hv : P v)
    (ha : env.assign fs name v = .ok fs') : fs'.Binds P := by
  unfold assign at ha
  split at ha
  · cases ha
  · exact h.assign hv ha

/-- An identifier stands for a truth value, an ordinal or a bound value. -/
theorem identifier_binds (h : fs.Binds P) (hbool : ∀ b, P (.bool b)) (hint : ∀ n, P (.int n))
    {iota : Option Int64} {v : Value} (hi : env.identifier fs iota name = .ok v) : P v := by
  simp only [identifier] at hi
  split at hi
  · next w hw =>
    cases hi
    by_cases htrue : name = "true"
    · rw [if_pos htrue] at hw
      cases hw
      exact hbool true
    · by_cases hfalse : name = "false"
      · rw [if_neg htrue, if_pos hfalse] at hw
        cases hw
        exact hbool false
      · by_cases hiota : name = "iota"
        · rw [if_neg htrue, if_neg hfalse, if_pos hiota] at hw
          obtain ⟨n, _, rfl⟩ := Option.map_eq_some_iff.mp hw
          exact hint n
        · rw [if_neg htrue, if_neg hfalse, if_neg hiota] at hw
          exact h.lookup hw
  · cases hi

end Environment

end ScriptEngine
