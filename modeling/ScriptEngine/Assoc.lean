/-!
Finite maps that remember the order of first insertion. An answer shows that order wherever a map is
listed, so it is part of the type: setting a known key replaces its value in place, and a new key
goes to the end.

Main statements: `find?_set_self` and `find?_set_of_ne` say what a write changes; `keys_set` says
where its key stands; `find?_mapValues` and `mapValues_set` say how a map of the values reads.
-/

namespace ScriptEngine

/-- A finite map as its entries in order of first insertion. -/
structure Assoc (κ ν : Type) where
  entries : List (κ × ν)

namespace Assoc

variable {κ ν : Type} [DecidableEq κ]

/-- The map without entries. -/
def empty : Assoc κ ν := ⟨[]⟩

instance : Inhabited (Assoc κ ν) := ⟨empty⟩

/-- The value of the first entry for `k`. -/
def findIn (k : κ) : List (κ × ν) → Option ν
  | [] => none
  | (k', v) :: rest => if k' = k then some v else findIn k rest

/-- The entries with the value of `k` replaced, or with a new entry at the end. -/
def setIn (k : κ) (v : ν) : List (κ × ν) → List (κ × ν)
  | [] => [(k, v)]
  | (k', v') :: rest => if k' = k then (k', v) :: rest else (k', v') :: setIn k v rest

/-- The value stored under `k`. -/
def find? (m : Assoc κ ν) (k : κ) : Option ν :=
  findIn k m.entries

/-- Whether a value is stored under `k`. -/
def contains (m : Assoc κ ν) (k : κ) : Bool :=
  (m.find? k).isSome

/-- Stores `v` under `k`. -/
def set (m : Assoc κ ν) (k : κ) (v : ν) : Assoc κ ν :=
  ⟨setIn k v m.entries⟩

/-- The keys in order of first insertion. -/
def keys (m : Assoc κ ν) : List κ :=
  m.entries.map (·.1)

/-- Applies `f` to every value. -/
def mapValues {μ : Type} (m : Assoc κ ν) (f : ν → μ) : Assoc κ μ :=
  ⟨m.entries.map fun e => (e.1, f e.2)⟩

/-- The number of entries. -/
def size (m : Assoc κ ν) : Nat :=
  m.entries.length

theorem findIn_setIn_self (k : κ) (v : ν) (es : List (κ × ν)) :
    findIn k (setIn k v es) = some v := by
  induction es with
  | nil => simp [setIn, findIn]
  | cons e rest ih => by_cases h : e.1 = k <;> simp [setIn, findIn, h, ih]

theorem findIn_setIn_of_ne {k k' : κ} (h : k' ≠ k) (v : ν) (es : List (κ × ν)) :
    findIn k' (setIn k v es) = findIn k' es := by
  induction es with
  | nil => simp [setIn, findIn, h.symm]
  | cons e rest ih =>
    by_cases hk : e.1 = k
    · simp [setIn, findIn, hk, h.symm]
    · simp only [setIn, if_neg hk, findIn, ih]

@[simp]
theorem find?_empty (k : κ) : (empty : Assoc κ ν).find? k = none := rfl

@[simp]
theorem find?_set_self (m : Assoc κ ν) (k : κ) (v : ν) : (m.set k v).find? k = some v :=
  findIn_setIn_self k v m.entries

theorem find?_set_of_ne (m : Assoc κ ν) {k k' : κ} (h : k' ≠ k) (v : ν) :
    (m.set k v).find? k' = m.find? k' :=
  findIn_setIn_of_ne h v m.entries

/-- A write to a known key keeps the keys; a write to a new one puts it last. -/
theorem keys_set (m : Assoc κ ν) (k : κ) (v : ν) :
    (m.set k v).keys = if k ∈ m.keys then m.keys else m.keys ++ [k] := by
  obtain ⟨es⟩ := m
  simp only [set, keys]
  induction es with
  | nil => simp [setIn]
  | cons e rest ih =>
    by_cases h : e.1 = k
    · simp [setIn, h]
    · have h' : k ≠ e.1 := fun hk => h hk.symm
      by_cases hm : k ∈ rest.map (·.1) <;> simp_all [setIn]

/-- What is found is an entry. -/
theorem mem_entries_of_find? {m : Assoc κ ν} {k : κ} {v : ν} (h : m.find? k = some v) :
    (k, v) ∈ m.entries := by
  obtain ⟨es⟩ := m
  unfold find? at h
  induction es with
  | nil => cases h
  | cons e rest ih =>
    rw [findIn] at h
    split at h
    · next hk =>
      cases h
      subst hk
      exact List.mem_cons_self ..
    · exact List.mem_cons_of_mem _ (ih h)

/-- A key under which something is stored is among the keys. -/
theorem mem_keys_of_find? {m : Assoc κ ν} {k : κ} {v : ν} (h : m.find? k = some v) :
    k ∈ m.keys :=
  List.mem_map_of_mem (mem_entries_of_find? h)

/-- A write to a known key keeps the size; a write to a new one adds to it. -/
theorem size_set (m : Assoc κ ν) (k : κ) (v : ν) :
    (m.set k v).size = if (m.find? k).isSome then m.size else m.size + 1 := by
  obtain ⟨entries⟩ := m
  unfold size set find?
  induction entries with
  | nil => rfl
  | cons e rest ih =>
    rw [setIn, findIn]
    split
    · rfl
    · dsimp only at ih ⊢
      rw [List.length_cons, List.length_cons, ih]
      split <;> rfl

/-- After a write, every entry holds the new value or was there before. -/
theorem mem_entries_set {m : Assoc κ ν} {k : κ} {v : ν} {e : κ × ν}
    (h : e ∈ (m.set k v).entries) : e.2 = v ∨ e ∈ m.entries := by
  obtain ⟨es⟩ := m
  simp only [set] at h ⊢
  induction es with
  | nil =>
    rw [setIn, List.mem_singleton] at h
    exact .inl (congrArg (·.2) h)
  | cons e' rest ih =>
    rw [setIn] at h
    split at h
    · rcases List.mem_cons.mp h with rfl | h
      · exact .inl rfl
      · exact .inr (List.mem_cons_of_mem _ h)
    · rcases List.mem_cons.mp h with rfl | h
      · exact .inr (List.mem_cons_self ..)
      · exact (ih h).imp_right (List.mem_cons_of_mem _)

/-! ### Values mapped -/

section Map

variable {μ : Type} (m : Assoc κ ν) (f : ν → μ)

theorem find?_mapValues (k : κ) : (m.mapValues f).find? k = (m.find? k).map f := by
  obtain ⟨entries⟩ := m
  induction entries with
  | nil => rfl
  | cons e rest ih =>
    unfold find? mapValues at ih ⊢
    rw [List.map_cons, findIn, findIn]
    split
    · rfl
    · exact ih

theorem mapValues_set (k : κ) (v : ν) :
    (m.set k v).mapValues f = (m.mapValues f).set k (f v) := by
  obtain ⟨entries⟩ := m
  simp only [set, mapValues, mk.injEq]
  induction entries with
  | nil => rfl
  | cons e rest ih =>
    rw [setIn, List.map_cons, setIn]
    split
    · rfl
    · rw [List.map_cons, ih]

end Map

end Assoc

end ScriptEngine
