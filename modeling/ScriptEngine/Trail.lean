/-!
Trails: the positions of a table that a traversal has entered and not left. A traversal that never
enters a position twice on one path ends, since `unvisited` falls with every step
(`unvisited_cons_lt`).
-/

namespace ScriptEngine

/-- The number of positions below `size` that are not on `trail`. -/
def unvisited (size : Nat) (trail : List Nat) : Nat :=
  (List.range size).countP fun i => !trail.contains i

/-- A step onto a position that was not on the trail leaves less to visit. -/
theorem unvisited_cons_lt {size i : Nat} {trail : List Nat} (hs : i < size) (ht : i ∉ trail) :
    unvisited size (i :: trail) < unvisited size trail := by
  unfold unvisited
  have hle : ∀ l : List Nat, l.countP (fun j => !(i :: trail).contains j) ≤
      l.countP fun j => !trail.contains j := by
    intro l
    apply List.countP_mono_left
    intro j _ hj
    simp only [List.contains_cons, Bool.not_eq_true', Bool.or_eq_false_iff] at hj
    simpa using hj.2
  obtain ⟨before, after, hsplit⟩ := List.append_of_mem (List.mem_range.2 hs)
  rw [hsplit]
  simp only [List.countP_append, List.countP_cons]
  have h₁ := hle before
  have h₂ := hle after
  have hno : trail.contains i = false := by simpa using ht
  simp only [List.contains_cons, beq_self_eq_true, Bool.true_or, Bool.not_true, hno,
    Bool.not_false, reduceIte, Bool.false_eq_true] at *
  omega

end ScriptEngine
