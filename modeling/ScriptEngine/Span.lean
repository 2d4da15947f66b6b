/-!
Source positions. A span is the half-open range of positions a piece of a program was read from; it
serves diagnostics, and the spans of their bodies tell the functions of a program apart. Main
statement: merging is the least range that covers both.
-/

namespace ScriptEngine

/-- The range of source positions from `start` up to, but not including, `stop`. -/
structure Span where
  start : Nat
  stop : Nat
  deriving DecidableEq, Repr, Inhabited

namespace Span

/-- A span is empty when it ends where it starts. -/
def isEmpty (s : Span) : Bool :=
  s.start == s.stop

/-- The smallest span that covers both. -/
def merge (s t : Span) : Span :=
  ⟨min s.start t.start, max s.stop t.stop⟩

/-- The written form, as in `3..7`. -/
def text (s : Span) : String :=
  s!"{s.start}..{s.stop}"

/-- The merge of a list of spans, from the left; the empty span at zero if there is none. -/
def mergeAll : List Span → Span
  | [] => ⟨0, 0⟩
  | s :: rest => rest.foldl merge s

/-- `s` lies within `t`. -/
def Within (s t : Span) : Prop :=
  t.start ≤ s.start ∧ s.stop ≤ t.stop

theorem within_merge_left (s t : Span) : s.Within (s.merge t) :=
  ⟨Nat.min_le_left _ _, Nat.le_max_left _ _⟩

theorem within_merge_right (s t : Span) : t.Within (s.merge t) :=
  ⟨Nat.min_le_right _ _, Nat.le_max_right _ _⟩

theorem merge_within {s t u : Span} (hs : s.Within u) (ht : t.Within u) : (s.merge t).Within u :=
  ⟨Nat.le_min.2 ⟨hs.1, ht.1⟩, Nat.max_le.2 ⟨hs.2, ht.2⟩⟩

end Span

end ScriptEngine
