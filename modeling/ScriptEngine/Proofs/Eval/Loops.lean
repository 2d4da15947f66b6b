import ScriptEngine.Proofs.Eval.Budget
import ScriptEngine.Proofs.Eval.Evolution

/-!
What a loop evaluates, round by round.

`LoopRuns` says of a loop that ends normally in which machines its body and its post statement are
evaluated, in turn, and in which machine it ends. There is one such account at most
(`LoopRuns.unique`), and there is one exactly if the loop ends normally (`settles_loop_iff`).
-/

namespace ScriptEngine

open Evaluator

/-! ### What ends with a value -/

section EndsWithValue

variable {ε ε' α : Type} {m m' : Machine} {a : α}

theorem mapExit_eq_value {x : Eval ε α} {f : ε → ε'} :
    x.mapExit f m = .value a m' ↔ x m = .value a m' := by
  simp only [Eval.mapExit, Eval.handle]
  cases x m <;> simp [Eval.raise]

theorem effect_eq_value {x : Eval ε Unit} :
    effect x m = .value .void m' ↔ x m = .value () m' := by
  simp only [effect, bind, Eval.bind]
  cases x m <;> simp [pure, Eval.pure]

theorem inFrame_eq_value {x : Eval ε α} :
    Eval.inFrame x m = .value a m' ↔ ∃ m₁, x m.opened = .value a m₁ ∧ m' = m₁.closed := by
  change x.leaving Machine.closed m.opened = _ ↔ _
  unfold Eval.leaving
  cases x m.opened with
  | value a' m₁ => simp [eq_comm, and_assoc]
  | exit | exhausted => simp

/-- Rounds end in one that says so. -/
theorem repeatWhile_eq_value {round : Eval ε Bool} {j : Nat} :
    Eval.repeatWhile round (j + 1) m = .value () m' ↔
      round m = .value false m' ∨
        ∃ m₁, round m = .value true m₁ ∧ Eval.repeatWhile round j m₁ = .value () m' := by
  rw [Eval.repeatWhile]
  cases round m with
  | value goes m₁ => cases goes <;> simp
  | exit | exhausted => simp

end EndsWithValue

/-! ### The parts of a loop -/

section Rounds

variable {ev : Evaluator} {label : Option String} {cond : Option Expr} {post : Option Stmt}
  {body : Stmt} {m m' : Machine}

/-- The last round. -/
theorem round_eq_false : ev.round label cond post body m = .value false m' ↔
    ev.goesOn cond m = .value false m' ∨
      ∃ m₁, ev.goesOn cond m = .value true m₁ ∧ ev.loopBody label body m₁ = .value false m' := by
  rw [Evaluator.round, Eval.bind_eq_value, Bool.exists_bool]
  simp [Eval.bind_eq_value, pure, Eval.pure]

/-- A round before others. -/
theorem round_eq_true : ev.round label cond post body m = .value true m' ↔
    ∃ m₁, ev.goesOn cond m = .value true m₁ ∧
      ∃ m₂, ev.loopBody label body m₁ = .value true m₂ ∧
        ev.optional post m₂ = .value () m' := by
  rw [Evaluator.round, Eval.bind_eq_value, Bool.exists_bool]
  simp only [Eval.bind_eq_value, pure, Eval.pure, Bool.false_eq_true, if_false, if_true,
    Bool.exists_bool, Run.value.injEq, true_and, false_and, and_false, exists_false, false_or,
    exists_eq_right]
  constructor
  · rintro ⟨m₁, hgoes, m₂, hbody, ⟨⟩, hpost⟩
    exact ⟨m₁, hgoes, m₂, hbody, hpost⟩
  · rintro ⟨m₁, hgoes, m₂, hbody, hpost⟩
    exact ⟨m₁, hgoes, m₂, hbody, (), hpost⟩

end Rounds

theorem steady_goesOn (cond : Option Expr) : Steady fun n => (evaluator n).goesOn cond :=
  fun _ _ h => (evaluator_approximates h).goesOn cond

theorem steady_loopBody (label : Option String) (body : Stmt) :
    Steady fun n => (evaluator n).loopBody label body :=
  fun _ _ h => (evaluator_approximates h).loopBody label body

theorem steady_optional (s : Option Stmt) : Steady fun n => (evaluator n).optional s :=
  fun _ _ h => (evaluator_approximates h).optional s

/-- A loop, its first statement apart, ends normally: from `m` its body is evaluated in the machines
`bodies`, its post statement in the machines `posts`, and the end is `m'`. -/
inductive LoopRuns (label : Option String) (cond : Option Expr) (post : Option Stmt) (body : Stmt) :
    Machine → List Machine → List Machine → Machine → Prop where
  /-- The condition fails. -/
  | stop {m m'} : Settles (fun n => (evaluator n).goesOn cond) m (.value false m') →
      LoopRuns label cond post body m [] [] m'
  /-- The body leaves the loop. -/
  | leave {m m₁ m'} : Settles (fun n => (evaluator n).goesOn cond) m (.value true m₁) →
      Settles (fun n => (evaluator n).loopBody label body) m₁ (.value false m') →
      LoopRuns label cond post body m [m₁] [] m'
  /-- A complete round. -/
  | again {m m₁ m₂ m₃ bodies posts m'} :
      Settles (fun n => (evaluator n).goesOn cond) m (.value true m₁) →
      Settles (fun n => (evaluator n).loopBody label body) m₁ (.value true m₂) →
      Settles (fun n => (evaluator n).optional post) m₂ (.value () m₃) →
      LoopRuns label cond post body m₃ bodies posts m' →
      LoopRuns label cond post body m (m₁ :: bodies) (m₂ :: posts) m'

/-- From `m`, after any number of complete rounds, the loop comes to its body in `p`. -/
inductive LoopReaches (label : Option String) (cond : Option Expr) (post : Option Stmt)
    (body : Stmt) : Machine → Machine → Prop where
  | here {m p} : Settles (fun n => (evaluator n).goesOn cond) m (.value true p) →
      LoopReaches label cond post body m p
  | later {m m₁ m₂ m₃ p} :
      Settles (fun n => (evaluator n).goesOn cond) m (.value true m₁) →
      Settles (fun n => (evaluator n).loopBody label body) m₁ (.value true m₂) →
      Settles (fun n => (evaluator n).optional post) m₂ (.value () m₃) →
      LoopReaches label cond post body m₃ p → LoopReaches label cond post body m p

section LoopRuns

variable {label : Option String} {first : Option Stmt} {cond : Option Expr} {post : Option Stmt}
  {body : Stmt} {m m₁ m₂ m' : Machine} {bodies posts : List Machine}

/-- A loop runs in one way at most. -/
theorem LoopRuns.unique (h : LoopRuns label cond post body m bodies posts m')
    {bodies' posts' : List Machine} {m'' : Machine}
    (h' : LoopRuns label cond post body m bodies' posts' m'') :
    bodies' = bodies ∧ posts' = posts ∧ m'' = m' := by
  induction h generalizing bodies' posts' m'' with
  | stop hstop =>
    cases h' with
    | stop hstop' =>
      cases hstop.unique hstop'
      exact ⟨rfl, rfl, rfl⟩
    | leave hgoes | again hgoes => cases hstop.unique hgoes
  | leave hgoes hleave =>
    cases h' with
    | stop hstop => cases hgoes.unique hstop
    | leave hgoes' hleave' =>
      cases hgoes.unique hgoes'
      cases hleave.unique hleave'
      exact ⟨rfl, rfl, rfl⟩
    | again hgoes' hagain =>
      cases hgoes.unique hgoes'
      cases hleave.unique hagain
  | again hgoes hbody hpost _ ih =>
    cases h' with
    | stop hstop => cases hgoes.unique hstop
    | leave hgoes' hleave =>
      cases hgoes.unique hgoes'
      cases hbody.unique hleave
    | again hgoes' hbody' hpost' hrest =>
      cases hgoes.unique hgoes'
      cases hbody.unique hbody'
      cases hpost.unique hpost'
      obtain ⟨rfl, rfl, rfl⟩ := ih hrest
      exact ⟨rfl, rfl, rfl⟩

/-- Where a loop runs its body is where it comes to it. -/
theorem LoopRuns.reaches (h : LoopRuns label cond post body m bodies posts m') :
    ∀ p ∈ bodies, LoopReaches label cond post body m p := by
  induction h with
  | stop => simp
  | leave hgoes => simpa using .here hgoes
  | again hgoes hbody hpost _ ih =>
    rw [List.forall_mem_cons]
    exact ⟨.here hgoes, fun p hp => .later hgoes hbody hpost (ih p hp)⟩

/-! ### Loops and their rounds -/

/-- The rounds end, if they are given enough budget and may be enough. -/
theorem LoopRuns.exists_repeatWhile (h : LoopRuns label cond post body m bodies posts m') :
    ∃ n, ∀ k j, n ≤ k → n ≤ j →
      Eval.repeatWhile ((evaluator k).round label cond post body) j m = .value () m' := by
  induction h with
  | stop hstop =>
    obtain ⟨-, n, hn⟩ := hstop
    refine ⟨n + 1, fun k j hk hj => ?_⟩
    obtain ⟨j, rfl⟩ : ∃ j', j = j' + 1 := ⟨j - 1, by omega⟩
    exact repeatWhile_eq_value.mpr (.inl (round_eq_false.mpr (.inl (hn k (by omega)))))
  | leave hgoes hleave =>
    obtain ⟨-, n, hn⟩ := hgoes
    obtain ⟨-, n', hn'⟩ := hleave
    refine ⟨n + n' + 1, fun k j hk hj => ?_⟩
    obtain ⟨j, rfl⟩ : ∃ j', j = j' + 1 := ⟨j - 1, by omega⟩
    apply repeatWhile_eq_value.mpr
    exact .inl (round_eq_false.mpr (.inr ⟨_, hn k (by omega), hn' k (by omega)⟩))
  | again hgoes hbody hpost _ ih =>
    obtain ⟨-, n, hn⟩ := hgoes
    obtain ⟨-, n₁, hn₁⟩ := hbody
    obtain ⟨-, n₂, hn₂⟩ := hpost
    obtain ⟨n₃, hrest⟩ := ih
    refine ⟨n + n₁ + n₂ + n₃ + 1, fun k j hk hj => ?_⟩
    obtain ⟨j, rfl⟩ : ∃ j', j = j' + 1 := ⟨j - 1, by omega⟩
    have hround := round_eq_true.mpr
      ⟨_, hn k (by omega), _, hn₁ k (by omega), hn₂ k (by omega)⟩
    exact repeatWhile_eq_value.mpr (.inr ⟨_, hround, hrest k j (by omega) (by omega)⟩)

/-- Rounds that end make a run. -/
theorem exists_loopRuns_of_repeatWhile {k j : Nat}
    (h : Eval.repeatWhile ((evaluator k).round label cond post body) j m = .value () m') :
    ∃ bodies posts, LoopRuns label cond post body m bodies posts m' := by
  have hgoesOn : ∀ {p q b}, (evaluator k).goesOn cond p = .value b q →
      Settles (fun n => (evaluator n).goesOn cond) p (.value b q) :=
    fun hrun => (steady_goesOn cond).settles hrun (by simp)
  have hloopBody : ∀ {p q b}, (evaluator k).loopBody label body p = .value b q →
      Settles (fun n => (evaluator n).loopBody label body) p (.value b q) :=
    fun hrun => (steady_loopBody label body).settles hrun (by simp)
  induction j generalizing m with
  | zero => cases h
  | succ j ih =>
    rcases repeatWhile_eq_value.mp h with hlast | ⟨m₃, hround, hrest⟩
    · rcases round_eq_false.mp hlast with hstop | ⟨m₁, hgoes, hleave⟩
      · exact ⟨[], [], .stop (hgoesOn hstop)⟩
      · exact ⟨[m₁], [], .leave (hgoesOn hgoes) (hloopBody hleave)⟩
    · obtain ⟨m₁, hgoes, m₂, hbody, hpost⟩ := round_eq_true.mp hround
      obtain ⟨bodies, posts, hruns⟩ := ih hrest
      exact ⟨m₁ :: bodies, m₂ :: posts, .again (hgoesOn hgoes) (hloopBody hbody)
        ((steady_optional post).settles hpost (by simp)) hruns⟩

/-- **A loop ends normally exactly if it runs.** Its own frame is left then, and its first statement
ended normally before. -/
theorem settles_loop_iff {s : Span} :
    Settles (fun n => (evaluator n).stmt label (.loop s first cond post body)) m (.value .void m') ↔
      ∃ m₁ bodies posts m₂,
        Settles (fun n => (evaluator n).optional first) m.opened (.value () m₁) ∧
        LoopRuns label cond post body m₁ bodies posts m₂ ∧ m' = m₂.closed := by
  have hrun : ∀ n,
      (evaluator (n + 1)).stmt label (.loop s first cond post body) m = .value .void m' ↔
      ∃ m₂, (∃ u m₁, (evaluator n).optional first m.opened = .value u m₁ ∧
        Eval.repeatWhile ((evaluator n).round label cond post body) n m₁ = .value () m₂) ∧
        m' = m₂.closed := by
    intro n
    rw [evaluator_stmt, mapExit_eq_value, stmtForm, effect_eq_value, loop, inFrame_eq_value]
    simp only [Eval.bind_eq_value]
  constructor
  · rintro ⟨-, n, hn⟩
    obtain ⟨m₂, ⟨_, m₁, hfirst, hrounds⟩, rfl⟩ := (hrun n).mp (hn (n + 1) (Nat.le_succ n))
    obtain ⟨bodies, posts, hruns⟩ := exists_loopRuns_of_repeatWhile hrounds
    exact ⟨m₁, bodies, posts, m₂, (steady_optional first).settles hfirst (by simp), hruns, rfl⟩
  · rintro ⟨m₁, bodies, posts, m₂, ⟨_, n, hfirst⟩, hruns, rfl⟩
    obtain ⟨n', hrounds⟩ := hruns.exists_repeatWhile
    refine (steady_stmt label _).settles (n := max n n' + 1) ((hrun _).mpr ?_) (by simp)
    exact ⟨m₂, ⟨(), m₁, hfirst _ (Nat.le_max_left ..),
      hrounds _ _ (Nat.le_max_right ..) (Nat.le_max_right ..)⟩, rfl⟩

end LoopRuns

end ScriptEngine
