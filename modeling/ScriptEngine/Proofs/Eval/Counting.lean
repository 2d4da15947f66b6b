import ScriptEngine.Proofs.Eval.Context
import ScriptEngine.Proofs.Eval.Loops
import ScriptEngine.Proofs.Eval.Results

/-!
Counting loops.

`for x := a; x < b; x++ body` counts in a frame of its own, which only the body and what the body
calls can reach. If no evaluation of the body touches that binding, the loop counts as its bounds
say, up to the limits of integers: the condition holds before every increment, so none wraps around.
Main statement: `counting_runs`.
-/

namespace ScriptEngine

open Evaluator

/-! ### Counting -/

/-- `x < b`. -/
def countCondition (place : Nat → Span) (x : String) (b : Int64) : Expr :=
  .binary (place 3) .lt (.ident (place 4) x) (.int (place 5) b)

/-- `x++`. -/
def countStep (place : Nat → Span) (x : String) : Stmt :=
  .incDec (place 6) x true

/-- `for x := a; x < b; x++ body`; the nodes of the loop itself have any places. -/
def Stmt.counting (place : Nat → Span) (x : String) (a b : Int64) (body : Stmt) : Stmt :=
  .loop (place 0) (some (.define (place 1) [x] [.int (place 2) a]))
    (some (countCondition place x b)) (some (countStep place x)) body

/-- The machine in which the counting starts: the loop's own frame binds `x` to `a`. -/
def Machine.counting (m : Machine) (x : String) (a : Int64) : Machine :=
  { m.opened with frames := m.opened.frames.define m.opened.env.current x ⟨.int a, .mutable⟩ }

/-- The evaluation of the body from `p` ends normally or in an unlabeled `continue`, and leaves what
the frame `id` binds `x` to. -/
def KeepsCount (body : Stmt) (id : FrameId) (x : String) (p : Machine) : Prop :=
  ∃ q, ((∃ v, Settles (evalStmt · body) p (.value v q)) ∨
    Settles (evalStmt · body) p (.exit (.nextRound none) q)) ∧
    q.frames.binding? id x = p.frames.binding? id x

/-- The evaluation of the body from `p` ends in an unlabeled `break`. -/
def Breaks (body : Stmt) (p : Machine) : Prop :=
  ∃ q, Settles (evalStmt · body) p (.exit (.leaveLoop none) q)

/-- The frame `id` is current and binds `x` to the integer `v`. -/
structure AtCount (id : FrameId) (x : String) (v : Int64) (p : Machine) : Prop where
  current : p.env.current = id
  bound : p.frames.binding? id x = some ⟨.int v, .mutable⟩

section Counting

variable {label : Option String} {x : String} {a b v : Int64} {body : Stmt} {id : FrameId}
  {m p q : Machine}

/-- What counts does not break. -/
theorem KeepsCount.not_breaks (h : KeepsCount body id x p) : ¬ Breaks body p := by
  rintro ⟨q', hq'⟩
  obtain ⟨q, ⟨v, hv⟩ | hq, -⟩ := h
  · cases hv.unique hq'
  · cases hq.unique hq'

/-! ### The parts of a round -/

theorem AtCount.identifier (h : AtCount id x v p) (hx : isReserved x = false) :
    Eval.identifier x p = .value (.int v) p :=
  identifier_of_binding? hx (h.current ▸ h.bound)

theorem AtCount.goesOn (h : AtCount id x v p) (hx : isReserved x = false) (place : Nat → Span)
    (b : Int64) :
    Settles (fun n => (evaluator n).goesOn (some (countCondition place x b))) p
      (.value (decide (v < b)) p) := by
  refine ⟨by simp, 2, fun k hk => ?_⟩
  obtain ⟨k, rfl⟩ : ∃ k', k = k' + 2 := ⟨k - 2, by omega⟩
  have hident : (evaluator (k + 1)).expr (.ident (place 4) x) p = .value (.int v) p := by
    rw [evaluator_expr, mapExit_eq_value]
    exact h.identifier hx
  have hbound : (evaluator (k + 1)).expr (.int (place 5) b) p = .value (.int b) p := by
    rw [evaluator_expr, mapExit_eq_value]
    rfl
  have hcond : (evaluator (k + 2)).expr (countCondition place x b) p =
      .value (.bool (decide (v < b))) p := by
    rw [evaluator_expr, mapExit_eq_value, countCondition, exprForm, binary, Eval.bind_eq_value]
    refine ⟨_, _, hident, ?_⟩
    rw [if_neg (by decide), Eval.bind_eq_value]
    exact ⟨_, _, hbound, rfl⟩
  simp only [Evaluator.goesOn, condition, Eval.asStmt, mapExit_eq_value, Eval.bind_eq_value]
  exact ⟨_, _, hcond, rfl⟩

/-- The context of the body is back after it. -/
theorem env_of_settles {r : Run Exit Value} (h : Settles (evalStmt · body) p r) :
    (∀ v q, r = .value v q → q.env = p.env) ∧ ∀ e q, r = .exit e q → q.env = p.env := by
  obtain ⟨-, n, hn⟩ := h
  have hends := ((Policy.any.governs n).stmt none (s := body) fun _ _ => trivial).restores
    (Policy.holds_any p)
  rw [Eval.Restores, Eval.Ends, show (evaluator n).stmt none body p = r from hn n (Nat.le_refl n)]
    at hends
  constructor
  · rintro v q rfl
    exact congrArg (·.env) hends
  · rintro e q rfl
    exact congrArg (·.env) hends

theorem KeepsCount.loopBody (h : KeepsCount body id x p) (hp : AtCount id x v p)
    (label : Option String) :
    ∃ q, Settles (fun n => (evaluator n).loopBody label body) p (.value true q) ∧
      AtCount id x v q := by
  obtain ⟨q, hq, hbound⟩ := h
  have hsettles : ∃ r, Settles (evalStmt · body) p r ∧ (∀ n, evalStmt n body p = r →
      (evaluator n).loopBody label body p = .value true q) ∧ q.env = p.env := by
    rcases hq with ⟨v, hv⟩ | hcontinue
    · refine ⟨_, hv, fun n hn => ?_, (env_of_settles hv).1 v q rfl⟩
      have hrun : (evaluator n).stmt none body p = _ := hn
      simp only [Evaluator.loopBody, Eval.handle, bind, Eval.bind, hrun]
      rfl
    · refine ⟨_, hcontinue, fun n hn => ?_, (env_of_settles hcontinue).2 _ q rfl⟩
      have hrun : (evaluator n).stmt none body p = _ := hn
      simp only [Evaluator.loopBody, Eval.handle, bind, Eval.bind, hrun]
      rfl
  obtain ⟨r, ⟨-, n, hn⟩, hbody, henv⟩ := hsettles
  refine ⟨q, ⟨by simp, n, fun k hk => hbody k (hn k hk)⟩, ?_, hbound.trans hp.bound⟩
  rw [henv, hp.current]

theorem Breaks.loopBody (h : Breaks body p) (label : Option String) :
    ∃ q, Settles (fun n => (evaluator n).loopBody label body) p (.value false q) := by
  obtain ⟨q, -, n, hn⟩ := h
  refine ⟨q, by simp, n, fun k hk => ?_⟩
  have hbody : (evaluator k).stmt none body p = _ := hn k hk
  simp only [Evaluator.loopBody, Eval.handle, bind, Eval.bind, hbody]
  rfl

/-- The increment counts on. -/
theorem AtCount.step (h : AtCount id x v p) (hx : isReserved x = false) (place : Nat → Span) :
    ∃ q, Settles (fun n => (evaluator n).optional (some (countStep place x))) p (.value () q) ∧
      AtCount id x (v + 1) q := by
  obtain ⟨f, hf, hb⟩ := Option.bind_eq_some_iff.mp h.bound
  have hassign : Eval.assignName x (.int (v + 1)) p =
      .value () { p with frames := p.frames.define id x ⟨.int (v + 1), .mutable⟩ } := by
    have hresolve : p.frames.resolve id x = some (id, ⟨.int v, .mutable⟩) := by
      rw [Frames.resolve_of_get? hf, hb]
    simp only [Eval.assignName, Environment.assign, hx, h.current, Frames.assign, hresolve,
      Bool.false_eq_true, if_false]
  refine ⟨{ p with frames := p.frames.define id x ⟨.int (v + 1), .mutable⟩ },
    ⟨by simp, 1, fun k hk => ?_⟩, h.current, ?_⟩
  · obtain ⟨k, rfl⟩ : ∃ k', k = k' + 1 := ⟨k - 1, by omega⟩
    apply Eval.bind_eq_value.mpr
    refine ⟨.void, _, ?_, rfl⟩
    rw [evaluator_stmt, mapExit_eq_value, countStep, stmtForm, effect_eq_value, Eval.asStmt,
      mapExit_eq_value, incDec]
    simp only [Eval.bind_eq_value]
    exact ⟨_, _, h.identifier hx, _, _, rfl, hassign⟩
  · exact Frames.binding?_define_self (Frames.lt_size_of_binding? h.bound)

/-- Below a bound, an increment does not wrap around. -/
theorem toInt_add_one (h : v < b) : (v + 1).toInt = v.toInt + 1 := by
  have hlt := Int64.lt_iff_toInt_lt.mp h
  have hb := b.toInt_lt
  have hv := v.le_toInt
  rw [Int64.toInt_add, show (1 : Int64).toInt = 1 from rfl]
  apply Int.bmod_eq_of_le <;> omega

end Counting

/-! ### Counting up -/

/-- The loop ran its body in the machines `bodies` and its increment in the machines `posts` while
it counted from `v` up to `b`. -/
structure CountsUp (body : Stmt) (x : String) (v b : Int64) (bodies posts : List Machine) :
    Prop where
  /-- The body reads the numbers from `v` on, in turn. -/
  reads : ∀ (j : Nat) (p : Machine), bodies[j]? = some p →
    ∃ w : Int64, w.toInt = v.toInt + j ∧ Eval.identifier x p = .value (.int w) p
  bounded : bodies.length ≤ (b.toInt - v.toInt).toNat
  /-- Unless the body breaks, it runs as often as there are numbers from `v` below `b`. -/
  unbroken : (∀ p ∈ bodies, ¬ Breaks body p) →
    bodies.length = (b.toInt - v.toInt).toNat ∧ posts.length = (b.toInt - v.toInt).toNat
  /-- An evaluation of the body that breaks is the last one, without an increment. -/
  broken : ∀ (k : Nat) (p : Machine), bodies[k]? = some p → Breaks body p →
    bodies.length = k + 1 ∧ posts.length = k

section CountsUp

variable {label : Option String} {place : Nat → Span} {x : String} {v b : Int64} {body : Stmt}
  {id : FrameId} {m p q : Machine} {bodies posts : List Machine}

theorem CountsUp.stop (h : ¬ v < b) : CountsUp body x v b [] [] where
  reads := by simp
  bounded := Nat.zero_le _
  unbroken _ := by
    have hle : ¬ v.toInt < b.toInt := fun hlt => h (Int64.lt_iff_toInt_lt.mpr hlt)
    constructor <;> simp only [List.length_nil] <;> omega
  broken := by simp

theorem CountsUp.leave (h : v < b) (hread : Eval.identifier x p = .value (.int v) p)
    (hp : Breaks body p) : CountsUp body x v b [p] [] where
  reads := by
    intro j p' hj
    obtain ⟨rfl, rfl⟩ : j = 0 ∧ p = p' := by simpa [List.getElem?_singleton] using hj
    exact ⟨v, by simp, hread⟩
  bounded := by
    have hlt := Int64.lt_iff_toInt_lt.mp h
    simp only [List.length_singleton]
    omega
  unbroken hnone := absurd hp (hnone p (List.mem_singleton_self p))
  broken := by
    intro k p' hk _
    obtain ⟨rfl, -⟩ : k = 0 ∧ p = p' := by simpa [List.getElem?_singleton] using hk
    exact ⟨rfl, rfl⟩

theorem CountsUp.again (h : v < b) (hread : Eval.identifier x p = .value (.int v) p)
    (hp : ¬ Breaks body p) (hrest : CountsUp body x (v + 1) b bodies posts) :
    CountsUp body x v b (p :: bodies) (q :: posts) where
  reads := by
    intro j p' hj
    cases j with
    | zero =>
      cases hj
      exact ⟨v, by simp, hread⟩
    | succ j =>
      obtain ⟨w, hw, hread'⟩ := hrest.reads j p' (by simpa using hj)
      refine ⟨w, ?_, hread'⟩
      rw [hw, toInt_add_one h]
      omega
  bounded := by
    have hbounded := hrest.bounded
    have hlt := Int64.lt_iff_toInt_lt.mp h
    rw [toInt_add_one h] at hbounded
    simp only [List.length_cons]
    omega
  unbroken hnone := by
    have hlt := Int64.lt_iff_toInt_lt.mp h
    obtain ⟨hbodies, hposts⟩ := hrest.unbroken fun p' hp' => hnone p' (List.mem_cons_of_mem _ hp')
    rw [toInt_add_one h] at hbodies hposts
    simp only [List.length_cons]
    omega
  broken := by
    intro k p' hk hbreaks
    cases k with
    | zero =>
      cases hk
      exact absurd hbreaks hp
    | succ k =>
      obtain ⟨hbodies, hposts⟩ := hrest.broken k p' (by simpa using hk) hbreaks
      simp only [List.length_cons, hbodies, hposts, and_self]

/-- The loop counts up from wherever it stands. The induction is on the numbers that are left. -/
theorem AtCount.exists_loopRuns (hm : AtCount id x v m) (hx : isReserved x = false)
    (hbody : ∀ p, LoopReaches label (some (countCondition place x b)) (some (countStep place x))
      body m p → KeepsCount body id x p ∨ Breaks body p) :
    ∃ bodies posts m',
      LoopRuns label (some (countCondition place x b)) (some (countStep place x)) body
        m bodies posts m' ∧ CountsUp body x v b bodies posts := by
  obtain ⟨k, hk⟩ : ∃ k, k = (b.toInt - v.toInt).toNat := ⟨_, rfl⟩
  induction k generalizing v m with
  | zero =>
    have hge : ¬ v < b := by
      rw [Int64.lt_iff_toInt_lt]
      omega
    have hstop := hm.goesOn hx place b
    rw [decide_eq_false hge] at hstop
    exact ⟨[], [], m, .stop hstop, .stop hge⟩
  | succ k ih =>
    have hlt : v < b := by
      rw [Int64.lt_iff_toInt_lt]
      omega
    have hgoes := hm.goesOn hx place b
    rw [decide_eq_true hlt] at hgoes
    have hread := hm.identifier hx
    rcases hbody m (.here hgoes) with hcounts | hbreaks
    · obtain ⟨q, hagain, hq⟩ := hcounts.loopBody hm label
      obtain ⟨m₃, hstep, hm₃⟩ := hq.step hx place
      obtain ⟨bodies, posts, m', hruns, hup⟩ := ih hm₃
        (fun p hp => hbody p (.later hgoes hagain hstep hp)) (by rw [toInt_add_one hlt]; omega)
      exact ⟨m :: bodies, q :: posts, m', .again hgoes hagain hstep hruns,
        .again hlt hread hcounts.not_breaks hup⟩
    · obtain ⟨q, hleave⟩ := hbreaks.loopBody label
      exact ⟨[m], [], q, .leave hgoes hleave, .leave hlt hread hbreaks⟩

end CountsUp

/-- The counting starts in the loop's own frame. -/
theorem atCount_counting (m : Machine) (x : String) (a : Int64) :
    AtCount m.frames.next x a (m.counting x a) where
  current := rfl
  bound := Frames.binding?_define_self (by
    change m.frames.size < (m.frames.grow _).size
    rw [Frames.size_grow]
    exact Nat.lt_succ_self _)

/-- `x := a`, in the loop's own frame. -/
theorem settles_countStart {x : String} (hx : isReserved x = false) (hblank : x ≠ blank)
    (s s' : Span) (a : Int64) (m : Machine) :
    Settles (fun n => (evaluator n).optional (some (.define s [x] [.int s' a]))) m.opened
      (.value () (m.counting x a)) := by
  refine ⟨by simp, 2, fun k hk => ?_⟩
  obtain ⟨k, rfl⟩ : ∃ k', k = k' + 2 := ⟨k - 2, by omega⟩
  have hint : evalExpr (k + 1) (.int s' a) m.opened = .value (.int a) m.opened := by
    rw [evalExpr, evaluator_expr, mapExit_eq_value]
    rfl
  have hdefine : evalStmt (k + 2) (.define s [x] [.int s' a]) m.opened =
      .value .void (m.counting x a) := by
    have hlen : (Value.int a).results.length = [x].length := rfl
    rw [evalStmt_define hint, if_pos hlen, Value.results_of_isSingle rfl, mapExit_eq_value,
      effect_eq_value, Eval.asStmt, mapExit_eq_value]
    simp only [eachPair, bindUnlessBlank, if_neg hblank, Eval.bind_eq_value]
    exact ⟨(), _, bindName_of_unreserved hx _, rfl⟩
  exact Eval.bind_eq_value.mpr ⟨_, _, hdefine, rfl⟩

/-- **A counting loop runs exactly as often as its bounds say.** From every machine, for all
integers `a` and `b` and every name that can be bound: if each evaluation of the body that the loop
comes to ends normally or in an unlabeled `continue` and leaves the loop's own binding as it is, or
ends in an unlabeled `break`, then the loop ends normally, and from `a` on counts up to `b`. -/
theorem counting_runs {x : String} (hx : isReserved x = false) (hblank : x ≠ blank)
    (place : Nat → Span) (a b : Int64) (body : Stmt) (label : Option String) (m : Machine)
    (hbody : ∀ p, LoopReaches label (some (countCondition place x b)) (some (countStep place x))
      body (m.counting x a) p → KeepsCount body m.frames.next x p ∨ Breaks body p) :
    ∃ bodies posts m',
      LoopRuns label (some (countCondition place x b)) (some (countStep place x)) body
        (m.counting x a) bodies posts m' ∧
      Settles (fun n => (evaluator n).stmt label (.counting place x a b body)) m
        (.value .void m'.closed) ∧
      CountsUp body x a b bodies posts := by
  obtain ⟨bodies, posts, m', hruns, hup⟩ := (atCount_counting m x a).exists_loopRuns hx hbody
  refine ⟨bodies, posts, m', hruns, ?_, hup⟩
  exact settles_loop_iff.mpr
    ⟨_, bodies, posts, m', settles_countStart hx hblank _ _ a m, hruns, rfl⟩

/-- A jump ends at once, whatever the machine. -/
theorem settles_jump {s : Span} {kind : Jump} {label : Option String} {p : Machine} {x : Exit}
    (h : jump kind label p = .exit x p) (hx : x.locate s = x) :
    Settles (evalStmt · (.jump s kind label)) p (.exit x p) := by
  refine (steady_evalStmt _).settles (n := 1) ?_ (by simp)
  rw [evalStmt, evaluator_stmt]
  simp only [stmtForm, Eval.mapExit, Eval.handle, h, Stmt.span, hx]
  rfl

/-- From the third last integer, two numbers are left below the last one; `continue` goes through
both, and `break` stops at the first. -/
theorem counting_runs_nearLimit :
    isReserved "i" = false ∧ "i" ≠ blank ∧
    (∃ bodies posts m',
      LoopRuns none (some (countCondition (fun _ => default) "i" 9223372036854775807))
        (some (countStep (fun _ => default) "i")) (.jump default .nextRound none)
        (inPackage.counting "i" 9223372036854775805) bodies posts m' ∧
      bodies.length = 2 ∧ posts.length = 2) ∧
    ∃ bodies posts m',
      LoopRuns none (some (countCondition (fun _ => default) "i" 9223372036854775807))
        (some (countStep (fun _ => default) "i")) (.jump default .leaveLoop none)
        (inPackage.counting "i" 9223372036854775805) bodies posts m' ∧
      bodies.length = 1 ∧ posts.length = 0 := by
  have hcounts : ∀ p, KeepsCount (.jump default .nextRound none) inPackage.frames.next "i" p :=
    fun p => ⟨p, .inr (settles_jump rfl rfl), rfl⟩
  have hbreaks : ∀ p, Breaks (.jump default .leaveLoop none) p :=
    fun p => ⟨p, settles_jump rfl rfl⟩
  refine ⟨by decide, by decide, ?_, ?_⟩
  · obtain ⟨bodies, posts, m', hruns, -, hup⟩ := counting_runs (x := "i") (by decide) (by decide)
      (fun _ => default) 9223372036854775805 9223372036854775807 (.jump default .nextRound none)
      none inPackage fun p _ => .inl (hcounts p)
    exact ⟨bodies, posts, m', hruns, hup.unbroken fun p _ => (hcounts p).not_breaks⟩
  · obtain ⟨bodies, posts, m', hruns, -, hup⟩ := counting_runs (x := "i") (by decide) (by decide)
      (fun _ => default) 9223372036854775805 9223372036854775807 (.jump default .leaveLoop none)
      none inPackage fun p _ => .inr (hbreaks p)
    cases bodies with
    | nil => exact absurd (hup.unbroken (by simp)).1 (by decide)
    | cons p rest => exact ⟨p :: rest, posts, m', hruns, hup.broken 0 p rfl (hbreaks p)⟩

end ScriptEngine
