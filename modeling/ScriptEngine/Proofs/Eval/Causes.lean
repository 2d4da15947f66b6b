import ScriptEngine.Proofs.Eval.Policy

/-!
Causes of failure by where they arise. The operations on values and names fail with causes of their
own (`Cause.isLocal`): no operation reports a jump out of its place, or the limit on calls.
-/

namespace ScriptEngine

/-- A cause that is found on the spot: neither a jump out of its place nor the limit on calls. -/
def Cause.isLocal : Cause → Bool
  | .breakOutsideLoop | .continueOutsideLoop | .returnOutsideFunction | .stackOverflow _ => false
  | _ => true

/-- A cause that reports the limit on calls. -/
def Cause.isOverflow : Cause → Bool
  | .stackOverflow _ => true
  | _ => false

variable {c : Cause}

theorem Cause.isJump_of_isLocal (h : c.isLocal = true) : c.isJump = false := by
  cases c <;> first | rfl | cases h

theorem Cause.isOverflow_of_isLocal (h : c.isLocal = true) : c.isOverflow = false := by
  cases c <;> first | rfl | cases h

/-! ### Operations -/

theorem BinaryOp.isLocal_of_apply {op : BinaryOp} {left right : Value}
    (h : op.apply left right = .error c) : c.isLocal = true := by
  unfold apply at h
  split at h
  · cases op <;> simp only [onInts] at h <;> (try split at h) <;> cases h <;> rfl
  · cases op <;> cases h <;> rfl
  · cases op <;> cases h <;> rfl
  · cases op <;> cases h <;> rfl
  · split at h
    · cases op <;> cases h <;> rfl
    · cases h
      rfl

theorem UnaryOp.isLocal_of_apply {op : UnaryOp} {operand : Value}
    (h : op.apply operand = .error c) : c.isLocal = true := by
  unfold apply at h
  split at h <;> cases h <;> rfl

theorem Value.isLocal_of_step {increment : Bool} {operand : Value}
    (h : operand.step increment = .error c) : c.isLocal = true := by
  unfold step at h
  split at h <;> cases h
  rfl

theorem Evaluator.isLocal_of_follow {name : String} {path : List Nat} {recv : Value}
    (h : follow name path recv = .error c) : c.isLocal = true := by
  fun_induction follow name path recv with
  | case1 => cases h
  | case2 _ _ _ _ _ _ ih => exact ih h
  | case3 | case4 =>
    cases h
    rfl

theorem Environment.isLocal_of_identifier {env : Environment} {fs : Frames} {iota : Option Int64}
    {name : String} (h : env.identifier fs iota name = .error c) : c.isLocal = true := by
  simp only [identifier] at h
  split at h <;> cases h
  rfl

theorem BindError.isLocal_cause (e : BindError) (name : String) :
    (e.cause name).isLocal = true := by
  cases e <;> rfl

end ScriptEngine
