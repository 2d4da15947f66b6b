import ScriptEngine.Proofs.Eval.Soundness

/-!
Evaluation and the context it runs in.

Blocks, conditions, loops, switches, calls and constant blocks each enter a frame, a call or an
ordinal. Whatever is entered is left again on every way out (`Evolves.context_eq`), and evaluation
does nothing to a machine that is not such an evolution (`Policy.governs`). So the context after an
evaluation is the context before it: `evaluation_restores_context`.
-/

namespace ScriptEngine

/-- However `x` ends from `m`, it leaves the machine in the context of `m`. -/
def Eval.Restores {ε α : Type} (x : Eval ε α) (m : Machine) : Prop :=
  x.Ends m (fun _ m' => m'.context = m.context) fun _ m' => m'.context = m.context

theorem Policy.Keeps.restores {π : Policy} {binds : Bool} {ε α : Type} {V : α → Prop} {X : ε → Prop}
    {x : Eval ε α} (h : π.Keeps binds x V X) {m : Machine} (hm : π.Holds m) : x.Restores m := by
  apply (h m hm).mono
  · exact fun _ _ ⟨hm', _⟩ => hm'.context_eq
  · exact fun _ _ ⟨hm', _⟩ => hm'.context_eq

/-- **Evaluation restores the context on every outcome.** From every machine, however the evaluation
of a statement, an expression or a call ends, with a value, a jump or an error, the current frames,
the live calls and the ordinal of constants are what they were. -/
theorem evaluation_restores_context (budget : Nat) (m : Machine) :
    (∀ label s, ((evaluator budget).stmt label s).Restores m) ∧
      (∀ e, (evalExpr budget e).Restores m) ∧
      ∀ callee args name span, (callValue budget callee args name span).Restores m := by
  have h := Policy.any.governs budget
  have hm := Policy.holds_any m
  refine ⟨fun label s => ?_, fun e => ?_, fun callee args name span => ?_⟩
  · exact (h.stmt label fun _ _ => trivial).restores hm
  · exact (h.expr fun _ _ => trivial).restores hm
  · exact (h.callValue trivial fun _ _ => trivial).restores hm

end ScriptEngine
