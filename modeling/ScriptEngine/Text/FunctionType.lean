/-!
The written form of a function type: `func(A, B) C` for one result, `func(A, B) (C, D)` for several,
and `...T` for the last parameter of a variadic function. Declared and runtime signatures share it.
-/

namespace ScriptEngine.Text

variable {α β : Type}

/-- The last parameter of a variadic function, whose slice is written as `elem`. -/
def restText (elem : String) : String :=
  "..." ++ elem

/-- The texts of the parameters. Of a variadic function the last one is written by `rest`. -/
def paramTexts (variadic : Bool) (one rest : α → β) : List α → List β
  | [] => []
  | [p] => [if variadic then rest p else one p]
  | p :: q :: ps => one p :: paramTexts variadic one rest (q :: ps)

/-- The texts depend on those of the parameters alone. -/
theorem paramTexts_congr {variadic : Bool} {one one' rest rest' : α → β}
    {ps : List α} (hone : ∀ p ∈ ps, one p = one' p) (hrest : ∀ p ∈ ps, rest p = rest' p) :
    paramTexts variadic one rest ps = paramTexts variadic one' rest' ps := by
  induction ps with
  | nil => rfl
  | cons p ps ih =>
    cases ps with
    | nil => rw [paramTexts, paramTexts, hone p (by simp), hrest p (by simp)]
    | cons q ps =>
      rw [paramTexts, paramTexts, hone p (by simp), ih]
      · exact fun x hx => hone x (List.mem_cons_of_mem _ hx)
      · exact fun x hx => hrest x (List.mem_cons_of_mem _ hx)

/-- The results, with the blank before them: nothing, one text, or a list in brackets. -/
def resultText : List String → String
  | [] => ""
  | [r] => " " ++ r
  | rs => " (" ++ String.intercalate ", " rs ++ ")"

/-- Parameters and results, without the leading keyword. -/
def signatureText (params results : List String) : String :=
  "(" ++ String.intercalate ", " params ++ ")" ++ resultText results

/-- Members between braces, as structs and interfaces list them. -/
def bodyText (keyword : String) (members : List String) : String :=
  keyword ++ "\x7b" ++ String.intercalate "; " members ++ "\x7d"

end ScriptEngine.Text
