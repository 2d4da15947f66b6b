import ScriptEngine.Decimal.Shortest

/-!
The written form of a double: its shortest decimal, always in positional notation. A whole number
has no point, a zero keeps its sign, and the numbers that are not finite have names.
-/

namespace ScriptEngine.Decimal

/-- The decimal digits of a natural number. -/
def natText (n : Nat) : String :=
  String.ofList (Nat.toDigits 10 n)

/-- Drops trailing zeros of the digits, raising the exponent; `fuel` bounds how many. -/
def Digits.trim : Nat → Digits → Digits
  | 0, d => d
  | fuel + 1, d =>
    if d.digits % 10 = 0 ∧ d.digits ≠ 0 then trim fuel ⟨d.digits / 10, d.exponent + 1⟩ else d

/-- The digits with the point where it belongs. -/
def Digits.positional (d : Digits) : String :=
  let text := natText d.digits
  if 0 ≤ d.exponent then
    text ++ String.ofList (List.replicate d.exponent.toNat '0')
  else
    let places := (-d.exponent).toNat
    let padded := List.replicate (places + 1 - text.length) '0' ++ text.toList
    let whole := padded.length - places
    String.ofList (padded.take whole) ++ "." ++ String.ofList (padded.drop whole)

/-- The parts of a double: sign, biased exponent and fraction. -/
structure Parts where
  negative : Bool
  biased : Nat
  fraction : Nat
  deriving DecidableEq, Repr

/-- The parts that the bits of a double hold. -/
def Parts.ofBits (bits : UInt64) : Parts where
  negative := bits >>> 63 == 1
  biased := ((bits >>> 52) &&& 0x7ff).toNat
  fraction := (bits &&& 0xfffffffffffff).toNat

/-- The interval of a finite double other than zero. -/
def Parts.interval (p : Parts) : Interval :=
  if p.biased = 0 then
    .ofBinary p.fraction (-1074) false
  else
    .ofBinary (p.fraction + Nat.pow 2 52) (p.biased - 1075) (p.fraction = 0 && p.biased > 1)

/-- The text of a double given by its parts. -/
def Parts.text (p : Parts) : String :=
  let sign := if p.negative then "-" else ""
  if p.biased = 2047 then
    if p.fraction = 0 then sign ++ "inf" else "NaN"
  else if p.biased = 0 ∧ p.fraction = 0 then
    sign ++ "0"
  else
    sign ++ (p.interval.shortest.trim 20).positional

/-- The text of a double. -/
def floatText (x : Float) : String :=
  (Parts.ofBits x.toBits).text

example : (Parts.ofBits 0x3fb999999999999a).text = "0.1" := by decide +kernel
example : (Parts.ofBits 0x444b1ae4d6e2ef50).text = "1000000000000000000000" := by decide +kernel
example : (Parts.ofBits 0x8000000000000000).text = "-0" := by decide +kernel
example : (Parts.ofBits 0x3e60000000000000).text = "0.000000029802322387695313" := by decide +kernel

end ScriptEngine.Decimal
