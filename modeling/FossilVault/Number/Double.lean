import FossilVault.Number.Nearest
/-
**Doubles, exactly.** A finite double is a sign, a natural number and a power of two. The texts of a
double are made from these three in exact arithmetic:

* `Parts.ofFloat` — the three parts of a double;
* `Parts.twoPlaces` — the text with two places after the point, a half to the even neighbour;
* `Parts.shortest` — the fewest decimal digits that read back as the same double.
-/

namespace FossilVault.Number

/-- A finite double: `mantissa * 2 ^ (scale - 1074)`, negated when `negative`. -/
structure Parts where
  negative : Bool
  mantissa : Nat
  scale : Nat
  deriving DecidableEq, Repr

/-- The parts of a finite double, nothing for an infinity or a value that is no number. -/
def Parts.ofFloat (x : Float) : Option Parts :=
  let bits := x.toBits.toNat
  let negative := bits / Nat.pow 2 63 == 1
  let exponent := bits / Nat.pow 2 52 % Nat.pow 2 11
  let fraction := bits % Nat.pow 2 52
  if exponent == 2047 then none
  else if exponent == 0 then some ⟨negative, fraction, 0⟩
  else some ⟨negative, fraction + Nat.pow 2 52, exponent - 1⟩

/-- The magnitude in units of `2 ^ -1074`. -/
def Parts.units (x : Parts) : Nat :=
  x.mantissa * Nat.pow 2 x.scale

/-- How many units of `2 ^ -1074` make one. -/
def unitsPerOne : Nat := Nat.pow 2 1074

/-- The text of an infinity or of a value that is no number. -/
def unboundedText (x : Float) : String :=
  if x.isNaN then "nan" else if x < 0 then "-inf" else "inf"

/-- The integer part and the two places after the point. -/
def Parts.twoPlaces (x : Parts) : String :=
  let hundredths := roundHalfEven (x.units * 100) unitsPerOne
  let cents := hundredths % 100
  (if x.negative then "-" else "") ++ toString (hundredths / 100) ++ "." ++
    (if cents < 10 then "0" else "") ++ toString cents

/-- The text of a double with two places after the point. -/
def twoPlaces (x : Float) : String :=
  match Parts.ofFloat x with
  | some parts => parts.twoPlaces
  | none => unboundedText x

/-! ### The fewest digits -/

/-- A decimal `digits * 10 ^ (exponent - count + 1)` of `count` digits: the first digit has the place
`10 ^ exponent`. -/
structure Decimal where
  digits : Nat
  count : Nat
  exponent : Int
  deriving DecidableEq, Repr

/-- The place of the first decimal digit of the positive quotient `num / den`, when that is below one:
the count of tenfold steps until it is not. -/
def stepsToOne (num den : Nat) : Nat → Nat
  | 0 => 0
  | fuel + 1 => if den ≤ num then 0 else stepsToOne (num * 10) den fuel + 1

/-- The place of the first decimal digit of a positive quotient. -/
def firstPlace (num den : Nat) : Int :=
  if den ≤ num then (toString (num / den)).length - 1
  else -(stepsToOne num den 400 : Int)

/-- The bounds between which every decimal reads back as `x`, in quarters of `2 ^ -1074`. -/
def Parts.bounds (x : Parts) : Nat × Nat :=
  let below := if x.mantissa == Nat.pow 2 52 && x.scale != 0 then 1 else 2
  ((4 * x.mantissa - below) * Nat.pow 2 x.scale, (4 * x.mantissa + 2) * Nat.pow 2 x.scale)

/-- The nearest decimal of `count` digits to `x`, if it reads back as `x`: of the two neighbours of `x`
on that grid the one inside the bounds, of two the nearer, and of two equally near the even one. -/
def Parts.decimal? (x : Parts) (place : Int) (count : Nat) : Option Decimal :=
  let grid : Int := place - count + 1
  let up := Nat.pow 10 (-grid).toNat
  let down := Nat.pow 10 grid.toNat
  let den := 4 * unitsPerOne * down
  let value := 4 * x.units * up
  let low := x.bounds.1 * up
  let high := x.bounds.2 * up
  let inside := fun (n : Nat) =>
    if x.mantissa % 2 == 0 then low ≤ n * den && n * den ≤ high else low < n * den && n * den < high
  let floor := value / den
  let pick := fun (n : Nat) =>
    if n == Nat.pow 10 count then some ⟨Nat.pow 10 (count - 1), count, place + 1⟩ else some ⟨n, count, place⟩
  match inside floor, inside (floor + 1) with
  | true, true => pick (roundHalfEven value den)
  | true, false => pick floor
  | false, true => pick (floor + 1)
  | false, false => none

/-- The decimal of the fewest digits, at most seventeen, that reads back as a positive double. -/
def Parts.fewest (x : Parts) : Decimal :=
  let place := firstPlace x.units unitsPerOne
  match (List.range 17).findSome? fun index => x.decimal? place (index + 1) with
  | some decimal => decimal
  | none => ⟨0, 1, 0⟩

/-- The digits of a decimal, written at the places they have. -/
def Decimal.positional (d : Decimal) : String :=
  let digits := (toString d.digits).toList
  if d.exponent < 0 then
    "0." ++ .ofList (List.replicate (-d.exponent - 1).toNat '0' ++ digits)
  else
    let whole := d.exponent.toNat + 1
    let padded := digits ++ List.replicate (whole - d.count) '0'
    let rest := padded.drop whole
    .ofList (padded.take whole ++ '.' :: (if rest.isEmpty then ['0'] else rest))

/-- The digits of a decimal with a point after the first and the power of ten behind them. -/
def Decimal.scientific (d : Decimal) : String :=
  let rest := (toString d.digits).toList.drop 1
  let power := d.exponent.natAbs
  .ofList ((toString d.digits).toList.take 1 ++ (if rest.isEmpty then [] else '.' :: rest)) ++ "e" ++
    (if d.exponent < 0 then "-" else "+") ++ (if power < 10 then "0" else "") ++ toString power

/-- The shortest text of a finite double: digits at their places from `10 ^ -4` to below `10 ^ 16`,
with a power of ten otherwise. -/
def Parts.shortest (x : Parts) : String :=
  let sign := if x.negative then "-" else ""
  if x.mantissa == 0 then sign ++ "0.0"
  else
    let decimal := x.fewest
    sign ++ if -4 ≤ decimal.exponent && decimal.exponent < 16 then decimal.positional
      else decimal.scientific

/-- The shortest text of a double. -/
def shortest (x : Float) : String :=
  match Parts.ofFloat x with
  | some parts => parts.shortest
  | none => unboundedText x

/-- The integer a double stands for, nothing when it has a fractional part or is not finite. -/
def wholeOf (x : Float) : Option Int :=
  match Parts.ofFloat x with
  | none => none
  | some parts =>
    if parts.units % unitsPerOne == 0 then
      let magnitude : Int := parts.units / unitsPerOne
      some (if parts.negative then -magnitude else magnitude)
    else none

end FossilVault.Number
