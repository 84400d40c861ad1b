/-
  CSharpGen/Decimal/Shortest.lean
  ===============================
  **The shortest decimal that reads back** — the decimal texts that read back as
  a given double are those between the midpoints to its two neighbours, the
  midpoints included if the mantissa is even.  Of the texts with the fewest
  digits the nearest is taken, and of two equally near the greater.

  For each number of digits only the two neighbours of the double on the grid
  of such decimals have to be tried: if any point of the grid lies between the
  midpoints, one of these does.  Everything is compared by cross-multiplication
  on natural numbers, in quarters of the last binary place.
-/
import CSharpGen.Decimal.Double

namespace CSharpGen.Double

/-- A decimal `digits * 10 ^ exponent`. -/
structure Digits where
  digits : Nat
  exponent : Int
  deriving DecidableEq, Repr

/-- The decimals that read back as `mantissa * 2 ^ exponent`, in quarters of
    `2 ^ exponent`. -/
structure Interval where
  low : Nat
  value : Nat
  high : Nat
  /-- Whether the ends read back too. -/
  closed : Bool
  deriving DecidableEq, Repr

/-- The interval of a double.  Below a power of two the next number is only half as
    far away. -/
def interval (mantissa : Nat) (exponent : Int) : Interval where
  low := 4 * mantissa - (if mantissa * 2 = mantissaLimit ∧ minExponent < exponent then 1 else 2)
  value := 4 * mantissa
  high := 4 * mantissa + 2
  closed := mantissa % 2 = 0

/-- Whether `n` steps of a grid lie in the interval, where a step of the grid is to
    a quarter place as `grid` to `quarter`. -/
def Interval.contains (i : Interval) (grid quarter n : Nat) : Bool :=
  if i.closed then i.low * quarter ≤ n * grid && n * grid ≤ i.high * quarter
  else i.low * quarter < n * grid && n * grid < i.high * quarter

/-- The neighbour of the value on a grid that lies in the interval; of two the
    nearer, and on a tie the greater. -/
def Interval.nearest? (i : Interval) (grid quarter : Nat) : Option Nat :=
  let below := i.value * quarter / grid
  let rest := i.value * quarter % grid
  match i.contains grid quarter below, i.contains grid quarter (below + 1) with
  | true, true => some (if 2 * rest < grid then below else below + 1)
  | true, false => some below
  | false, true => some (below + 1)
  | false, false => none

/-- The number of decimal places before the point of a positive double; below one,
    zero or less. -/
def places (mantissa : Nat) (exponent : Int) : Int :=
  let scaled := mantissa * power 2 exponent * power 10 placeLimit / power 2 (-exponent)
  ((Nat.toDigits 10 scaled).length : Int) - placeLimit

/-- The shortest decimal with at least `count` digits, where `fuel` more digits are
    tried.  Above the last number with `count` digits stands a power of ten. -/
def search (i : Interval) (exponent top : Int) (count : Nat) : Nat → Digits
  | 0 => ⟨0, 0⟩
  | fuel + 1 =>
    let place := top - count
    let grid := power 10 place * power 2 (2 - exponent)
    let quarter := power 2 (exponent - 2) * power 10 (-place)
    match i.nearest? grid quarter with
    | some digits => if digits = Nat.pow 10 count then ⟨1, top⟩ else ⟨digits, place⟩
    | none => search i exponent top (count + 1) fuel

/-- Seventeen digits tell any two doubles apart. -/
def maxDigits : Nat := 17

/-- The shortest decimal that reads back as a positive double. -/
def shortest (mantissa : Nat) (exponent : Int) : Digits :=
  search (interval mantissa exponent) exponent (places mantissa exponent) 1 maxDigits

/-! ### Writing -/

/-- A decimal without exponent: zeros fill the places up to the point. -/
def Digits.positional (d : Digits) : List Char :=
  let digits := Nat.toDigits 10 d.digits
  if 0 ≤ d.exponent then digits ++ List.replicate d.exponent.toNat '0'
  else
    let behind := (-d.exponent).toNat
    if behind < digits.length then
      digits.take (digits.length - behind) ++ '.' :: digits.drop (digits.length - behind)
    else '0' :: '.' :: (List.replicate (behind - digits.length) '0' ++ digits)

/-- The text of a double: the shortest that reads back, never with an exponent. -/
def text : Double → String
  | nan => "NaN"
  | infinite negative => if negative then "-inf" else "inf"
  | finite negative mantissa exponent =>
    let digits :=
      if mantissa = 0 then ['0'] else (shortest mantissa exponent).positional
    String.ofList (if negative then '-' :: digits else digits)

end CSharpGen.Double
