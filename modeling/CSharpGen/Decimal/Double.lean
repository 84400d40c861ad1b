/-
  CSharpGen/Decimal/Double.lean
  =============================
  **Double precision numbers** — as sign, mantissa and binary exponent, and the
  number nearest to a decimal text.  All arithmetic is exact, on natural
  numbers; a tie between two neighbours goes to the even mantissa.
-/

namespace CSharpGen

/-- A double precision number: a finite one is `mantissa * 2 ^ exponent`, where the
    mantissa has 53 bits, or fewer at the smallest exponent. -/
inductive Double where
  | nan
  | infinite (negative : Bool)
  | finite (negative : Bool) (mantissa : Nat) (exponent : Int)
  deriving DecidableEq, Repr

namespace Double

/-- One more than the greatest mantissa. -/
def mantissaLimit : Nat := Nat.pow 2 53

/-- The smallest exponent. -/
def minExponent : Int := -1074

/-- The greatest exponent. -/
def maxExponent : Int := 971

/-- The positive part of an exponent as a power. -/
def power (base : Nat) (exponent : Int) : Nat := base.pow exponent.toNat

/-- The quotient rounded to the nearest number; a half goes to the even neighbour. -/
def roundEven (num den : Nat) : Nat :=
  let quotient := num / den
  let rest := 2 * (num % den)
  if rest < den then quotient
  else if rest = den then quotient + quotient % 2
  else quotient + 1

/-- The greatest exponent at which the quotient has at least 53 bits before the
    point, but none below the smallest exponent. -/
def exponentOf (num den : Nat) : Int :=
  let low := (num.log2 : Int) - (den.log2 : Int) - 53
  let scaled := num * power 2 (-low) / (den * power 2 low)
  max minExponent (if scaled < mantissaLimit then low else low + 1)

/-- The double nearest to a positive quotient. -/
def ofQuotient (negative : Bool) (num den : Nat) : Double :=
  let exponent := exponentOf num den
  let mantissa := roundEven (num * power 2 (-exponent)) (den * power 2 exponent)
  if mantissa < mantissaLimit then
    if maxExponent < exponent then .infinite negative else .finite negative mantissa exponent
  else if maxExponent < exponent + 1 then .infinite negative
  else .finite negative (mantissa / 2) (exponent + 1)

/-- Beyond this many places a decimal is too great for a double, or too small. -/
def placeLimit : Int := 400

/-- The double nearest to `digits * 10 ^ exponent`, where the digits are `count`
    many and the first of them is not zero. -/
def ofDecimal (negative : Bool) (digits count : Nat) (exponent : Int) : Double :=
  if digits = 0 then .finite negative 0 minExponent
  else if placeLimit < count + exponent then .infinite negative
  else if count + exponent < -placeLimit then .finite negative 0 minExponent
  else ofQuotient negative (digits * power 10 exponent) (power 10 (-exponent))

/-! ### Reading -/

/-- The value of a decimal digit. -/
def digitValue (d : Char) : Nat := d.toNat - '0'.toNat

/-- The number that decimal digits spell. -/
def digitsValue (digits : List Char) : Nat :=
  digits.foldl (fun n d => 10 * n + digitValue d) 0

/-- An exponent that has come this far takes no further digits. -/
def exponentCap : Nat := Nat.pow 2 16

/-- The exponent that decimal digits spell. -/
def exponentValue (digits : List Char) : Nat :=
  digits.foldl (fun n d => if n < exponentCap then 10 * n + digitValue d else n) 0

/-- A sign and what follows it. -/
def readSign : List Char → Bool × List Char
  | '-' :: rest => (true, rest)
  | '+' :: rest => (false, rest)
  | text => (false, text)

/-- The exponent behind the digits of a number. -/
def readExponent? : List Char → Option Int
  | [] => some 0
  | c :: rest =>
    let (negative, digits) := readSign rest
    if (c = 'e' || c = 'E') && !digits.isEmpty && digits.all Char.isDigit then
      some (if negative then -(exponentValue digits : Int) else exponentValue digits)
    else none

/-- The digits behind a decimal point, and what follows them. -/
def readFraction : List Char → List Char × List Char
  | '.' :: rest => (rest.takeWhile Char.isDigit, rest.dropWhile Char.isDigit)
  | text => ([], text)

/-- Read a number without sign.  Leading zeros do not count as digits. -/
def readNumber? (negative : Bool) (text : List Char) : Option Double :=
  let whole := text.takeWhile Char.isDigit
  let (fraction, rest) := readFraction (text.dropWhile Char.isDigit)
  let digits := (whole ++ fraction).dropWhile (· == '0')
  if whole.isEmpty && fraction.isEmpty then none
  else
    (readExponent? rest).map fun exponent =>
      ofDecimal negative (digitsValue digits) digits.length (exponent - fraction.length)

/-- Read a number: digits with an optional point and exponent, or a word for
    infinity or for no number, in any case. -/
def ofText? (s : String) : Option Double :=
  let (negative, text) := readSign s.toList
  let word := String.ofList (text.map Char.toLower)
  if word = "inf" || word = "infinity" then some (.infinite negative)
  else if word = "nan" then some .nan
  else readNumber? negative text

end Double

end CSharpGen
