/-!
The fewest decimal digits that read back as a floating point number.

A number is decoded into `mantissa * 2 ^ exponent`. All decimals that lie nearer to it than to any
other number form an interval around it. Of the decimal grids, from coarse to fine, the first one
with a point in the interval gives the digits.
-/

set_option autoImplicit false

namespace Codemod.Text

/-- The bit of a mantissa that encodings leave out. -/
def hiddenBit : Nat := 4503599627370496

/-- The bit that tells negative numbers. -/
def signBit : Nat := 9223372036854775808

/-- A positive number between the ends of the interval that reads back as it, all in units of
`2 ^ exponent`. The ends belong to the interval if `closed`. -/
structure Rounding where
  low : Nat
  value : Nat
  high : Nat
  exponent : Int
  closed : Bool

/-- The interval of a positive finite number, given by the fields of its encoding. -/
def Rounding.ofFields (biased fraction : Nat) : Rounding :=
  let mantissa := if biased = 0 then fraction else fraction + hiddenBit
  let below := if fraction = 0 ∧ 1 < biased then 1 else 2
  ⟨4 * mantissa - below, 4 * mantissa, 4 * mantissa + 2, (max biased 1 : Nat) - 1077,
    mantissa % 2 = 0⟩

/-- A decimal `digits * 10 ^ power`. -/
structure Decimal where
  digits : Nat
  power : Int

def fraction (base : Nat) (power : Int) : Nat × Nat :=
  (Nat.pow base power.toNat, Nat.pow base (-power).toNat)

def Rounding.admits (rounding : Rounding) (point : Decimal) : Bool :=
  let (twoUp, twoDown) := fraction 2 rounding.exponent
  let (tenUp, tenDown) := fraction 10 point.power
  let scaled := point.digits * tenUp * twoDown
  let low := rounding.low * twoUp * tenDown
  let high := rounding.high * twoUp * tenDown
  if rounding.closed then low ≤ scaled && scaled ≤ high else low < scaled && scaled < high

/-- The point in the interval that is nearest to the number, on one grid. -/
def Rounding.onGrid? (rounding : Rounding) (power : Int) : Option Decimal :=
  let (twoUp, twoDown) := fraction 2 rounding.exponent
  let (tenUp, tenDown) := fraction 10 power
  let above := rounding.value * twoUp * tenDown
  let unit := twoDown * tenUp
  let floor : Decimal := ⟨above / unit, power⟩
  let ceiling : Decimal := ⟨above / unit + 1, power⟩
  let nearer := if 2 * (above % unit) ≤ unit then [floor, ceiling] else [ceiling, floor]
  nearer.find? fun point => point.digits != 0 && rounding.admits point

def Rounding.magnitude (rounding : Rounding) : (bound : Nat) → Int
  | 0 => -330
  | bound + 1 =>
      let power : Int := (bound : Int) - 330
      let (twoUp, twoDown) := fraction 2 rounding.exponent
      let (tenUp, tenDown) := fraction 10 power
      if twoDown * tenUp ≤ rounding.value * twoUp * tenDown then power + 1
      else rounding.magnitude bound

def Rounding.shortest (rounding : Rounding) : Decimal :=
  let top := rounding.magnitude 641
  let found := (List.range 18).findSome? fun count => rounding.onGrid? (top - (count + 1 : Nat))
  found.getD ⟨0, 0⟩

/-- A decimal without zeros at the end of its digits, if it has at most `bound` of them. -/
def Decimal.normal : (bound : Nat) → Decimal → Decimal
  | 0, decimal => decimal
  | bound + 1, decimal =>
      if decimal.digits ≠ 0 ∧ decimal.digits % 10 = 0 then
        normal bound ⟨decimal.digits / 10, decimal.power + 1⟩
      else decimal

/-- A decimal written with all its places, and at least one behind the point. -/
def Decimal.render (decimal : Decimal) : String :=
  let digits := Nat.toDigits 10 decimal.digits
  let zeros (count : Nat) : List Char := List.replicate count '0'
  let text :=
    match decimal.power with
    | .ofNat count => digits ++ zeros count ++ ['.', '0']
    | .negSucc places =>
        let padded := zeros (places + 2 - digits.length) ++ digits
        padded.take (padded.length - (places + 1)) ++
          '.' :: padded.drop (padded.length - (places + 1))
  String.ofList text

/-- A floating point number in the fewest digits that read back. -/
def shortest (number : Float) : String :=
  let bits := number.toBits.toNat
  let sign := if signBit ≤ bits then "-" else ""
  let biased := bits / hiddenBit % 2048
  let fraction := bits % hiddenBit
  if biased = 2047 then (if fraction = 0 then sign ++ "inf" else "NaN")
  else if biased = 0 ∧ fraction = 0 then sign ++ "0.0"
  else sign ++ ((Rounding.ofFields biased fraction).shortest.normal 20).render

end Codemod.Text
