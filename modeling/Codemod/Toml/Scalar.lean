import Codemod.Toml.Value

/-!
Values written without quotes: booleans, numbers, dates and times.
-/

set_option autoImplicit false

namespace Codemod.Toml

def isHex (c : Char) : Bool :=
  c.isDigit || ('a' ≤ c && c ≤ 'f') || ('A' ≤ c && c ≤ 'F')

def isOctal (c : Char) : Bool := '0' ≤ c && c ≤ '7'

def isBinary (c : Char) : Bool := c == '0' || c == '1'

def digitValue (c : Char) : Nat :=
  if c.isDigit then c.toNat - '0'.toNat
  else if 'a' ≤ c && c ≤ 'f' then c.toNat - 'a'.toNat + 10
  else c.toNat - 'A'.toNat + 10

def numberOf (base : Nat) (digits : List Char) : Nat :=
  digits.foldl (fun value c => base * value + digitValue c) 0

def plainDigits? (isDigit : Char → Bool) : List Char → Option (List Char)
  | [] => none
  | [c] => if isDigit c then some [c] else none
  | c :: '_' :: rest =>
      if isDigit c then (plainDigits? isDigit rest).map (c :: ·) else none
  | c :: rest => if isDigit c then (plainDigits? isDigit rest).map (c :: ·) else none

/-- Decimal digits without a zero in front. -/
def decimalDigits? (text : List Char) : Option (List Char) :=
  match plainDigits? Char.isDigit text with
  | some ('0' :: _ :: _) => none
  | digits => digits

/-! ### Integers -/

def maxInteger : Int := 9223372036854775807

def inRange (value : Int) : Except String Value :=
  if -maxInteger - 1 ≤ value ∧ value ≤ maxInteger then .ok (.integer value)
  else .error "integer number overflowed"

def splitSign : List Char → Bool × List Char
  | '+' :: rest => (false, rest)
  | '-' :: rest => (true, rest)
  | text => (false, text)

def integer? (text : List Char) : Option (Except String Value) :=
  let based (base : Nat) (isDigit : Char → Bool) (rest : List Char) :=
    (plainDigits? isDigit rest).map fun digits => inRange (numberOf base digits)
  match text with
  | '0' :: 'x' :: rest => based 16 isHex rest
  | '0' :: 'o' :: rest => based 8 isOctal rest
  | '0' :: 'b' :: rest => based 2 isBinary rest
  | _ =>
      let (negative, body) := splitSign text
      (decimalDigits? body).map fun digits =>
        let value : Int := numberOf 10 digits
        inRange (if negative then -value else value)

/-! ### Floating point numbers -/

def floatOf (negative : Bool) (digits : List Char) (exponent : Int) : Float :=
  let mantissa := numberOf 10 digits
  let magnitude :=
    if 0 ≤ exponent then Float.ofScientific mantissa false exponent.toNat
    else Float.ofScientific mantissa true (-exponent).toNat
  if negative then -magnitude else magnitude

def exponent? (text : List Char) : Option Int :=
  let (negative, body) := splitSign text
  (plainDigits? Char.isDigit body).map fun digits =>
    let value : Int := numberOf 10 digits
    if negative then -value else value

def float? (text : List Char) : Option Value :=
  let (negative, body) := splitSign text
  let mark (c : Char) : Bool := c == 'e' || c == 'E'
  let mantissa := body.takeWhile fun c => !mark c
  let whole := mantissa.takeWhile (· != '.')
  let power : Option Int :=
    match body.dropWhile fun c => !mark c with
    | [] => some 0
    | _ :: rest => exponent? rest
  let fraction : Option (List Char) :=
    match mantissa.dropWhile (· != '.') with
    | [] => if mantissa.length < body.length then some [] else none
    | _ :: rest => plainDigits? Char.isDigit rest
  match decimalDigits? whole, fraction, power with
  | some front, some back, some exponent =>
      some (.float (floatOf negative (front ++ back) (exponent - back.length)))
  | _, _, _ => none

def special? (text : List Char) : Option Value :=
  let (negative, body) := splitSign text
  if body = ['i', 'n', 'f'] then
    let infinity : Float := 1.0 / 0.0
    some (.float (if negative then -infinity else infinity))
  else if body = ['n', 'a', 'n'] then some (.float (0.0 / 0.0))
  else none

/-! ### Dates and times -/

def fixedDigits? (count : Nat) (text : List Char) : Option (Nat × List Char) :=
  let digits := text.take count
  if digits.length = count ∧ digits.all Char.isDigit then
    some (numberOf 10 digits, text.drop count)
  else none

def daysOf (year month : Nat) : Nat :=
  match month with
  | 2 => if year % 4 = 0 ∧ (year % 100 ≠ 0 ∨ year % 400 = 0) then 29 else 28
  | 4 => 30
  | 6 => 30
  | 9 => 30
  | 11 => 30
  | _ => 31

def date? (text : List Char) : Option (List Char) :=
  match fixedDigits? 4 text with
  | some (year, '-' :: rest) =>
      match fixedDigits? 2 rest with
      | some (month, '-' :: rest) =>
          match fixedDigits? 2 rest with
          | some (day, rest) =>
              if 1 ≤ month ∧ month ≤ 12 ∧ 1 ≤ day ∧ day ≤ daysOf year month then some rest
              else none
          | none => none
      | _ => none
  | _ => none

def secondFraction? : List Char → Option (List Char)
  | '.' :: rest =>
      if rest.head?.any Char.isDigit then some (rest.dropWhile Char.isDigit) else none
  | text => some text

/-- The text behind a time. Seconds may be missing. -/
def time? (text : List Char) : Option (List Char) :=
  match fixedDigits? 2 text with
  | some (hour, ':' :: rest) =>
      match fixedDigits? 2 rest with
      | some (minute, rest) =>
          if 23 < hour ∨ 59 < minute then none
          else
            match rest with
            | ':' :: more =>
                match fixedDigits? 2 more with
                | some (second, rest) => if 60 < second then none else secondFraction? rest
                | none => none
            | _ => some rest
      | none => none
  | _ => none

def isOffset : List Char → Bool
  | [] => true
  | ['Z'] => true
  | ['z'] => true
  | sign :: rest =>
      (sign == '+' || sign == '-') &&
        match fixedDigits? 2 rest with
        | some (hour, ':' :: more) =>
            match fixedDigits? 2 more with
            | some (minute, []) => hour ≤ 23 && minute ≤ 59
            | _ => false
        | _ => false

def isDatetime (text : List Char) : Bool :=
  match date? text with
  | some [] => true
  | some (separator :: rest) =>
      (separator == 'T' || separator == 't' || separator == ' ') &&
        (match time? rest with
          | some zone => isOffset zone
          | none => false)
  | none => time? text == some []

/-! ### Scalars -/

def unquotedMessage : String := "string values must be quoted, expected literal string"

def finite : Value → Except String Value
  | .float number =>
      if number.isInf then .error "floating-point number overflowed" else .ok (.float number)
  | value => .ok value

def scalarOf (text : List Char) : Except String Value :=
  if text = ['t', 'r', 'u', 'e'] then .ok (.boolean true)
  else if text = ['f', 'a', 'l', 's', 'e'] then .ok (.boolean false)
  else
    match integer? text with
    | some result => result
    | none =>
        match float? text with
        | some value => finite value
        | none =>
            match special? text with
            | some value => .ok value
            | none => if isDatetime text then .ok .datetime else .error unquotedMessage

end Codemod.Toml
