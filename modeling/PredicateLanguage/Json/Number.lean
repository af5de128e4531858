import PredicateLanguage.Decimal.Text
import PredicateLanguage.Json.Fault

/-!
# Numbers in JSON

No number is ever wanted, so a number is read only to tell which one it is.  Digits
are gathered in 64 bits; those that no longer fit count as zeros before the point and
are left out behind it.  A number with a fraction or an exponent, or beyond the
integers, is a double: the gathered digits scaled by a power of ten.
-/

namespace PredicateLanguage.Json

/-- One more than the greatest number that digits are gathered to. -/
def digitsLimit : Nat := Nat.pow 2 64

def digitValue (c : Char) : Nat :=
  c.toNat - '0'.toNat

/-- Gathers digits while they fit, and tells which are left. -/
def gather (n : Nat) : List Char → Nat × List Char
  | [] => (n, [])
  | c :: rest =>
    let next := 10 * n + digitValue c
    if next < digitsLimit then gather next rest else (n, c :: rest)

/-- The digits that a text starts with, and what follows them. -/
def spanDigits (s : List Char) : List Char × List Char :=
  (s.takeWhile Char.isDigit, s.dropWhile Char.isDigit)

def tenTo (n : Nat) : Float :=
  Float.ofScientific 1 false n

/-- The greatest power of ten that is a double. -/
def greatestTen : Nat := 308

/-- Divides by a power of ten, in steps where it is no double, as long as something is
left to divide. -/
def divideByTen (x : Float) (n : Nat) : Float :=
  if n ≤ greatestTen then
    x / tenTo n
  else if x == 0.0 then
    x
  else
    divideByTen (x / tenTo greatestTen) (n - greatestTen)
termination_by n
decreasing_by
  simp only [greatestTen] at *
  omega

/-- A double from its digits and the power of ten they are scaled by. -/
def scale (digits : Nat) (exponent : Int) : Except Fault Float :=
  let x := digits.toUInt64.toFloat
  if exponent < 0 then
    .ok (divideByTen x exponent.natAbs)
  else if exponent.natAbs ≤ greatestTen then
    let y := x * tenTo exponent.natAbs
    if y.isInf then .error .numberTooLarge else .ok y
  else if x == 0.0 then
    .ok x
  else
    .error .numberTooLarge

/-- What messages call a double. -/
def floatShape (negative : Bool) (x : Float) : Shape :=
  .float (Decimal.writeFloat Decimal.messageStyle (if negative then -x else x))

/-- One more than the greatest exponent that can be written. -/
def exponentLimit : Nat := Nat.pow 2 31

/-- Where the digits of a number can break off. -/
def digitMissing : List Char → Fault
  | [] => .endOfText .value
  | _ => .malformedNumber

/-- The end of a number from its exponent on, if it has one, given the digits before and
the power of ten they are scaled by. -/
def numberFromExponent (negative : Bool) (digits : Nat) (exponent : Int)
    (s : List Char) : Except Fault Shape :=
  match s with
  | 'e' :: s | 'E' :: s =>
    let (down, s) :=
      match s with
      | '-' :: s => (true, s)
      | '+' :: s => (false, s)
      | s => (false, s)
    let (power, rest) := spanDigits s
    if power.isEmpty then
      .error (digitMissing rest)
    else
      let n := power.foldl (fun n c => 10 * n + digitValue c) 0
      if n < exponentLimit then
        floatShape negative <$> scale digits (exponent + if down then -(n : Int) else n)
      else if digits != 0 && !down then
        .error .numberTooLarge
      else
        .ok (floatShape negative 0.0)
  | _ => floatShape negative <$> scale digits exponent

/-- The end of a number from its point on, if it has one. -/
def numberFromPoint (negative : Bool) (digits : Nat) (exponent : Int)
    (s : List Char) : Except Fault Shape :=
  match s with
  | '.' :: s =>
    let (fraction, rest) := spanDigits s
    if fraction.isEmpty then
      .error (digitMissing rest)
    else
      let (digits, unused) := gather digits fraction
      numberFromExponent negative digits
        (exponent - (fraction.length - unused.length : Nat)) rest
  | s => numberFromExponent negative digits exponent s

/-- The greatest magnitude of a negative integer. -/
def negativeLimit : Nat := Nat.pow 2 63

/-- A number without a point or an exponent.  Beyond 63 bits a negative number is a double,
and so is a negative zero. -/
def wholeShape (negative : Bool) (digits : Nat) : Shape :=
  if negative then
    if 0 < digits ∧ digits ≤ negativeLimit then
      .integer (-digits)
    else
      floatShape true digits.toUInt64.toFloat
  else
    .integer digits

/-- Reads which number a text starts with, behind its sign. -/
def readMagnitude (negative : Bool) (s : List Char) : Except Fault Shape :=
  let (whole, rest) := spanDigits s
  match whole with
  | [] => .error (digitMissing rest)
  | '0' :: _ :: _ => .error .malformedNumber
  | _ =>
    let (digits, unused) := gather 0 whole
    match rest with
    | '.' :: _ | 'e' :: _ | 'E' :: _ => numberFromPoint negative digits unused.length rest
    | _ =>
      if unused.isEmpty then
        .ok (wholeShape negative digits)
      else
        numberFromPoint negative digits unused.length rest

/-- Reads which number a text starts with. -/
def readNumber : List Char → Except Fault Shape
  | '-' :: s => readMagnitude true s
  | s => readMagnitude false s

end PredicateLanguage.Json
