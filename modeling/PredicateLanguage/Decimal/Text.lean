import PredicateLanguage.Decimal.Shortest

/-!
# Written floating point numbers

A floating point number is written with its shortest digits.  Numbers of middling
size have a point among their digits and at least one digit on either side of it;
others have one digit before the point and an exponent of ten with its sign.
-/

namespace PredicateLanguage.Decimal

/-- Where floating point numbers are written without an exponent. -/
structure Style where
  /-- The least power of ten of a first digit. -/
  lowestPositional : Int
  /-- The greatest power of ten of a first digit. -/
  highestPositional : Int

/-- From a hundred-thousandth up to sixteen digits before the point, numbers are written
without an exponent. -/
def messageStyle : Style :=
  ⟨-5, 15⟩

/-- The sign and the digits of an exponent. -/
def exponentText (e : Int) : List Char :=
  'e' :: (if e < 0 then '-' else '+') :: Nat.toDigits 10 e.natAbs

/-- Writes digits whose first stands for a power of ten. -/
def place (style : Style) (digits : List Char) (lead : Int) : List Char :=
  if lead < style.lowestPositional ∨ style.highestPositional < lead then
    match digits with
    | [] => exponentText lead
    | [d] => d :: exponentText lead
    | d :: ds => d :: '.' :: ds ++ exponentText lead
  else if lead < 0 then
    '0' :: '.' :: List.replicate ((-lead).toNat - 1) '0' ++ digits
  else
    let whole := lead.toNat + 1
    if digits.length ≤ whole then
      digits ++ List.replicate (whole - digits.length) '0' ++ ['.', '0']
    else
      digits.take whole ++ '.' :: digits.drop whole

def writeFloat (style : Style) (x : Float) : String :=
  let (negative, b) := Binary.ofBits x.toBits.toNat
  let magnitude :=
    if b.mantissa = 0 then
      ['0', '.', '0']
    else
      let shortest := b.shortest
      let digits := Nat.toDigits 10 shortest.digits
      place style digits (shortest.exponent + digits.length - 1)
  String.ofList (if negative then '-' :: magnitude else magnitude)

end PredicateLanguage.Decimal
