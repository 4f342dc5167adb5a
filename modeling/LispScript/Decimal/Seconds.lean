import LispScript.Decimal.Shortest
import LispScript.Text.Blank
import LispScript.Text.Digit

/-!
# Numbers of seconds

The interval between two looks at a folder is a number of seconds, written and read as a decimal.
-/

namespace LispScript.Seconds

/-! ## Writing -/

/-- A run of zeros. -/
def zeros (n : Nat) : String :=
  String.ofList (List.replicate n '0')

/-- A decimal written out. A number from a ten-thousandth up to ten to the sixteenth has a point
and at least one digit behind it; others have one digit before the point and an exponent of at
least two digits. -/
def decimalText (d : Decimal) : String :=
  let digits := Nat.toDigits 10 d.digits
  let point : Int := digits.length + d.exponent
  if -4 < point ∧ point ≤ 16 then
    if point ≤ 0 then "0." ++ zeros (-point).toNat ++ String.ofList digits
    else
      let whole := digits.take point.toNat
      let rest := digits.drop point.toNat
      String.ofList whole ++ zeros (point.toNat - digits.length) ++ "." ++
        (if rest.isEmpty then "0" else String.ofList rest)
  else
    let power := point - 1
    let size := Nat.toDigits 10 power.natAbs
    String.ofList (digits.take 1) ++
      (if digits.length = 1 then "" else "." ++ String.ofList (digits.drop 1)) ++
      (if power < 0 then "e-" else "e+") ++ zeros (2 - size.length) ++ String.ofList size

/-- A sign, if one is needed. -/
def signText (negative : Bool) : String :=
  if negative then "-" else ""

/-- A number of seconds as text, with the fewest digits that read back as the same number. -/
def text (x : Float) : String :=
  match FloatValue.ofBits x.toBits.toNat with
  | .nan => "nan"
  | .infinite negative => signText negative ++ "inf"
  | .zero negative => signText negative ++ "0.0"
  | .finite negative magnitude => signText negative ++ decimalText magnitude.shortest

/-! ## Reading -/

/-- Blanks and digits beyond ASCII count as a space and as the digit of the same value. -/
def plain (c : Char) : Char :=
  if c.toNat < 0x7f then c
  else if Text.isBlank c then ' '
  else match Text.digitValue? c with
    | some d => Nat.digitChar d
    | none => c

/-- The blanks that may stand around a number once it is plain. -/
def isPadding (c : Char) : Bool :=
  c == ' ' || (0x09 ≤ c.toNat && c.toNat ≤ 0x0d)

/-- The text without padding at either end. -/
def trimPadding (cs : List Char) : List Char :=
  ((cs.dropWhile isPadding).reverse.dropWhile isPadding).reverse

/-- Takes out the underscores, each of which has to stand between two digits. The flag tells
whether the character before was a digit. -/
def dropSeparators (afterDigit : Bool) : List Char → Option (List Char)
  | [] => some []
  | '_' :: c :: cs =>
    if afterDigit && c.isDigit then (dropSeparators true cs).map (c :: ·) else none
  | '_' :: [] => none
  | c :: cs => (dropSeparators c.isDigit cs).map (c :: ·)

/-- The sign at the start of a text, true for a minus, and the rest. -/
def takeSign : List Char → Bool × List Char
  | '-' :: cs => (true, cs)
  | '+' :: cs => (false, cs)
  | cs => (false, cs)

/-- The value of a run of digits. -/
def digitsValue (cs : List Char) : Nat :=
  cs.foldl (fun n c => 10 * n + (c.toNat - '0'.toNat)) 0

/-- The power of ten behind a number, the empty text being none. -/
def exponent? : List Char → Option Int
  | [] => some 0
  | c :: cs =>
    if c = 'e' ∨ c = 'E' then
      let (negative, digits) := takeSign cs
      if digits ≠ [] ∧ digits.all Char.isDigit then
        some (if negative then -(digitsValue digits : Int) else digitsValue digits)
      else none
    else none

/-- The decimal that a text without sign spells. -/
def decimal? (cs : List Char) : Option Decimal :=
  let whole := cs.takeWhile Char.isDigit
  let rest := cs.dropWhile Char.isDigit
  let (fraction, rest) :=
    match rest with
    | '.' :: rest => (rest.takeWhile Char.isDigit, rest.dropWhile Char.isDigit)
    | rest => ([], rest)
  if whole = [] ∧ fraction = [] then none
  else (exponent? rest).map fun power => ⟨digitsValue (whole ++ fraction), power - fraction.length⟩

/-- The number nearest to a decimal. Beyond all floating-point numbers it is infinite, and below
them zero. -/
def nearest (negative : Bool) (d : Decimal) : Float :=
  let point : Int := (Nat.toDigits 10 d.digits).length + d.exponent
  let magnitude : Float :=
    if d.digits = 0 ∨ point < -400 then 0
    else if 400 < point then 1 / 0
    else if d.exponent < 0 then Float.ofScientific d.digits true (-d.exponent).toNat
    else Float.ofScientific d.digits false d.exponent.toNat
  if negative then -magnitude else magnitude

/-- The number that a text spells, in plain characters and without padding. -/
def ofPlain? (cs : List Char) : Option Float :=
  let (negative, magnitude) := takeSign cs
  let name := String.ofList (magnitude.map Char.toLower)
  if name = "inf" ∨ name = "infinity" then some (if negative then -(1 / 0) else 1 / 0)
  else if name = "nan" then some (0 / 0)
  else (decimal? magnitude).map (nearest negative)

/-- Reads a number of seconds. -/
def parse? (s : String) : Option Float :=
  (dropSeparators false (trimPadding (s.toList.map plain))).bind ofPlain?

end LispScript.Seconds
