import Recognizer.Yaml.Source

/-!
Numbers as plain scalars spell them. Integers are decimal, or hexadecimal, octal or binary after a
zero and a letter; they fit in 64 bits, unsigned above zero and signed below. Digits after a leading
zero are no number. Other numbers have a point or an exponent and are rounded to binary64, in exact
arithmetic of natural numbers: to the nearest significand of 53 bits, a tie to the even one. One
that is too large for it is no number. A number is written with the fewest digits that are rounded
back to it, and of those with the nearest.
-/

namespace Recognizer.Decimal

/-- A finite number is a sign, a significand below `2 ^ 53` and a power of two. -/
inductive Binary64 where
  | finite (negative : Bool) (significand : Nat) (exponent : Int)
  | infinite (negative : Bool)
  | notANumber
  deriving DecidableEq

structure Ratio where
  numerator : Nat
  denominator : Nat

namespace Ratio

def scale (ratio : Ratio) (base : Nat) (power : Int) : Ratio :=
  if 0 ≤ power then ⟨ratio.numerator * base.pow power.toNat, ratio.denominator⟩
  else ⟨ratio.numerator, ratio.denominator * base.pow (-power).toNat⟩

def below (left right : Ratio) : Bool :=
  left.numerator * right.denominator < right.numerator * left.denominator

def atMost (left right : Ratio) : Bool := !right.below left

def floor (ratio : Ratio) : Nat := ratio.numerator / ratio.denominator

def ceiling (ratio : Ratio) : Nat :=
  (ratio.numerator + ratio.denominator - 1) / ratio.denominator

def nearest (ratio : Ratio) : Nat :=
  let quotient := ratio.floor
  let twice := 2 * (ratio.numerator % ratio.denominator)
  if twice < ratio.denominator then quotient
  else if ratio.denominator < twice then quotient + 1
  else quotient + quotient % 2

end Ratio

def digitCount (number : Nat) : Nat := (Nat.toDigits 10 number).length

namespace Binary64

def smallestExponent : Int := -1074

def largestExponent : Int := 971

def exponentOf (ratio : Ratio) : Int :=
  let guess := max smallestExponent
    ((ratio.numerator.log2 : Int) - (ratio.denominator.log2 : Int) - 53)
  if (ratio.scale 2 (-guess)).below ⟨Nat.pow 2 53, 1⟩ then guess else guess + 1

def nearest? (ratio : Ratio) : Option (Nat × Int) :=
  let exponent := exponentOf ratio
  let significand := (ratio.scale 2 (-exponent)).nearest
  let (significand, exponent) :=
    if significand = Nat.pow 2 53 then (Nat.pow 2 52, exponent + 1) else (significand, exponent)
  if exponent ≤ largestExponent then some (significand, exponent) else none

/-- The number nearest to `digits * 10 ^ power`. Decimals beyond 310 places overflow, and those
below the 330th place vanish, whatever their digits are. -/
def ofDecimal? (negative : Bool) (digits : Nat) (power : Int) : Option Binary64 :=
  let size := (digitCount digits : Int) + power
  if digits = 0 ∨ size < -330 then some (finite negative 0 smallestExponent)
  else if 310 < size then none
  else
    (nearest? ((⟨digits, 1⟩ : Ratio).scale 10 power)).map fun (significand, exponent) =>
      finite negative significand exponent

/-- Zeros are equal whatever their signs, and anything that is not a number equals itself. -/
def same : Binary64 → Binary64 → Bool
  | finite leftSign left leftPower, finite rightSign right rightPower =>
    left = right && leftPower = rightPower && (left = 0 || leftSign = rightSign)
  | infinite left, infinite right => left = right
  | notANumber, notANumber => true
  | _, _ => false

end Binary64

/-- The numbers that are rounded to one significand: its neighbours are half a unit away, but only
a quarter below a power of two. The ends belong to it when it is even. -/
structure Interval where
  lower : Ratio
  middle : Ratio
  upper : Ratio
  closed : Bool

namespace Interval

def around (significand : Nat) (exponent : Int) : Interval :=
  let quarters (count : Nat) : Ratio := (⟨count, 1⟩ : Ratio).scale 2 (exponent - 2)
  let belowPower := significand = Nat.pow 2 52 ∧ Binary64.smallestExponent < exponent
  { lower := quarters (4 * significand - if belowPower then 1 else 2)
    middle := quarters (4 * significand)
    upper := quarters (4 * significand + 2)
    closed := significand % 2 = 0 }

def holds (interval : Interval) (ratio : Ratio) : Bool :=
  if interval.closed then interval.lower.atMost ratio && ratio.atMost interval.upper
  else interval.lower.below ratio && ratio.below interval.upper

def place (interval : Interval) : Int :=
  let middle := interval.middle
  if middle.below ⟨1, 1⟩ then
    1 - digitCount ((⟨middle.denominator, middle.numerator⟩ : Ratio).ceiling - 1)
  else digitCount middle.floor

/-- The decimal of a given number of digits that is nearest to the middle, if one of its two
neighbours lies in the interval. A neighbour that is a power of ten needs one digit only. -/
def withDigits? (interval : Interval) (count : Nat) : Option (Nat × Int) :=
  let power := interval.place - count
  let onGrid (digits : Nat) : Ratio := (⟨digits, 1⟩ : Ratio).scale 10 power
  let scaled := interval.middle.scale 10 (-power)
  let lower := scaled.floor
  let digits? := match interval.holds (onGrid lower), interval.holds (onGrid (lower + 1)) with
    | true, true => some scaled.nearest
    | true, false => some lower
    | false, true => some (lower + 1)
    | false, false => none
  digits?.map fun digits =>
    if digits = Nat.pow 10 count then (1, interval.place) else (digits, power)

end Interval

def shortest (significand : Nat) (exponent : Int) : Nat × Int :=
  let interval := Interval.around significand exponent
  ((List.range' 1 17).findSome? interval.withDigits?).getD (significand, 0)

end Recognizer.Decimal

namespace Recognizer.Yaml

inductive Number where
  | natural (value : Nat)
  /-- The number below zero with the given magnitude. -/
  | negative (magnitude : Nat)
  | real (value : Decimal.Binary64)
  deriving DecidableEq

namespace Number

open Decimal

def same : Number → Number → Bool
  | natural left, natural right => left = right
  | negative left, negative right => left = right
  | real left, real right => left.same right
  | _, _ => false

def isZeroLed (text : List Char) : Bool :=
  let digits := match text with
    | '+' :: rest | '-' :: rest => rest
    | _ => text
  match digits with
  | '0' :: next :: rest => (next :: rest).all Char.isDigit
  | _ => false

def magnitude? (text : List Char) : Option Nat :=
  match text with
  | '0' :: 'x' :: rest => natural? 16 rest
  | '0' :: 'o' :: rest => natural? 8 rest
  | '0' :: 'b' :: rest => natural? 2 rest
  | _ => if isZeroLed text then none else natural? 10 text

/-- The integer that a text spells, within 128 bits; beyond them decimals may still be rounded. -/
def integer? (text : List Char) : Option Int :=
  match text with
  | '-' :: rest => ((magnitude? rest).filter (· ≤ Nat.pow 2 127)).map fun magnitude =>
    -(magnitude : Int)
  | '+' :: rest => ((magnitude? rest).filter (· < Nat.pow 2 128)).map Int.ofNat
  | _ => ((magnitude? text).filter (· < Nat.pow 2 128)).map Int.ofNat

def ofInteger? (integer : Int) : Option Number :=
  if 0 ≤ integer then
    if integer < Int.pow 2 64 then some (natural integer.toNat) else none
  else if -Int.pow 2 63 ≤ integer then some (negative (-integer).toNat)
  else none

def exponent? (text : List Char) : Option Int :=
  match text with
  | [] => some 0
  | mark :: rest =>
    if mark = 'e' || mark = 'E' then
      match rest with
      | '-' :: digits => (natural? 10 digits).map fun exponent => -(exponent : Int)
      | '+' :: digits => (natural? 10 digits).map Int.ofNat
      | digits => (natural? 10 digits).map Int.ofNat
    else none

def unsigned? (negative : Bool) (text : List Char) : Option Binary64 :=
  let whole := text.takeWhile Char.isDigit
  let rest := text.dropWhile Char.isDigit
  let (part, rest) := match rest with
    | '.' :: more => (more.takeWhile Char.isDigit, more.dropWhile Char.isDigit)
    | _ => ([], rest)
  if whole ++ part = [] then none
  else
    match natural? 10 (whole ++ part), exponent? rest with
    | some digits, some exponent =>
      Binary64.ofDecimal? negative digits (exponent - part.length)
    | _, _ => none

def real? (text : List Char) : Option Binary64 :=
  if text = ".nan".toList ∨ text = ".NaN".toList ∨ text = ".NAN".toList then some .notANumber
  else
    let (below, size) := match text with
      | '-' :: rest => (true, rest)
      | '+' :: rest => (false, rest)
      | _ => (false, text)
    if size = ".inf".toList ∨ size = ".Inf".toList ∨ size = ".INF".toList then
      some (.infinite below)
    else unsigned? below size

def zeros (count : Nat) : List Char := List.replicate count '0'

/-- Positional notation holds from the fifth place after the point to the sixteenth before it, and
always has a digit after the point; elsewhere one digit stands before the point, if any follow. -/
def positional (digits : List Char) (power : Int) : List Char :=
  let point := (digits.length : Int) + power
  if 0 ≤ power ∧ point ≤ 16 then digits ++ zeros power.toNat ++ ['.', '0']
  else if 0 < point ∧ point ≤ 16 then
    digits.take point.toNat ++ '.' :: digits.drop point.toNat
  else if -5 < point ∧ point ≤ 0 then '0' :: '.' :: zeros (-point).toNat ++ digits
  else
    let fraction := match digits.drop 1 with
      | [] => []
      | rest => '.' :: rest
    digits.take 1 ++ fraction ++ 'e' :: (toString (point - 1)).toList

def magnitudeText (significand : Nat) (exponent : Int) : List Char :=
  if significand = 0 then "0.0".toList
  else
    let (digits, power) := shortest significand exponent
    positional (Nat.toDigits 10 digits) power

def text : Number → List Char
  | natural value => Nat.toDigits 10 value
  | negative magnitude => '-' :: Nat.toDigits 10 magnitude
  | real (.finite isNegative significand exponent) =>
    (if isNegative then ['-'] else []) ++ magnitudeText significand exponent
  | real (.infinite isNegative) => if isNegative then "-.inf".toList else ".inf".toList
  | real .notANumber => ".nan".toList

end Number

end Recognizer.Yaml
