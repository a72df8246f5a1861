import Conclave.Metrics.Whole

/-!
# Decimal digits of whole numbers in double precision

`Whole.text` writes a number of the format so that it reads back as the same number, with the digits
that the Grisu2 procedure finds:

* the reals that round to the number form an interval. The number and the bounds of the interval are
  scaled by a power of ten, with products of 64 significant bits; a unit on both sides accounts for
  the error;
* the digits of the upper bound are taken one by one until what is left fits into the interval;
* the last digit is lowered as long as that brings the result nearer to the number.

The digits are short, but as the products are rounded, and as the last step gives up behind eight
digits after the point, a shorter or nearer sequence is missed now and then.
-/

namespace Conclave
namespace Whole

/-! ### Scaling -/

/-- A power of ten: `significand / 2 ^ bits`, where the significand has 64 bits. -/
structure Scale where
  significand : Nat
  bits : Nat

/-- The scale `10 ^ (4 - 8 * step)`, to the nearest. -/
def scale : Nat → Scale
  | 0 => ⟨10000 * Nat.pow 2 50, 50⟩
  | step + 1 =>
    let power := Nat.pow 10 (8 * step + 4)
    let bits := power.log2 + 64
    ⟨(Nat.pow 2 bits + power / 2) / power, bits⟩

/-- The step of the scale for a number: it leaves at most nine digits before the point. The decimal
logarithm of two is taken as 0.30103. -/
def scaleStep (n : Nat) : Nat := (30103 * n.log2 + 339794) / 100000 / 8

/-- The upper 64 bits of a product with the significand of a scale, to the nearest. -/
def Scale.apply (s : Scale) (significand : Nat) : Nat :=
  (significand * s.significand + Nat.pow 2 63) / Nat.pow 2 64

/-- A scaled interval: its upper bound, its width, the distance of the number to the upper bound,
all of them with the given number of bits after the point. -/
structure Window where
  bits : Nat
  high : Nat
  width : Nat
  gap : Nat

/-- The interval of the reals that round to a number of the format, scaled and narrowed. -/
def window (n : Nat) : Window :=
  let size := n.log2
  let significand := if size ≤ 63 then n * Nat.pow 2 (63 - size) else n / Nat.pow 2 (size - 63)
  -- below a power of two the numbers of the format lie twice as dense
  let below := if significand = Nat.pow 2 63 then 512 else 1024
  let s := scale (scaleStep n)
  let high := s.apply (significand + 1024) - 1
  { bits := s.bits - 1 - size
    high
    width := high - (s.apply (significand - below) + 1)
    gap := high - s.apply significand }

/-! ### Digits -/

/-- How often to lower the last digit, at most `limit` times: while the result is above the number,
stays in the interval, and comes nearer. Here `rest` is the distance to the upper bound, and `unit`
is worth one in the last digit. -/
def lowerings (width gap unit : Nat) : Nat → Nat → Nat
  | 0, _ => 0
  | limit + 1, rest =>
    if rest < gap ∧ unit ≤ width - rest ∧
        (rest + unit < gap ∨ rest + unit - gap < gap - rest) then
      lowerings width gap unit limit (rest + unit) + 1
    else 0

/-- The digits read, as a number, and how many places its last digit is above the point of the scaled
number, or below it. -/
structure Digits where
  number : Nat
  above : Nat
  below : Nat

/-- Reads digits behind the point: `number` was read, and `rest` is left. -/
def fractionDigits (bits gap : Nat) : Nat → Nat → Nat → Nat → Nat → Digits
  | 0, place, _, _, number => ⟨number, 0, place⟩
  | limit + 1, place, width, rest, number =>
    let unit := Nat.pow 2 bits
    let number := 10 * number + 10 * rest / unit
    let rest := 10 * rest % unit
    let width := 10 * width
    let place := place + 1
    if rest < width then
      let gap := if place < 9 then gap * Nat.pow 10 place else 0
      ⟨number - lowerings width gap unit 9 rest, 0, place⟩
    else fractionDigits bits gap limit place width rest number

/-- Reads digits before the point, of which there are `places` left. -/
def wholeDigits (w : Window) : Nat → Nat → Nat → Digits
  | 0, _, number => fractionDigits w.bits w.gap 20 0 w.width (w.high % Nat.pow 2 w.bits) number
  | place + 1, whole, number =>
    let number := 10 * number + whole / Nat.pow 10 place
    let whole := whole % Nat.pow 10 place
    let rest := whole * Nat.pow 2 w.bits + w.high % Nat.pow 2 w.bits
    if rest ≤ w.width then
      let unit := Nat.pow 10 place * Nat.pow 2 w.bits
      ⟨number - lowerings w.width w.gap unit 9 rest, place, 0⟩
    else wholeDigits w place whole number

/-- The whole number that is written for a number of the format. -/
def written (n : Nat) : Nat :=
  if n = 0 then 0
  else
    let w := window n
    let whole := w.high / Nat.pow 2 w.bits
    let d := wholeDigits w (Nat.repr whole).length whole 0
    d.number * Nat.pow 10 (8 * scaleStep n + d.above - d.below - 4)

/-! ### Text -/

/-- The digits of a number without the zeros at its end. -/
def significant (digits : List Char) : List Char :=
  (digits.reverse.dropWhile (· = '0')).reverse

/-- The text of a number of the format: positional up to 21 digits, with a zero after the point, and
in scientific notation above. -/
def text (n : Nat) : String :=
  let digits := (Nat.repr (written n)).toList
  if digits.length ≤ 21 then String.ofList digits ++ ".0"
  else
    let exponent := Nat.repr (digits.length - 1)
    match significant digits with
    | [] => "0.0"
    | [d] => String.ofList [d] ++ "e" ++ exponent
    | d :: rest => String.ofList (d :: '.' :: rest) ++ "e" ++ exponent

end Whole
end Conclave
