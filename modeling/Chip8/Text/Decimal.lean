namespace Chip8.Text

-- The number `significand * 2 ^ exponent`, with the reals that round to it. Below the number
-- the gap to its neighbour is half as wide where `narrowBelow` holds.
structure Binary where
  significand : Nat
  exponent : Int
  narrowBelow : Bool
deriving DecidableEq, Repr

-- The number `digits * 10 ^ exponent`.
structure Decimal where
  digits : Nat
  exponent : Int
deriving DecidableEq, Repr

namespace Binary

-- The finite magnitude that the bits of a double denote.
def ofBits (bits : Nat) : Binary :=
  let fraction : Nat := bits % 0x10000000000000
  let biased : Nat := bits >>> 52 % 0x800
  if biased = 0 then ⟨fraction, -1074, false⟩
  else ⟨0x10000000000000 + fraction, (biased : Int) - 1075, decide (fraction = 0 ∧ 1 < biased)⟩

-- The number and the ends of its interval over one denominator, where `unit` stands for
-- `10 ^ exponent`.
structure Scaled where
  low : Nat
  value : Nat
  high : Nat
  unit : Nat

-- Scales by four, so that the ends of the interval are whole.
def scaled (b : Binary) (exponent : Int) : Scaled :=
  let factor := Nat.pow 10 (-exponent).toNat <<< (b.exponent - 2).toNat
  let below := if b.narrowBelow then 1 else 2
  { low := (4 * b.significand - below) * factor
    value := 4 * b.significand * factor
    high := (4 * b.significand + 2) * factor
    unit := Nat.pow 10 exponent.toNat <<< (2 - b.exponent).toNat }

-- Whether a multiple of the unit rounds to the number. The ends do where the significand is even.
def roundsBack (b : Binary) (s : Scaled) (k : Nat) : Bool :=
  if b.significand % 2 = 0 then decide (s.low ≤ k * s.unit ∧ k * s.unit ≤ s.high)
  else decide (s.low < k * s.unit ∧ k * s.unit < s.high)

-- The nearer of the two multiples of `10 ^ exponent` around the number, among those that round
-- to it. An exact tie goes up.
def onGrid? (b : Binary) (exponent : Int) : Option Decimal :=
  let s := b.scaled exponent
  let k := s.value / s.unit
  let lower := b.roundsBack s k
  let upper := b.roundsBack s (k + 1)
  let nearerUp := decide (s.unit ≤ 2 * (s.value % s.unit))
  if upper && (!lower || nearerUp) then some ⟨k + 1, exponent⟩
  else if lower then some ⟨k, exponent⟩
  else none

-- The power of ten that starts the decimal form of a number other than zero.
def magnitude (b : Binary) : Int :=
  let whole := b.significand <<< b.exponent.toNat >>> (-b.exponent).toNat
  if whole = 0 then
    let s := b.significand
    let places := (List.range 400).find? fun k => 1 <<< (-b.exponent).toNat ≤ s * Nat.pow 10 k
    Int.negOfNat (places.getD 0)
  else (Nat.toDigits 10 whole).length - 1

-- The decimal with the fewest digits that reads back. Seventeen always suffice.
def shortest (b : Binary) : Decimal :=
  if b.significand = 0 then ⟨0, 0⟩
  else
    let found := (List.range 17).findSome? fun n => b.onGrid? (b.magnitude - Int.ofNat n)
    found.getD ⟨b.significand, 0⟩

end Binary

-- How a decimal is written: positionally, with a point, from `10 ^ least` and below
-- `10 ^ bound`, and with an exponent mark elsewhere.
structure DecimalFormat where
  least : Int
  bound : Int
  mark : String

namespace DecimalFormat

def write (f : DecimalFormat) (d : Decimal) : String :=
  let digits := Nat.toDigits 10 d.digits
  let lead : Int := d.exponent + digits.length - 1
  let kept := (digits.reverse.dropWhile (· == '0')).reverse
  let kept := if kept.isEmpty then ['0'] else kept
  if d.digits = 0 ∨ (f.least ≤ lead ∧ lead < f.bound) then
    let places := (lead + 1).toNat
    let whole := (kept ++ List.replicate (places - kept.length) '0').take places
    let part := List.replicate (-lead - 1).toNat '0' ++ kept.drop places
    String.ofList (if whole.isEmpty then ['0'] else whole) ++ "."
      ++ String.ofList (if part.isEmpty then ['0'] else part)
  else
    let head := String.ofList (kept.take 1)
    let tail := if kept.length ≤ 1 then "" else "." ++ String.ofList (kept.drop 1)
    head ++ tail ++ f.mark ++ toString lead

end DecimalFormat

-- The text of a double, read from its bits.
def DecimalFormat.writeBits (f : DecimalFormat) (bits : Nat) : String :=
  let sign := if bits >>> 63 % 2 = 1 then "-" else ""
  if bits >>> 52 % 0x800 = 0x7FF then
    if bits % 0x10000000000000 = 0 then sign ++ "inf" else "NaN"
  else sign ++ f.write (Binary.ofBits bits).shortest

end Chip8.Text
