import Chip8.Text.Hex

namespace Chip8

structure Color where
  red : UInt8
  green : UInt8
  blue : UInt8
  alpha : UInt8
deriving DecidableEq, Repr

namespace Color

def black : Color := ⟨0x00, 0x00, 0x00, 0xFF⟩

def white : Color := ⟨0xFF, 0xFF, 0xFF, 0xFF⟩

-- Unpacks `0xRRGGBBAA`.
def ofWord (word : UInt32) : Color where
  red := (word >>> 24).toUInt8
  green := (word >>> 16).toUInt8
  blue := (word >>> 8).toUInt8
  alpha := word.toUInt8

def channels (c : Color) : List UInt8 := [c.red, c.green, c.blue, c.alpha]

-- Every channel but alpha inverted.
def inverted (c : Color) : Color :=
  ⟨~~~c.red, ~~~c.green, ~~~c.blue, c.alpha⟩

-- Whether the colours match apart from alpha.
def sameRgb (c d : Color) : Bool :=
  c.red == d.red && c.green == d.green && c.blue == d.blue

-- Moves a channel at most `step` towards `target` and never past it.
def stepChannel (step channel target : UInt8) : UInt8 :=
  if target < channel then UInt8.ofNat (max (channel.toNat - step.toNat) target.toNat)
  else UInt8.ofNat (min (channel.toNat + step.toNat) target.toNat)

-- Moves every channel but alpha towards `target`.
def approach (c target : Color) (step : UInt8) : Color where
  red := stepChannel step c.red target.red
  green := stepChannel step c.green target.green
  blue := stepChannel step c.blue target.blue
  alpha := c.alpha

-- The 32-bit number written by hexadecimal digits. A plus sign may stand in front of them.
def readWord? (cs : List Char) : Option UInt32 :=
  let digits := match cs with
    | '+' :: rest => rest
    | _ => cs
  if digits.isEmpty then none
  else match Text.Hex.read? digits with
    | some n => if n < UInt32.size then some (UInt32.ofNat n) else none
    | none => none

-- Reads `RRGGBB` or `RRGGBBAA`, with or without one leading `#`. The length decides which: a
-- plus sign counts as a place, so `+12345` reads as `012345`.
def ofText? (text : String) : Option Color :=
  let cs := match text.toList with
    | '#' :: rest => rest
    | cs => cs
  match readWord? cs with
  | some word =>
    if cs.length = 6 then some (ofWord (word <<< 8 ||| 0xFF))
    else if cs.length = 8 then some (ofWord word)
    else none
  | none => none

theorem inverted_inverted (c : Color) : c.inverted.inverted = c := by
  cases c
  simp [inverted]

theorem sameRgb_iff (c d : Color) :
    c.sameRgb d = true ↔ c.red = d.red ∧ c.green = d.green ∧ c.blue = d.blue := by
  simp [sameRgb, and_assoc]

theorem toNat_stepChannel (step channel target : UInt8) :
    (stepChannel step channel target).toNat =
      if target < channel then max (channel.toNat - step.toNat) target.toNat
      else min (channel.toNat + step.toNat) target.toNat := by
  have := channel.toNat_lt
  have := target.toNat_lt
  unfold stepChannel
  split
  · rw [UInt8.toNat_ofNat_of_lt' (by simp only [UInt8.size]; omega)]
  · rw [UInt8.toNat_ofNat_of_lt' (by simp only [UInt8.size]; omega)]

end Color

end Chip8
