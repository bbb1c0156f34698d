import Chip8.Text.Decimal

namespace Chip8

inductive Waveform
  | sine
  | square
  | saw
deriving DecidableEq, Repr

structure Voice where
  waveform : Waveform
  -- loudness in decibels
  level : Float
  -- pitch in hertz
  frequency : UInt32

namespace Voice

-- Samples a second.
def sampleRate : Float := 44100.0

-- Samples at level zero reach from -1000 to 1000.
def gain : Float := 1000.0

def pi : Float := 3.14159265358979323846

def amplitude (voice : Voice) : Float := Float.pow 10.0 (voice.level / 20.0)

-- The waveform between -1 and 1, at a number of samples from its start.
def wave (voice : Voice) (position : Nat) : Float :=
  let time := Float.ofNat position / sampleRate
  let frequency := Float.ofNat voice.frequency.toNat
  match voice.waveform with
  | .sine => Float.sin (2.0 * pi * frequency * time)
  | .square => if (2.0 * frequency * time).floor.toInt64 % 2 == 0 then 1.0 else -1.0
  | .saw =>
    let period := time * frequency
    2.0 * (period - (0.5 + period).floor)

-- Samples truncate towards zero and stop at the ends of 16 bits. One that is no number is silent.
def sample (voice : Voice) (position : Nat) : Int16 :=
  (voice.amplitude * gain * voice.wave position).toInt16

-- Levels are written positionally from a ten-thousandth up to sixteen digits.
def levelFormat : Text.DecimalFormat := ⟨-4, 16, "e"⟩

def levelText (voice : Voice) : String := levelFormat.writeBits voice.level.toBits.toNat

end Voice

end Chip8
