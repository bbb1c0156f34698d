import Chip8.Dialect
import Chip8.Display.Basic
import Chip8.Instruction.Basic
import Chip8.Keypad
import Chip8.Sound.Voice

namespace Chip8

structure Processor where
  cyclesPerSecond : UInt32
  -- every update executes an instruction, whatever the cycle rate
  uncapped : Bool
  -- seed of the random bytes
  seed : UInt64
  -- first contents of the flag registers, flag 0 in the low byte
  flags : UInt64
deriving DecidableEq, Repr

namespace Processor

def standard (seed : UInt64) : Processor where
  cyclesPerSecond := 250
  uncapped := false
  seed
  flags := 0

-- Nanoseconds between two instructions.
def cyclePeriod (p : Processor) : Nat := 1000000000 / max p.cyclesPerSecond.toNat 1

end Processor

structure Sound where
  enabled : Bool
  voice : Voice

def Sound.standard : Sound := ⟨true, ⟨.square, 3.0, 440⟩⟩

-- Everything about a machine that is chosen before it runs.
structure Config where
  processor : Processor
  graphics : Graphics
  sound : Sound
  layout : Layout
  dialect : Dialect
  instructionSet : InstructionSet

namespace Config

def standard (seed : UInt64) : Config where
  processor := .standard seed
  graphics := .standard
  sound := .standard
  layout := .modern
  dialect := .standard
  instructionSet := .chip8

-- The display settings that follow from the graphics and the dialect.
def display (c : Config) : Display.Settings where
  graphics := c.graphics.clamped
  horizontal := c.dialect.horizontal
  vertical := c.dialect.vertical

end Config

end Chip8
