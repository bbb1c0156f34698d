import Chip8.Display.Edge

namespace Chip8

-- The points on which historical interpreters disagree.
structure Dialect where
  -- `Bnnn` jumps to `nnn + V0`, and to `nnn + Vx` otherwise
  jumpFromV0 : Bool
  -- sprites past the right edge
  horizontal : Edge
  -- sprites past the bottom edge
  vertical : Edge
  -- `8xy1`, `8xy2` and `8xy3` clear VF before they read their operands
  logicClearsFlag : Bool
  -- `8xy6` and `8xyE` copy Vy into Vx before they shift
  shiftCopiesY : Bool
  -- `Fx55` and `Fx65` leave I behind the last byte they moved
  transferAdvances : Bool
  -- `Dxy0` draws 8 columns instead of 16 in low resolution
  narrowTallSprite : Bool
deriving DecidableEq, Repr

namespace Dialect

-- The dialect of a machine that is told nothing else.
def standard : Dialect where
  jumpFromV0 := true
  horizontal := .clip
  vertical := .clip
  logicClearsFlag := false
  shiftCopiesY := true
  transferAdvances := true
  narrowTallSprite := false

end Dialect

end Chip8
