import Chip8.Color
import Chip8.Display.Edge

namespace Chip8

structure Graphics where
  on : Color
  off : Color
  -- physical pixels on the edge of one high-resolution pixel
  scale : Nat
  grid : Bool
  -- cleared pixels glow and fade out
  fade : Bool
  -- the most that a channel moves in one tick
  fadeSpeed : UInt8
deriving DecidableEq, Repr

namespace Graphics

def standard : Graphics where
  on := .white
  off := .black
  scale := 5
  grid := false
  fade := false
  fadeSpeed := 16

-- A display that shows anything has pixels of some size and fades that end.
def clamped (g : Graphics) : Graphics :=
  { g with scale := max g.scale 1, fadeSpeed := max g.fadeSpeed 1 }

theorem one_le_scale_clamped (g : Graphics) : 1 ≤ g.clamped.scale := Nat.le_max_right _ _

theorem one_le_fadeSpeed_clamped (g : Graphics) : 1 ≤ g.clamped.fadeSpeed := by
  simp only [clamped, max]
  grind

theorem clamped_clamped (g : Graphics) : g.clamped.clamped = g.clamped := by
  simp only [clamped, Graphics.mk.injEq, true_and]
  refine ⟨by omega, ?_⟩
  simp only [max]
  grind

end Graphics

end Chip8
