import Chip8.Display.Scroll
import Chip8.Display.Sprite

namespace Chip8.Display

inductive Operation
  | setPixel (p : Point) (on : Bool)
  | draw (sprite : Sprite)
  | clear
  | scroll (direction : Direction) (n : Nat)
  | setResolution (resolution : Resolution)
  | animate
  | setOn (color : Color)
  | setOff (color : Color)
  | setScale (scale : Nat)
  | setGrid (enabled : Bool)
  | setFade (enabled : Bool) (speed : UInt8)
  | setEdges (horizontal vertical : Edge)
  -- the rows that wait are handed over
  | settle
deriving DecidableEq, Repr

def apply (d : Display) : Operation → Display
  | .setPixel p on => d.setPixel p on
  | .draw sprite => (d.draw sprite).1
  | .clear => d.clear
  | .scroll direction n => d.scroll direction n
  | .setResolution resolution => d.setResolution resolution
  | .animate => d.animate
  | .setOn color => d.setOn color
  | .setOff color => d.setOff color
  | .setScale scale => d.setScale scale
  | .setGrid enabled => d.setGrid enabled
  | .setFade enabled speed => d.setFade enabled speed
  | .setEdges horizontal vertical => d.setEdges horizontal vertical
  | .settle => d.settle

def run (d : Display) (operations : List Operation) : Display := operations.foldl apply d

end Chip8.Display
