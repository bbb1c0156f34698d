import Chip8.Display.Operation

namespace Chip8

-- Four bytes a physical pixel.
structure Frame where
  bytes : Array UInt8

namespace Frame

def blank (size : Nat) : Frame := ⟨Array.replicate size 0⟩

-- Writes one pixel, unless it would end past the frame.
def put (frame : Frame) (index : Nat) (color : Color) : Frame :=
  let start := 4 * index
  if start + 4 ≤ frame.bytes.size then
    ⟨(((frame.bytes.setIfInBounds start color.red).setIfInBounds (start + 1) color.green)
      |>.setIfInBounds (start + 2) color.blue).setIfInBounds (start + 3) color.alpha⟩
  else frame

-- The colour of one pixel, if all of it is inside the frame.
def pixel? (frame : Frame) (index : Nat) : Option Color := do
  let red ← frame.bytes[4 * index]?
  let green ← frame.bytes[4 * index + 1]?
  let blue ← frame.bytes[4 * index + 2]?
  let alpha ← frame.bytes[4 * index + 3]?
  return ⟨red, green, blue, alpha⟩

end Frame

namespace Display

-- Physical pixels of a whole frame, whatever the resolution.
def frameSize (d : Display) : Nat × Nat :=
  (Resolution.high.width * d.settings.graphics.scale,
    Resolution.high.height * d.settings.graphics.scale)

-- The grid shows where pixels have an inside.
def showsGrid (d : Display) : Bool := d.settings.graphics.grid && decide (2 < d.pixelSize)

-- The colour of the physical pixel at an offset inside a pixel of the given colour.
def cellColor (d : Display) (color : Color) (dx dy : Nat) : Color :=
  let last := d.pixelSize - 1
  let edge := dx == 0 || dy == 0 || dx == last || dy == last
  if d.showsGrid && edge then color.inverted else color

-- Paints one pixel of the picture as a square of physical ones.
def paintPixel (d : Display) (frame : Frame) (p : Point) : Frame :=
  let cell := d.pixelSize
  let stride := d.frameSize.1
  let color := d.colorAt p
  (List.range cell).foldl (fun frame dy =>
    (List.range cell).foldl (fun frame dx =>
      frame.put ((p.y * cell + dy) * stride + p.x * cell + dx) (d.cellColor color dx dy))
      frame) frame

def paintLine (d : Display) (frame : Frame) (line : DirtyLine) : Frame :=
  line.columns.columns.foldl (fun frame x => d.paintPixel frame ⟨x, line.row⟩) frame

-- Repaints what waits, after which nothing does.
def paint (d : Display) (frame : Frame) : Display × Frame :=
  (d.settle, d.dirtyLines.foldl d.paintLine frame)

end Display

-- A display with the frame that it is painted into.
structure Screen where
  display : Display
  frame : Frame

namespace Screen

-- A screen that nothing was painted on yet.
def new (settings : Display.Settings) : Screen :=
  let display := Display.new settings
  ⟨display, .blank (4 * (display.frameSize.1 * display.frameSize.2))⟩

-- Paints, unless nothing changed since the last time.
def refresh (s : Screen) : Screen :=
  if s.display.isChanged then
    let (display, frame) := s.display.paint s.frame
    ⟨display, frame⟩
  else s

inductive Event
  | operation (operation : Display.Operation)
  -- the display is given an occasion to paint
  | refresh
deriving DecidableEq, Repr

def apply (s : Screen) : Event → Screen
  | .operation operation => { s with display := s.display.apply operation }
  | .refresh => s.refresh

def run (s : Screen) (events : List Event) : Screen := events.foldl apply s

end Screen

end Chip8
