import Std.Data.ExtTreeMap
import Std.Data.ExtTreeSet
import Chip8.Display.Row
import Chip8.Graphics

namespace Chip8

structure Point where
  x : Nat
  y : Nat
deriving DecidableEq, Repr

namespace Point

-- Row by row, and from left to right in a row.
def order : Point → Point → Ordering := compareLex (compareOn y) (compareOn x)

instance : Std.TransCmp order :=
  inferInstanceAs (Std.TransCmp (compareLex (compareOn y) (compareOn x)))

instance : Std.LawfulEqCmp order where
  eq_of_compare := by
    intro p q h
    simp only [order, compareLex_eq_eq, compareOn, Std.compare_eq_iff_eq] at h
    cases p
    cases q
    simp_all

@[simp] theorem order_eq_iff (p q : Point) : order p q = .eq ↔ p = q :=
  Std.LawfulEqCmp.compare_eq_iff_eq

end Point

inductive Resolution
  | low
  | high
deriving DecidableEq, Repr

namespace Resolution

def width : Resolution → Nat
  | low => 64
  | high => 128

def height : Resolution → Nat
  | low => 32
  | high => 64

-- Edge of one pixel in high-resolution pixels.
def pixelSize : Resolution → Nat
  | low => 2
  | high => 1

theorem width_pos (r : Resolution) : 0 < r.width := by cases r <;> decide

theorem width_le (r : Resolution) : r.width ≤ 128 := by cases r <;> decide

theorem height_pos (r : Resolution) : 0 < r.height := by cases r <;> decide

end Resolution

namespace Display

structure Settings where
  graphics : Graphics
  -- sprites past the right edge
  horizontal : Edge
  -- sprites past the bottom edge
  vertical : Edge
deriving DecidableEq, Repr

def Settings.standard : Settings := ⟨.standard, .clip, .clip⟩

end Display

-- The picture, what of it still glows after it was cleared, and what waits to be repainted. `lit`
-- and `glowAt` are the view through which the operations are described.
structure Display where
  rows : List Display.Row
  resolution : Resolution
  settings : Display.Settings
  -- the rows that wait to be repainted
  pending : Std.ExtTreeSet Nat
  -- whether anything changed since those rows were last handed over
  changed : Bool
  -- the cleared pixels that still glow, with their colours
  fading : Std.ExtTreeMap Point Color Point.order

namespace Display

def width (d : Display) : Nat := d.resolution.width

def height (d : Display) : Nat := d.resolution.height

-- Edge of one pixel on screen, in physical pixels.
def pixelSize (d : Display) : Nat := d.resolution.pixelSize * d.settings.graphics.scale

def contains (d : Display) (p : Point) : Bool := decide (p.x < d.width ∧ p.y < d.height)

def lit (d : Display) (p : Point) : Bool :=
  d.contains p && d.rows[p.y]?.any (·.lit p.x)

def glowAt (d : Display) (p : Point) : Option Color := d.fading[p]?

-- The colour to paint at a position.
def colorAt (d : Display) (p : Point) : Color :=
  if d.lit p then d.settings.graphics.on
  else (d.glowAt p).getD d.settings.graphics.off

def isFading (d : Display) : Bool := !d.fading.isEmpty

-- The glowing positions with their colours, row by row.
def fadingPixels (d : Display) : List (Point × Color) := d.fading.toList

-- Whether anything changed since the rows that wait were last handed over.
def isChanged (d : Display) : Bool := d.changed

structure DirtyLine where
  row : Nat
  columns : Span
deriving DecidableEq, Repr

-- What waits to be repainted of one row.
def dirtyLine? (d : Display) (y : Nat) : Option DirtyLine :=
  (d.rows[y]?.filter fun row => !row.dirty.isEmpty).map fun row => ⟨y, row.dirty⟩

-- The rows that wait to be repainted, from the top.
def dirtyLines (d : Display) : List DirtyLine := d.pending.toList.filterMap d.dirtyLine?

-- Hands over the rows that wait, after which nothing does.
def settle (d : Display) : Display :=
  { d with
    rows := d.rows.mapIdx fun y row => if d.pending.contains y then row.settle else row
    pending := ∅
    changed := false }

-- One pixel waits to be repainted.
def touch (d : Display) (p : Point) : Display :=
  { d with rows := d.rows.modify p.y (Row.touch p.x), pending := d.pending.insert p.y }

-- Every pixel waits to be repainted.
def touchAll (d : Display) : Display :=
  { d with
    rows := d.rows.map (Row.touchAll d.width)
    pending := d.pending.insertMany (List.range d.rows.length)
    changed := true }

-- Writes one pixel. Switching it on ends its glow. Positions outside the display are ignored.
def setPixel (d : Display) (p : Point) (on : Bool) : Display :=
  if d.contains p then
    let d := d.touch p
    { d with
      rows := d.rows.modify p.y (Row.set p.x on)
      changed := true
      fading := if on then d.fading.erase p else d.fading }
  else d

-- The lit positions, row by row.
def litPoints (d : Display) : List Point :=
  d.rows.zipIdx.flatMap fun (row, y) => ((List.range 128).filter row.lit).map fun x => ⟨x, y⟩

-- Switches every pixel off. Where fading is enabled the lit ones glow on.
def clear (d : Display) : Display :=
  let g := d.settings.graphics
  touchAll
    { d with
      rows := d.rows.map Row.clear
      fading := if g.fade then d.litPoints.foldl (·.insert · g.on) d.fading else d.fading }

-- Crops or extends the picture at its right and bottom.
def setResolution (d : Display) (resolution : Resolution) : Display :=
  let kept := d.rows.take resolution.height
  let rows := kept ++ List.replicate (resolution.height - kept.length) Row.blank
  touchAll
    { d with
      rows := rows.map (Row.crop resolution.width)
      resolution
      pending := d.pending.filter (decide <| · < resolution.height)
      fading := d.fading.filter fun p _ => p.x < resolution.width ∧ p.y < resolution.height }

-- A blank low-resolution display that is still to be painted.
def new (settings : Settings) : Display :=
  setResolution ⟨[], .low, settings, ∅, false, ∅⟩ .low

def editGraphics (d : Display) (f : Graphics → Graphics) : Display :=
  touchAll { d with settings := { d.settings with graphics := f d.settings.graphics } }

def setOn (d : Display) (color : Color) : Display := d.editGraphics ({ · with on := color })

def setOff (d : Display) (color : Color) : Display := d.editGraphics ({ · with off := color })

def setScale (d : Display) (scale : Nat) : Display :=
  d.editGraphics ({ · with scale := max scale 1 })

def setGrid (d : Display) (enabled : Bool) : Display :=
  d.editGraphics ({ · with grid := enabled })

-- Disabling the fade ends every glow.
def setFade (d : Display) (enabled : Bool) (speed : UInt8) : Display :=
  let d := if enabled then d else { d with fading := ∅ }
  d.editGraphics ({ · with fade := enabled, fadeSpeed := max speed 1 })

def setGraphics (d : Display) (g : Graphics) : Display :=
  ((((d.setOn g.on).setOff g.off).setScale g.scale).setGrid g.grid).setFade g.fade g.fadeSpeed

def setEdges (d : Display) (horizontal vertical : Edge) : Display :=
  { d with settings := { d.settings with horizontal, vertical } }

-- A glow one tick later. It ends when it reaches the target but for alpha.
def cool (target : Color) (speed : UInt8) (color : Color) : Option Color :=
  let next := color.approach target speed
  if next.sameRgb target then none else some next

-- One tick of fading. Every glowing pixel has to be repainted, also where its glow ends.
def animate (d : Display) : Display :=
  let g := d.settings.graphics
  if d.isFading then
    { d.fading.keys.foldl touch d with
      changed := true
      fading := d.fading.filterMap fun _ => cool g.off g.fadeSpeed }
  else d

end Display

end Chip8
