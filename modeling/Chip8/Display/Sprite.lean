import Chip8.Display.Basic

namespace Chip8

-- Rows of 8 or 16 columns that are XORed onto the picture.
structure Sprite where
  position : Point
  -- 16 columns rather than 8
  wide : Bool
  -- the highest bit of a row is its leftmost column
  rows : List UInt16
deriving DecidableEq, Repr

namespace Sprite

def width (s : Sprite) : Nat := if s.wide then 16 else 8

-- The columns that a row sets, from the left.
def columns (s : Sprite) (row : UInt16) : List Nat :=
  (List.range s.width).filter fun dx => row.toNat.testBit (s.width - 1 - dx)

-- The positions that the sprite sets, before edges are regarded, row by row.
def points (s : Sprite) : List Point :=
  s.rows.zipIdx.flatMap fun (row, dy) =>
    (s.columns row).map fun dx => ⟨s.position.x + dx, s.position.y + dy⟩

end Sprite

namespace Display

-- Where a position past an edge shows, if it does.
def place (d : Display) (p : Point) : Option Point := do
  let x ← d.settings.horizontal.place d.width p.x
  let y ← d.settings.vertical.place d.height p.y
  return ⟨x, y⟩

-- The pixels that a sprite toggles. One that wraps onto itself comes more than once.
def targets (d : Display) (s : Sprite) : List Point := s.points.filterMap d.place

-- Inverts one pixel. The flag is raised if it was lit.
def toggle (drawn : Display × Bool) (p : Point) : Display × Bool :=
  let lit := drawn.1.lit p
  (drawn.1.setPixel p (!lit), drawn.2 || lit)

-- XORs a sprite onto the picture and tells whether any lit pixel was switched off.
def draw (d : Display) (s : Sprite) : Display × Bool :=
  (d.targets s).foldl toggle (d, false)

theorem contains_of_place {d : Display} {p q : Point} (h : d.place p = some q) :
    d.contains q = true := by
  simp only [place, Option.bind_eq_bind, Option.bind_eq_some_iff, Option.pure_def,
    Option.some.injEq] at h
  obtain ⟨x, hx, y, hy, rfl⟩ := h
  rw [contains, decide_eq_true_eq]
  exact ⟨Edge.lt_of_place d.resolution.width_pos hx,
    Edge.lt_of_place d.resolution.height_pos hy⟩

end Display

end Chip8
