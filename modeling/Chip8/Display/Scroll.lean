import Chip8.Display.Basic

namespace Chip8

inductive Direction
  | down
  | right
  | left
deriving DecidableEq, Repr

namespace Display

-- Distances are measured in high-resolution pixels.
def distance (d : Display) (n : Nat) : Nat :=
  match d.resolution with
  | .low => n / 2
  | .high => n

-- Distances narrow to 32 bits. From 128 on nothing is left of a row.
def Row.shiftRight (width n : Nat) (r : Row) : Row :=
  let n := n % UInt32.size
  { r with pixels := (if n < 128 then r.pixels <<< n else 0) &&& mask width }

def Row.shiftLeft (n : Nat) (r : Row) : Row :=
  let n := n % UInt32.size
  { r with pixels := if n < 128 then r.pixels >>> n else 0 }

-- Moves the last `n` rows to the top and blanks them.
def lower (n : Nat) (rows : List Row) : List Row :=
  let kept := rows.length - min n rows.length
  (rows.drop kept).map Row.clear ++ rows.take kept

-- Moves the lit pixels and leaves the glowing ones where they are.
def scroll (d : Display) (direction : Direction) (n : Nat) : Display :=
  let n := d.distance n
  touchAll
    { d with
      rows := match direction with
        | .down => lower n d.rows
        | .right => d.rows.map (Row.shiftRight d.width n)
        | .left => d.rows.map (Row.shiftLeft n) }

theorem length_lower (n : Nat) (rows : List Row) : (lower n rows).length = rows.length := by
  simp only [lower, List.length_append, List.length_map, List.length_drop, List.length_take]
  omega

theorem length_rows_scroll (d : Display) (direction : Direction) (n : Nat) :
    (d.scroll direction n).rows.length = d.rows.length := by
  cases direction <;> simp [scroll, touchAll, length_lower]

end Display

end Chip8
