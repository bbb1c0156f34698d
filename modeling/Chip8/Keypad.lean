import Chip8.Digit

namespace Chip8

-- One of the sixteen keys, by its digit.
abbrev Key := Digit

-- A key of the host keyboard, by its name: `Key1` to `Key9` and `Key0` for digits, capital
-- letters, and words such as `Space`.
abbrev HostKey := String

inductive Layout
  -- each key is the host key of its digit
  | literal
  -- the square of sixteen keys under the left hand
  | modern
deriving DecidableEq, Repr

namespace Layout

def table : Layout → List (HostKey × Key)
  | literal => [
    ("Key1", 0x1), ("Key2", 0x2), ("Key3", 0x3), ("C", 0xC),
    ("Key4", 0x4), ("Key5", 0x5), ("Key6", 0x6), ("D", 0xD),
    ("Key7", 0x7), ("Key8", 0x8), ("Key9", 0x9), ("E", 0xE),
    ("A", 0xA), ("Key0", 0x0), ("B", 0xB), ("F", 0xF)]
  | modern => [
    ("Key1", 0x1), ("Key2", 0x2), ("Key3", 0x3), ("Key4", 0xC),
    ("Q", 0x4), ("W", 0x5), ("E", 0x6), ("R", 0xD),
    ("A", 0x7), ("S", 0x8), ("D", 0x9), ("F", 0xE),
    ("Z", 0xA), ("X", 0x0), ("C", 0xB), ("V", 0xF)]

def key? (layout : Layout) (host : HostKey) : Option Key :=
  layout.table.lookup host

-- Every key has a place in every layout.
theorem exists_host (layout : Layout) (key : Key) :
    ∃ host, (host, key) ∈ layout.table := by
  have h : ∀ key : Key, key ∈ layout.table.map Prod.snd := by cases layout <;> decide
  obtain ⟨⟨host, _⟩, hmem, rfl⟩ := List.mem_map.mp (h key)
  exact ⟨host, hmem⟩

end Layout

-- The host keys that are held, and those of them that went down in the last frame.
structure Keyboard where
  held : List HostKey
  pressed : List HostKey
deriving DecidableEq, Repr

namespace Keyboard

def untouched : Keyboard := ⟨[], []⟩

def release (k : Keyboard) (key : HostKey) : Keyboard := { k with held := k.held.erase key }

-- A key that is already held is not pressed anew.
def press (k : Keyboard) (key : HostKey) : Keyboard :=
  if key ∈ k.held then k else ⟨key :: k.held, key :: k.pressed⟩

-- One frame of key events: first all releases, then all presses.
def frame (k : Keyboard) (up down : List HostKey) : Keyboard :=
  down.foldl press (up.foldl release { k with pressed := [] })

end Keyboard

end Chip8
