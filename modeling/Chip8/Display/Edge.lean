namespace Chip8

-- What becomes of a coordinate past the end of an axis.
inductive Edge
  | clip
  | wrap
deriving DecidableEq, Repr

namespace Edge

-- The coordinate at which position `n` of an axis of the given size shows, if it does.
def place (edge : Edge) (size n : Nat) : Option Nat :=
  if n < size then some n
  else match edge with
    | .clip => none
    | .wrap => some (n % size)

theorem place_of_lt (edge : Edge) {size n : Nat} (h : n < size) : edge.place size n = some n := by
  simp [place, h]

theorem place_clip_of_le {size n : Nat} (h : size ≤ n) : clip.place size n = none := by
  simp [place, Nat.not_lt.mpr h]

theorem place_wrap (size n : Nat) : wrap.place size n = some (n % size) := by
  by_cases h : n < size <;> simp [place, h, Nat.mod_eq_of_lt]

theorem lt_of_place {edge : Edge} {size n k : Nat} (hs : 0 < size)
    (h : edge.place size n = some k) : k < size := by
  unfold place at h
  split at h
  · simp_all
  · cases edge with
    | clip => simp at h
    | wrap =>
      obtain rfl : n % size = k := by simpa using h
      exact Nat.mod_lt n hs

end Edge

end Chip8
