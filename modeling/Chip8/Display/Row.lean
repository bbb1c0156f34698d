namespace Chip8.Display

-- A stretch of columns, empty where it does not end after its first column.
structure Span where
  first : Nat
  past : Nat
deriving DecidableEq, Repr

namespace Span

def nothing : Span := ⟨0, 0⟩

def isEmpty (s : Span) : Bool := decide (s.past ≤ s.first)

-- The least stretch that holds a column and all of this one.
def expand (s : Span) (x : Nat) : Span :=
  if s.isEmpty then ⟨x, x + 1⟩ else ⟨min s.first x, max s.past (x + 1)⟩

def columns (s : Span) : List Nat := List.range' s.first (s.past - s.first)

theorem isEmpty_eq_false_iff (s : Span) : s.isEmpty = false ↔ s.first < s.past := by
  simp [isEmpty]

theorem mem_columns (s : Span) (x : Nat) : x ∈ s.columns ↔ s.first ≤ x ∧ x < s.past := by
  simp only [columns, List.mem_range'_1]
  omega

theorem isEmpty_expand (s : Span) (x : Nat) : (s.expand x).isEmpty = false := by
  rw [isEmpty_eq_false_iff]
  unfold expand
  split
  case isTrue => exact Nat.lt_succ_self x
  case isFalse => exact Nat.lt_of_le_of_lt (Nat.min_le_right _ _) (Nat.le_max_right _ (x + 1))

theorem mem_columns_expand (s : Span) (x : Nat) : x ∈ (s.expand x).columns := by
  rw [mem_columns]
  unfold expand
  split <;> simp only <;> omega

theorem mem_columns_expand_of_mem {s : Span} {y : Nat} (h : y ∈ s.columns) (x : Nat) :
    y ∈ (s.expand x).columns := by
  rw [mem_columns] at h
  have hs : s.isEmpty = false := s.isEmpty_eq_false_iff.mpr (by omega)
  simp only [mem_columns, expand, hs, Bool.false_eq_true, if_false]
  omega

theorem past_expand_le {s : Span} {x width : Nat} (hs : s.past ≤ width) (hx : x < width) :
    (s.expand x).past ≤ width := by
  unfold expand
  split
  case isTrue => exact hx
  case isFalse => exact Nat.max_le.mpr ⟨hs, hx⟩

end Span

-- Which columns are lit, and which have to be repainted.
structure Row where
  -- bit `x` is column `x`
  pixels : BitVec 128
  dirty : Span
deriving DecidableEq

namespace Row

def blank : Row := ⟨0, .nothing⟩

def lit (r : Row) (x : Nat) : Bool := r.pixels.getLsbD x

def touch (x : Nat) (r : Row) : Row := { r with dirty := r.dirty.expand x }

def touchAll (width : Nat) (r : Row) : Row := { r with dirty := ⟨0, width⟩ }

def settle (r : Row) : Row := { r with dirty := .nothing }

-- Switches a column on or off.
def set (x : Nat) (on : Bool) (r : Row) : Row :=
  if on then { r with pixels := r.pixels ||| BitVec.twoPow 128 x }
  else { r with pixels := r.pixels &&& ~~~BitVec.twoPow 128 x }

-- Switches every column off.
def clear (r : Row) : Row := { r with pixels := 0 }

-- The columns below a width.
def mask (width : Nat) : BitVec 128 := BitVec.ofNat 128 (1 <<< width - 1)

-- Switches the columns from a width on off.
def crop (width : Nat) (r : Row) : Row := { r with pixels := r.pixels &&& mask width }

theorem lit_blank (x : Nat) : blank.lit x = false := by simp [lit, blank]

theorem dirty_set (x : Nat) (on : Bool) (r : Row) : (r.set x on).dirty = r.dirty := by
  cases on <;> rfl

theorem lit_set (r : Row) (x : Nat) (on : Bool) (hx : x < 128) (y : Nat) :
    (r.set x on).lit y = if y = x then on else r.lit y := by
  cases on with
  | true =>
    simp only [lit, set, if_true, BitVec.getLsbD_or, BitVec.getLsbD_twoPow]
    by_cases h : y = x
    · subst h
      simp [hx]
    · simp [h, Ne.symm h]
  | false =>
    simp only [lit, set, Bool.false_eq_true, if_false, BitVec.getLsbD_and,
      BitVec.getLsbD_not, BitVec.getLsbD_twoPow]
    by_cases h : y = x
    · subst h
      simp [hx]
    · by_cases hy : y < 128
      · simp [h, Ne.symm h, hy]
      · simp [h, hy, BitVec.getLsbD_of_ge r.pixels y (by omega)]

theorem lit_clear (r : Row) (x : Nat) : r.clear.lit x = false := by simp [lit, clear]

theorem getLsbD_mask {width : Nat} (hw : width ≤ 128) (x : Nat) :
    (mask width).getLsbD x = decide (x < width) := by
  simp only [mask, Nat.one_shiftLeft, BitVec.getLsbD_ofNat, Nat.testBit_two_pow_sub_one]
  by_cases h : x < width
  · simp [h, Nat.lt_of_lt_of_le h hw]
  · simp [h]

theorem lit_crop (r : Row) (width : Nat) (hw : width ≤ 128) (x : Nat) :
    (r.crop width).lit x = (decide (x < width) && r.lit x) := by
  simp [lit, crop, getLsbD_mask hw, Bool.and_comm]

end Row

end Chip8.Display
