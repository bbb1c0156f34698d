import Mathlib.Data.List.Nodup
import Mathlib.Data.Nat.ModEq
import Chip8.Proofs.Display.WellFormed

namespace Chip8

namespace Edge

-- Where a position beyond the edge shows on an axis, by the remainder if at all.
def Shows (edge : Edge) (size n k : Nat) : Prop :=
  n < size ∧ k = n ∨ size ≤ n ∧ edge = .wrap ∧ k = n % size

variable {edge : Edge} {size n k : Nat}

theorem place_eq_some_iff : edge.place size n = some k ↔ edge.Shows size n k := by
  unfold place Shows
  by_cases h : n < size
  · simp [h, eq_comm]
  · cases edge <;> simp [h, Nat.le_of_not_lt h, eq_comm]

theorem Shows.mod_eq (h : edge.Shows size n k) : n % size = k := by
  rcases h with ⟨hlt, rfl⟩ | ⟨-, -, rfl⟩
  · exact Nat.mod_eq_of_lt hlt
  · rfl

-- No two positions less than a whole axis apart show at one place.
theorem Shows.offset_inj {start i j : Nat} (h : edge.Shows size (start + i) k)
    (h' : edge.Shows size (start + j) k) (hi : i < size) (hj : j < size) : i = j := by
  have hmod : start + i ≡ start + j [MOD size] := h.mod_eq.trans h'.mod_eq.symm
  exact (Nat.ModEq.add_left_cancel' start hmod).eq_of_lt_of_lt hi hj

end Edge

-- Rows of bits.
structure Bitmap where
  width : Nat
  height : Nat
  -- the highest of the bits of a row is its leftmost column
  row : Nat → Nat

namespace Bitmap

def IsSet (b : Bitmap) (dx dy : Nat) : Prop :=
  dx < b.width ∧ dy < b.height ∧ (b.row dy).testBit (b.width - 1 - dx) = true

-- The bits below a bitmap's last row do not belong to it.
theorem isSet_congr {b b' : Bitmap} (hwidth : b'.width = b.width) (hheight : b'.height = b.height)
    (hrow : ∀ dy < b.height, b'.row dy = b.row dy) (dx dy : Nat) :
    b'.IsSet dx dy ↔ b.IsSet dx dy := by
  unfold IsSet
  rw [hwidth, hheight]
  refine and_congr_right fun _ => and_congr_right fun hdy => ?_
  rw [hrow dy hdy]

end Bitmap

namespace Sprite

def bitmap (s : Sprite) : Bitmap where
  width := s.width
  height := s.rows.length
  row dy := (s.rows.getD dy 0).toNat

theorem width_le (s : Sprite) : s.width ≤ 16 := by
  unfold width
  split <;> decide

theorem mem_columns_iff (s : Sprite) (row : UInt16) (dx : Nat) :
    dx ∈ s.columns row ↔ dx < s.width ∧ row.toNat.testBit (s.width - 1 - dx) = true := by
  simp only [columns, List.mem_filter, List.mem_range]

theorem mem_points_iff (s : Sprite) (p : Point) :
    p ∈ s.points ↔
      ∃ dx dy, s.bitmap.IsSet dx dy ∧ p = ⟨s.position.x + dx, s.position.y + dy⟩ := by
  simp only [points, List.mem_flatMap, List.mem_map, Prod.exists, mem_columns_iff,
    List.mem_zipIdx_iff_getElem?, List.getElem?_eq_some_iff]
  constructor
  · rintro ⟨row, dy, ⟨hdy, hrow⟩, dx, ⟨hdx, hbit⟩, rfl⟩
    refine ⟨dx, dy, ⟨hdx, hdy, ?_⟩, rfl⟩
    simpa [bitmap, hdy, hrow] using hbit
  · rintro ⟨dx, dy, ⟨hdx, hdy, hbit⟩, rfl⟩
    have hdy : dy < s.rows.length := hdy
    refine ⟨s.rows[dy], dy, ⟨hdy, rfl⟩, dx, ⟨hdx, ?_⟩, rfl⟩
    simpa [bitmap, hdy] using hbit

theorem nodup_points (s : Sprite) : s.points.Nodup := by
  have hrows : (s.rows.zipIdx.map Prod.snd).Nodup := by
    rw [List.zipIdx_map_snd]
    exact List.nodup_range'
  refine List.nodup_flatMap.mpr ⟨fun entry _ => ?_, ?_⟩
  · refine List.Nodup.map (fun dx dx' h => ?_) (List.nodup_range.filter _)
    have hx := congrArg Point.x h
    exact Nat.add_left_cancel hx
  · refine (List.pairwise_map.mp hrows).imp fun hne => ?_
    refine List.disjoint_left.mpr fun p hp hp' => hne ?_
    obtain ⟨dx, -, rfl⟩ := List.mem_map.mp hp
    obtain ⟨dx', -, h⟩ := List.mem_map.mp hp'
    exact (Nat.add_left_cancel (congrArg Point.y h)).symm

end Sprite

namespace Display

-- The pixels under the set bits of a bitmap, as far as the edges let them show.
def Covers (d : Display) (position : Point) (b : Bitmap) (p : Point) : Prop :=
  ∃ dx dy, b.IsSet dx dy ∧ d.settings.horizontal.Shows d.width (position.x + dx) p.x ∧
    d.settings.vertical.Shows d.height (position.y + dy) p.y

variable {d : Display}

theorem place_eq_some_iff (d : Display) (p q : Point) :
    d.place p = some q ↔ d.settings.horizontal.Shows d.width p.x q.x ∧
      d.settings.vertical.Shows d.height p.y q.y := by
  simp only [place, Option.bind_eq_bind, Option.bind_eq_some_iff, Option.pure_def,
    Option.some.injEq, Edge.place_eq_some_iff]
  constructor
  · rintro ⟨x, hx, y, hy, rfl⟩
    exact ⟨hx, hy⟩
  · rintro ⟨hx, hy⟩
    exact ⟨q.x, hx, q.y, hy, rfl⟩

theorem mem_targets_iff (d : Display) (s : Sprite) (p : Point) :
    p ∈ d.targets s ↔ d.Covers s.position s.bitmap p := by
  simp only [targets, List.mem_filterMap, s.mem_points_iff, place_eq_some_iff]
  constructor
  · rintro ⟨_, ⟨dx, dy, hset, rfl⟩, hx, hy⟩
    exact ⟨dx, dy, hset, hx, hy⟩
  · rintro ⟨dx, dy, hset, hx, hy⟩
    exact ⟨_, ⟨dx, dy, hset, rfl⟩, hx, hy⟩

theorem contains_of_mem_targets {s : Sprite} {p : Point} (h : p ∈ d.targets s) :
    d.contains p = true := by
  obtain ⟨q, -, hq⟩ := List.mem_filterMap.mp h
  exact contains_of_place hq

theorem sixteen_le_width (d : Display) : 16 ≤ d.width := by
  unfold width
  cases d.resolution <;> decide

theorem sixteen_le_height (d : Display) : 16 ≤ d.height := by
  unfold height
  cases d.resolution <;> decide

-- Only a sprite higher than the display wraps onto itself.
theorem nodup_targets (d : Display) (s : Sprite) (h : s.rows.length ≤ d.height) :
    (d.targets s).Nodup := by
  have hwidth := Nat.le_trans s.width_le d.sixteen_le_width
  rw [targets, List.Nodup, List.pairwise_filterMap]
  refine s.nodup_points.pairwise_of_forall_ne fun p hp p' hp' hne q hq q' hq' heq => hne ?_
  subst heq
  obtain ⟨dx, dy, ⟨hdx, hdy, -⟩, rfl⟩ := (s.mem_points_iff p).mp hp
  obtain ⟨dx', dy', ⟨hdx', hdy', -⟩, rfl⟩ := (s.mem_points_iff p').mp hp'
  obtain ⟨hx, hy⟩ := (d.place_eq_some_iff _ q).mp hq
  obtain ⟨hx', hy'⟩ := (d.place_eq_some_iff _ q).mp hq'
  have hcolumn := hx.offset_inj hx' (Nat.lt_of_lt_of_le hdx hwidth)
    (Nat.lt_of_lt_of_le hdx' hwidth)
  have hrow := hy.offset_inj hy' (Nat.lt_of_lt_of_le hdy h) (Nat.lt_of_lt_of_le hdy' h)
  rw [hcolumn, hrow]

-- A pixel that is met is inverted, and all others stay.
theorem lit_toggle {drawn : Display × Bool} (h : drawn.1.WellFormed) {p : Point}
    (hp : drawn.1.contains p = true) (q : Point) :
    (toggle drawn p).1.lit q = (drawn.1.lit q ^^ decide (q = p)) := by
  simp only [toggle, lit_setPixel _ h.length_rows, hp, and_true]
  by_cases hq : q = p
  · subst hq
    simp
  · simp [hq]

theorem contains_toggle (drawn : Display × Bool) (p q : Point) :
    (toggle drawn p).1.contains q = drawn.1.contains q := by
  apply contains_congr
  unfold toggle setPixel
  split <;> rfl

theorem lit_foldl_toggle {drawn : Display × Bool} (h : drawn.1.WellFormed) {ps : List Point}
    (hps : ∀ p ∈ ps, drawn.1.contains p = true) (q : Point) :
    (ps.foldl toggle drawn).1.lit q = (drawn.1.lit q ^^ decide (ps.count q % 2 = 1)) := by
  induction ps generalizing drawn with
  | nil => simp
  | cons p ps ih =>
    rw [List.forall_mem_cons] at hps
    have hrest : ∀ r ∈ ps, (toggle drawn p).1.contains r = true := fun r hr =>
      (contains_toggle drawn p r).trans (hps.2 r hr)
    rw [List.foldl_cons, ih (h.setPixel p _) hrest, lit_toggle h hps.1, List.count_cons,
      Bool.xor_assoc]
    by_cases hq : q = p
    · subst hq
      rcases Nat.mod_two_eq_zero_or_one (ps.count q) with hcount | hcount <;>
        simp [hcount, Nat.add_mod]
    · simp [hq, Ne.symm hq]

-- No pixel that is still to be met has changed by then.
theorem collision_foldl_toggle {drawn : Display × Bool} (h : drawn.1.WellFormed)
    {ps : List Point} (hps : ∀ p ∈ ps, drawn.1.contains p = true) (hnodup : ps.Nodup) :
    (ps.foldl toggle drawn).2 = (drawn.2 || ps.any drawn.1.lit) := by
  induction ps generalizing drawn with
  | nil => simp
  | cons p ps ih =>
    rw [List.forall_mem_cons] at hps
    obtain ⟨hp, hnodup⟩ := List.nodup_cons.mp hnodup
    have hrest : ∀ r ∈ ps, (toggle drawn p).1.contains r = true := fun r hr =>
      (contains_toggle drawn p r).trans (hps.2 r hr)
    have hsame : ∀ r ∈ ps, (toggle drawn p).1.lit r = drawn.1.lit r := fun r hr => by
      have hne : r ≠ p := fun heq => hp (heq ▸ hr)
      rw [lit_toggle h hps.1, decide_eq_false hne, Bool.xor_false]
    have hany : ps.any (toggle drawn p).1.lit = ps.any drawn.1.lit := by
      rw [Bool.eq_iff_iff, List.any_eq_true, List.any_eq_true]
      exact exists_congr fun r => and_congr_right fun hr => by rw [hsame r hr]
    rw [List.foldl_cons, ih (h.setPixel p _) hrest hnodup, hany, List.any_cons, ← Bool.or_assoc]
    rfl

theorem WellFormed.lit_draw (h : d.WellFormed) (s : Sprite) (p : Point) :
    (d.draw s).1.lit p = (d.lit p ^^ decide ((d.targets s).count p % 2 = 1)) :=
  lit_foldl_toggle h (fun _ hp => contains_of_mem_targets hp) p

-- A sprite no higher than the display inverts the pixels that it covers.
theorem WellFormed.lit_draw_iff (h : d.WellFormed) {s : Sprite} (hs : s.rows.length ≤ d.height)
    (p : Point) :
    (d.draw s).1.lit p = true ↔ Xor (d.lit p = true) (d.Covers s.position s.bitmap p) := by
  rw [h.lit_draw, ← mem_targets_iff]
  by_cases hp : p ∈ d.targets s
  · rw [List.count_eq_one_of_mem (d.nodup_targets s hs) hp]
    simp [hp, Xor]
  · rw [List.count_eq_zero_of_not_mem hp]
    simp [hp, Xor]

theorem WellFormed.collision_draw_iff (h : d.WellFormed) {s : Sprite}
    (hs : s.rows.length ≤ d.height) :
    (d.draw s).2 = true ↔ ∃ p, d.Covers s.position s.bitmap p ∧ d.lit p = true := by
  rw [Display.draw, collision_foldl_toggle h (fun _ hp => contains_of_mem_targets hp)
    (d.nodup_targets s hs), Bool.false_or, List.any_eq_true]
  exact exists_congr fun p => and_congr_left fun _ => d.mem_targets_iff s p

theorem resolution_draw (d : Display) (s : Sprite) : (d.draw s).1.resolution = d.resolution :=
  List.foldlRecOn (motive := fun drawn => drawn.1.resolution = d.resolution) _ toggle rfl
    (fun drawn hdrawn p _ => by
      refine Eq.trans ?_ hdrawn
      unfold toggle setPixel
      split <;> rfl)

end Display

end Chip8
