import Mathlib.Data.List.Sort
import Chip8.Proofs.Display.Afterglow

namespace Chip8.Display

variable {d d' : Display}

-- The picture of `d'` is that of `d`, moved. What leaves the display is lost, what enters is dark.
def Shifted (d : Display) (direction : Direction) (distance : Nat) (d' : Display) : Prop :=
  ∀ p, d.contains p = true → (d'.lit p = true ↔
    match direction with
    | .down => distance ≤ p.y ∧ d.lit ⟨p.x, p.y - distance⟩ = true
    | .right => distance ≤ p.x ∧ d.lit ⟨p.x - distance, p.y⟩ = true
    | .left => p.x + distance < d.width ∧ d.lit ⟨p.x + distance, p.y⟩ = true)

-- Every lit pixel is so close to an edge that a move takes it out of the display.
def Leaves (d : Display) (direction : Direction) (distance : Nat) : Prop :=
  ∀ p, d.lit p = true →
    match direction with
    | .down => d.height ≤ p.y + distance
    | .right => d.width ≤ p.x + distance
    | .left => p.x < distance

def IsBlank (d : Display) : Prop := ∀ p, d.lit p = false

theorem contains_of_lit {p : Point} (hp : d.lit p = true) : d.contains p = true :=
  (Bool.and_eq_true_iff.mp hp).1

-- A lit pixel is lost or is found again at the given distance.
theorem Shifted.isBlank_iff {direction : Direction} {distance : Nat}
    (h : d.Shifted direction distance d') (hr : d'.resolution = d.resolution) :
    d'.IsBlank ↔ d.Leaves direction distance := by
  constructor
  · intro hblank p hp
    have hin := (d.contains_iff p).mp (contains_of_lit hp)
    by_contra hstays
    cases direction with
    | down =>
      have hq := h ⟨p.x, p.y + distance⟩
        ((d.contains_iff _).mpr ⟨hin.1, by simpa using hstays⟩)
      simp [hblank _, hp] at hq
    | right =>
      have hq := h ⟨p.x + distance, p.y⟩
        ((d.contains_iff _).mpr ⟨by simpa using hstays, hin.2⟩)
      simp [hblank _, hp] at hq
    | left =>
      have hle : distance ≤ p.x := by simpa using hstays
      have hq := h ⟨p.x - distance, p.y⟩ ((d.contains_iff _).mpr ⟨by dsimp; omega, hin.2⟩)
      simp [hblank _, hp, Nat.sub_add_cancel hle, hin.1] at hq
  · intro hleaves p
    by_contra hlit
    rw [Bool.not_eq_false] at hlit
    have hcontains : d.contains p = true := contains_congr hr p ▸ contains_of_lit hlit
    have hin := (d.contains_iff p).mp hcontains
    have hfrom := (h p hcontains).mp hlit
    cases direction with
    | down | right =>
      have hgone := hleaves _ hfrom.2
      dsimp at hgone hfrom
      omega
    | left =>
      have hgone := hleaves _ hfrom.2
      dsimp at hgone
      omega

-- What goes at least the size of the display leaves it.
theorem leaves_of_width_le {direction : Direction} (hd : direction ≠ .down) {distance : Nat}
    (hdistance : d.width ≤ distance) : d.Leaves direction distance := by
  intro p hp
  have hin := (d.contains_iff p).mp (contains_of_lit hp)
  cases direction with
  | down => exact absurd rfl hd
  | right => exact Nat.le_trans hdistance (Nat.le_add_left _ _)
  | left => exact Nat.lt_of_lt_of_le hin.1 hdistance

theorem Cropped.shifted_scroll_down (h : d.Cropped) (n : Nat) :
    d.Shifted .down (d.distance n) (d.scroll .down n) := by
  intro p hp
  rw [h.lit_scroll, hp, Bool.true_and]
  simp only [origin]
  split
  case isTrue hle => simp [hle]
  case isFalse hle => simp [hle]

-- Once everything waits, each row is handed over from its first column to its last.
theorem dirtyLines_touchAll (hlen : d.rows.length = d.height)
    (hpending : ∀ y ∈ d.pending, y < d.height) :
    d.touchAll.dirtyLines = (List.range d.height).map fun y => ⟨y, ⟨0, d.width⟩⟩ := by
  have hrows : d.touchAll.pending.toList = List.range d.height := by
    refine List.Pairwise.eq_of_mem_iff (Std.ExtTreeSet.ordered_toList.imp Nat.compare_eq_lt.mp)
      List.pairwise_lt_range fun y => ?_
    rw [Std.ExtTreeSet.mem_toList, mem_pending_touchAll_iff hlen hpending, List.mem_range]
  have hline : ∀ y ∈ List.range d.height, d.touchAll.dirtyLine? y = some ⟨y, ⟨0, d.width⟩⟩ := by
    intro y hy
    have hrow := List.getElem?_eq_getElem (show y < d.rows.length from
      hlen ▸ List.mem_range.mp hy)
    have hwidth : (Span.mk 0 d.width).isEmpty = false :=
      (Span.isEmpty_eq_false_iff _).mpr d.resolution.width_pos
    simp [dirtyLine?, touchAll, Row.touchAll, hrow, hwidth]
  rw [dirtyLines, hrows, List.filterMap_congr hline, List.filterMap_eq_map']

theorem Cropped.shifted_scroll (h : d.Cropped) {direction : Direction} (hd : direction ≠ .down)
    (n : Nat) : d.Shifted direction (d.distance n % UInt32.size) (d.scroll direction n) := by
  intro p hp
  rw [h.lit_scroll, hp, Bool.true_and]
  cases direction with
  | down => exact absurd rfl hd
  | right =>
    simp only [origin]
    split
    case isTrue hle => simp [hle]
    case isFalse hle => simp [hle]
  | left =>
    simp only [origin, Option.any_some]
    refine ⟨fun hlit => ⟨?_, hlit⟩, fun hlit => hlit.2⟩
    exact ((d.contains_iff _).mp (contains_of_lit hlit)).1

-- The cut shows exactly where it leaves a lit pixel in the display that was to leave it.
theorem Cropped.shifted_scroll_iff (h : d.Cropped) {direction : Direction}
    (hd : direction ≠ .down) (n : Nat) :
    d.Shifted direction (d.distance n) (d.scroll direction n) ↔
      d.distance n < UInt32.size ∨ d.Leaves direction (d.distance n % UInt32.size) := by
  have hcut := h.shifted_scroll hd n
  by_cases hfits : d.distance n < UInt32.size
  · rw [Nat.mod_eq_of_lt hfits] at hcut
    exact iff_of_true hcut (.inl hfits)
  · have hwidth : d.width ≤ d.distance n := by
      have := d.resolution.width_le
      simp only [width, UInt32.size] at hfits ⊢
      omega
    have hleaves : d.Leaves direction (d.distance n) := leaves_of_width_le hd hwidth
    simp only [hfits, false_or]
    rw [← hcut.isBlank_iff rfl]
    constructor
    · intro hshifted
      exact (hshifted.isBlank_iff rfl).mpr hleaves
    · intro hblank p hp
      have hin := (d.contains_iff p).mp hp
      rw [hblank p]
      cases direction with
      | down => exact absurd rfl hd
      | right => simp only [Bool.false_eq_true, false_iff]; omega
      | left => simp only [Bool.false_eq_true, false_iff]; omega

-- Down the picture moves by whole rows, however far, and each row is to be repainted then.
theorem scrolled_down_by_rows (settings : Settings) (operations : List Operation) (n : Nat) :
    let d := (new settings).run operations
    let after := d.scroll .down n
    d.Shifted .down (if d.resolution = .low then n / 2 else n) after ∧
      after.dirtyLines = ((List.range d.height).map fun y => ⟨y, ⟨0, d.width⟩⟩) ∧
      after.rows.length = d.rows.length ∧ after.resolution = d.resolution := by
  intro d after
  have h : d.WellFormed := (wellFormed_new settings).run operations
  have hdistance : d.distance n = if d.resolution = .low then n / 2 else n := by
    unfold distance
    cases d.resolution <;> rfl
  have hlength : after.rows.length = d.rows.length := d.length_rows_scroll .down n
  refine ⟨hdistance ▸ h.shifted_scroll_down n, ?_, hlength, rfl⟩
  refine dirtyLines_touchAll ?_ h.pending_lt
  exact (length_lower (d.distance n) d.rows).trans h.length_rows

-- Sideways the picture moves by the distance less its multiples of 2³². So it moves by the distance
-- itself, and a distance of a whole width blanks it, just where the distance has 32 bits or what is
-- left of it still takes every lit pixel out of the display.
theorem shifted_sideways_iff (settings : Settings) (operations : List Operation) (n : Nat) :
    let d := (new settings).run operations
    let distance := d.distance n
    let cut := distance % UInt32.size
    (d.Shifted .right cut (d.scroll .right n) ∧ d.Shifted .left cut (d.scroll .left n)) ∧
      ((d.scroll .right n).IsBlank ↔ d.Leaves .right cut) ∧
      ((d.scroll .left n).IsBlank ↔ d.Leaves .left cut) ∧
      (d.Shifted .right distance (d.scroll .right n) ↔
        distance < UInt32.size ∨ d.Leaves .right cut) ∧
      (d.Shifted .left distance (d.scroll .left n) ↔
        distance < UInt32.size ∨ d.Leaves .left cut) := by
  intro d distance cut
  have h : d.Cropped := ((wellFormed_new settings).run operations).toCropped
  have hright : d.Shifted .right cut (d.scroll .right n) := h.shifted_scroll (by decide) n
  have hleft : d.Shifted .left cut (d.scroll .left n) := h.shifted_scroll (by decide) n
  exact ⟨⟨hright, hleft⟩, hright.isBlank_iff rfl, hleft.isBlank_iff rfl,
    h.shifted_scroll_iff (by decide) n, h.shifted_scroll_iff (by decide) n⟩

-- A low-resolution picture that is to move by 2³² columns stays where it is.
theorem picture_kept_by_far_scroll :
    let d := (new .standard).run [.setPixel ⟨0, 0⟩ true]
    let n := 8589934592
    n < UInt64.size ∧ d.width ≤ d.distance n ∧
      (d.scroll .right n).lit ⟨0, 0⟩ = true ∧ (d.scroll .left n).lit ⟨0, 0⟩ = true ∧
      ¬ d.Shifted .right (d.distance n) (d.scroll .right n) ∧
      ¬ d.Shifted .left (d.distance n) (d.scroll .left n) := by
  intro d n
  have hright : (d.scroll .right n).lit ⟨0, 0⟩ = true := by decide +kernel
  have hleft : (d.scroll .left n).lit ⟨0, 0⟩ = true := by decide +kernel
  have hdistance : d.distance n = 4294967296 := by decide +kernel
  refine ⟨by decide, by decide +kernel, hright, hleft, ?_, ?_⟩
  · intro h
    have hle := ((h ⟨0, 0⟩ (by decide +kernel)).mp hright).1
    rw [hdistance] at hle
    exact absurd hle (by decide)
  · intro h
    have hlt := ((h ⟨0, 0⟩ (by decide +kernel)).mp hleft).1
    rw [hdistance] at hlt
    exact absurd hlt (by decide +kernel)

end Chip8.Display
