import Mathlib.Data.List.Basic
import Chip8.Display.Frame
import Chip8.Proofs.Display.WellFormed

namespace Chip8

namespace Frame

theorem size_put (frame : Frame) (i : Nat) (color : Color) :
    (frame.put i color).bytes.size = frame.bytes.size := by
  simp only [put]
  split <;> simp

theorem size_foldl {α : Type} {step : Frame → α → Frame}
    (h : ∀ frame a, (step frame a).bytes.size = frame.bytes.size) (as : List α) (frame : Frame) :
    (as.foldl step frame).bytes.size = frame.bytes.size := by
  induction as generalizing frame with
  | nil => rfl
  | cons a as ih => exact (ih (step frame a)).trans (h frame a)

theorem pixel?_put_same {frame : Frame} {i : Nat} (hi : 4 * i + 4 ≤ frame.bytes.size)
    (color : Color) : (frame.put i color).pixel? i = some color := by
  have h₀ : 4 * i < frame.bytes.size := by omega
  have h₁ : 4 * i + 1 < frame.bytes.size := by omega
  have h₂ : 4 * i + 2 < frame.bytes.size := by omega
  have h₃ : 4 * i + 3 < frame.bytes.size := by omega
  simp [put, pixel?, hi, h₀, h₁, h₂, h₃]

theorem pixel?_put_of_ne (frame : Frame) {i j : Nat} (hij : i ≠ j) (color : Color) :
    (frame.put i color).pixel? j = frame.pixel? j := by
  have hstart : 4 * i ≠ 4 * j := by omega
  have hne (k l : Nat) (hk : k < 4) (hl : l < 4) : 4 * i + k ≠ 4 * j + l := by omega
  have hfirst (l : Nat) (hl : l < 4) : 4 * i ≠ 4 * j + l := hne 0 l (by omega) hl
  have hlast (k : Nat) (hk : k < 4) : 4 * i + k ≠ 4 * j := hne k 0 hk (by omega)
  simp only [put]
  split
  · simp [pixel?, hstart, hne, hfirst, hlast]
  · rfl

-- A step of painting seen from one pixel of a frame of a fixed size: where it hits the pixel it
-- leaves a certain colour there, and nothing else happens to it.
structure Colours (size j : Nat) (color : Color) (hit : Prop) (step : Frame → Frame) : Prop where
  size_eq : ∀ frame, frame.bytes.size = size → (step frame).bytes.size = size
  of_hit : hit → ∀ frame, frame.bytes.size = size → (step frame).pixel? j = some color
  of_miss : ¬hit → ∀ frame, frame.bytes.size = size → (step frame).pixel? j = frame.pixel? j

namespace Colours

variable {size j : Nat} {color : Color} {hit hit' : Prop} {step : Frame → Frame}

theorem congr (h : Colours size j color hit step) (hh : hit ↔ hit') :
    Colours size j color hit' step := by
  rwa [← propext hh]

theorem put {i : Nat} {other : Color} (hi : 4 * i + 4 ≤ size) (hc : i = j → other = color) :
    Colours size j color (i = j) (·.put i other) where
  size_eq frame hsize := (frame.size_put i other).trans hsize
  of_hit heq frame hsize := by
    subst heq
    rw [pixel?_put_same (by omega), hc rfl]
  of_miss hne frame _ := frame.pixel?_put_of_ne hne other

-- Of many steps one hit is enough.
theorem foldl {α : Type} {steps : Frame → α → Frame} {hits : α → Prop} (as : List α)
    (h : ∀ a ∈ as, Colours size j color (hits a) (steps · a)) :
    Colours size j color (∃ a ∈ as, hits a) (fun frame => as.foldl steps frame) := by
  induction as with
  | nil =>
    exact ⟨fun _ hsize => hsize, fun ⟨_, hmem, _⟩ => absurd hmem List.not_mem_nil,
      fun _ _ _ => rfl⟩
  | cons a as ih =>
    have ha := h a List.mem_cons_self
    have hrest := ih (fun b hb => h b (List.mem_cons_of_mem a hb))
    refine ⟨fun frame hsize => hrest.size_eq _ (ha.size_eq frame hsize), ?_, ?_⟩
    · intro hhit frame hsize
      simp only [List.foldl_cons]
      by_cases hlater : ∃ b ∈ as, hits b
      · exact hrest.of_hit hlater _ (ha.size_eq frame hsize)
      · rw [hrest.of_miss hlater _ (ha.size_eq frame hsize)]
        apply ha.of_hit
        · simpa [hlater] using hhit
        · exact hsize
    · intro hmiss frame hsize
      simp only [List.mem_cons, exists_eq_or_imp, not_or] at hmiss
      simp only [List.foldl_cons]
      rw [hrest.of_miss hmiss.2 _ (ha.size_eq frame hsize), ha.of_miss hmiss.1 frame hsize]

end Colours

end Frame

namespace Display

theorem width_mul_pixelSize (d : Display) : d.width * d.pixelSize = d.frameSize.1 := by
  simp only [width, pixelSize, frameSize]
  cases d.resolution <;> simp only [Resolution.width, Resolution.pixelSize] <;> omega

theorem height_mul_pixelSize (d : Display) : d.height * d.pixelSize = d.frameSize.2 := by
  simp only [height, pixelSize, frameSize]
  cases d.resolution <;> simp only [Resolution.height, Resolution.pixelSize] <;> omega

-- The bytes of a whole frame.
def frameBytes (d : Display) : Nat := 4 * (d.frameSize.1 * d.frameSize.2)

-- The number of a physical pixel in the frame, row by row.
def frameIndex (d : Display) (px py : Nat) : Nat := py * d.frameSize.1 + px

-- What a physical pixel should show: the colour of the position that it belongs to, inverted on
-- the outline of the position where there is a grid.
def rendered (d : Display) (px py : Nat) : Color :=
  let cell := d.pixelSize
  let color := d.colorAt ⟨px / cell, py / cell⟩
  if d.settings.graphics.grid = true ∧ 2 < cell ∧
      (px % cell = 0 ∨ px % cell = cell - 1 ∨ py % cell = 0 ∨ py % cell = cell - 1) then
    color.inverted
  else color

theorem cellColor_eq_rendered (d : Display) (px py : Nat) :
    d.cellColor (d.colorAt ⟨px / d.pixelSize, py / d.pixelSize⟩) (px % d.pixelSize)
      (py % d.pixelSize) = d.rendered px py := by
  simp only [cellColor, rendered, showsGrid, Bool.and_eq_true, Bool.or_eq_true,
    decide_eq_true_eq, beq_iff_eq]
  apply if_congr _ rfl rfl
  tauto

-- In rows of `cell` the number of a place tells its row and its column.
theorem place_eq_iff {x dx cell n : Nat} (hdx : dx < cell) :
    x * cell + dx = n ↔ x = n / cell ∧ dx = n % cell := by
  have hpos : 0 < cell := by omega
  constructor
  · rintro rfl
    rw [Nat.mul_comm, Nat.mul_add_div hpos, Nat.mul_add_mod, Nat.div_eq_of_lt hdx,
      Nat.mod_eq_of_lt hdx]
    exact ⟨rfl, rfl⟩
  · rintro ⟨rfl, rfl⟩
    exact Nat.div_add_mod' n cell

theorem place_lt {x dx cell count : Nat} (hx : x < count) (hdx : dx < cell) :
    x * cell + dx < count * cell := by
  have hle : (x + 1) * cell ≤ count * cell := Nat.mul_le_mul_right _ hx
  rw [Nat.add_one_mul] at hle
  omega

theorem frameIndex_inj {d : Display} {px py qx qy : Nat} (hp : px < d.frameSize.1)
    (hq : qx < d.frameSize.1) :
    d.frameIndex px py = d.frameIndex qx qy ↔ px = qx ∧ py = qy := by
  obtain ⟨hdiv, hmod⟩ := (place_eq_iff (x := qy) hq).mp rfl
  rw [frameIndex, frameIndex, place_eq_iff hp, ← hdiv, ← hmod, and_comm]

theorem frameIndex_lt {d : Display} {px py : Nat} (hx : px < d.frameSize.1)
    (hy : py < d.frameSize.2) : 4 * d.frameIndex px py + 4 ≤ d.frameBytes := by
  have hlt := place_lt hy hx
  rw [Nat.mul_comm d.frameSize.2] at hlt
  simp only [frameIndex, frameBytes]
  omega

variable {d : Display} (px py : Nat)

theorem colours_paintPixel (hx : px < d.frameSize.1) {p : Point} (hp : d.contains p = true) :
    Frame.Colours d.frameBytes (d.frameIndex px py) (d.rendered px py)
      (p = ⟨px / d.pixelSize, py / d.pixelSize⟩) (d.paintPixel · p) := by
  have hin := (d.contains_iff p).mp hp
  have hcell : ∀ dy ∈ List.range d.pixelSize, ∀ dx ∈ List.range d.pixelSize,
      Frame.Colours d.frameBytes (d.frameIndex px py) (d.rendered px py)
        (p.x * d.pixelSize + dx = px ∧ p.y * d.pixelSize + dy = py)
        (·.put ((p.y * d.pixelSize + dy) * d.frameSize.1 + p.x * d.pixelSize + dx)
          (d.cellColor (d.colorAt p) dx dy)) := by
    intro dy hdy dx hdx
    rw [List.mem_range] at hdy hdx
    have hqx : p.x * d.pixelSize + dx < d.frameSize.1 :=
      d.width_mul_pixelSize ▸ place_lt hin.1 hdx
    have hqy : p.y * d.pixelSize + dy < d.frameSize.2 :=
      d.height_mul_pixelSize ▸ place_lt hin.2 hdy
    rw [Nat.add_assoc]
    change Frame.Colours _ _ _ _ (·.put (d.frameIndex _ _) _)
    refine (Frame.Colours.put (frameIndex_lt hqx hqy) ?_).congr (frameIndex_inj hqx hx)
    intro heq
    obtain ⟨hpx, hpy⟩ := (frameIndex_inj hqx hx).mp heq
    obtain ⟨hx₁, hx₂⟩ := (place_eq_iff hdx).mp hpx
    obtain ⟨hy₁, hy₂⟩ := (place_eq_iff hdy).mp hpy
    have hpoint : p = ⟨px / d.pixelSize, py / d.pixelSize⟩ := by
      cases p
      simp_all
    rw [← cellColor_eq_rendered, ← hpoint, ← hx₂, ← hy₂]
  have hall := Frame.Colours.foldl _ fun dy hdy => Frame.Colours.foldl _ fun dx hdx =>
    hcell dy hdy dx hdx
  refine hall.congr ⟨?_, ?_⟩
  · rintro ⟨dy, hdy, dx, hdx, hpx, hpy⟩
    rw [List.mem_range] at hdy hdx
    have hx₁ := ((place_eq_iff hdx).mp hpx).1
    have hy₁ := ((place_eq_iff hdy).mp hpy).1
    cases p
    simp_all
  · rintro rfl
    have hpos : 0 < d.pixelSize := by
      apply Nat.pos_of_ne_zero
      intro hzero
      simp [← width_mul_pixelSize, hzero] at hx
    exact ⟨py % d.pixelSize, List.mem_range.mpr (Nat.mod_lt _ hpos), px % d.pixelSize,
      List.mem_range.mpr (Nat.mod_lt _ hpos), Nat.div_add_mod' _ _, Nat.div_add_mod' _ _⟩

theorem colours_paintLine (hx : px < d.frameSize.1) {line : DirtyLine}
    (hrow : line.row < d.height) (hpast : line.columns.past ≤ d.width) :
    Frame.Colours d.frameBytes (d.frameIndex px py) (d.rendered px py)
      (line.row = py / d.pixelSize ∧ px / d.pixelSize ∈ line.columns.columns)
      (d.paintLine · line) := by
  have hall := Frame.Colours.foldl line.columns.columns fun x hmem =>
    colours_paintPixel (d := d) px py hx (p := ⟨x, line.row⟩)
      ((d.contains_iff _).mpr
        ⟨Nat.lt_of_lt_of_le ((line.columns.mem_columns x).mp hmem).2 hpast, hrow⟩)
  refine hall.congr ⟨?_, ?_⟩
  · rintro ⟨x, hmem, heq⟩
    obtain ⟨rfl, hy⟩ := Point.mk.inj heq
    exact ⟨hy, hmem⟩
  · rintro ⟨hy, hmem⟩
    exact ⟨_, hmem, by rw [hy]⟩

-- Painting never resizes a frame.

theorem size_paintPixel (d : Display) (frame : Frame) (p : Point) :
    (d.paintPixel frame p).bytes.size = frame.bytes.size :=
  Frame.size_foldl (fun _ _ => Frame.size_foldl (fun _ _ => Frame.size_put _ _ _) _ _) _ _

theorem size_paintLine (d : Display) (frame : Frame) (line : DirtyLine) :
    (d.paintLine frame line).bytes.size = frame.bytes.size :=
  Frame.size_foldl (fun _ _ => d.size_paintPixel _ _) _ _

theorem size_paint (d : Display) (frame : Frame) :
    (d.paint frame).2.bytes.size = frame.bytes.size :=
  Frame.size_foldl d.size_paintLine _ _

-- A position waits where its column is in the stretch of its row.
def Waits (d : Display) (p : Point) : Prop :=
  ∃ row, d.rows[p.y]? = some row ∧ p.x ∈ row.dirty.columns

theorem WellFormed.waits_iff (h : d.WellFormed) (p : Point) :
    d.Waits p ↔ ∃ line ∈ d.dirtyLines, line.row = p.y ∧ p.x ∈ line.columns.columns := by
  constructor
  · rintro ⟨row, hrow, hmem⟩
    have he : row.dirty.isEmpty = false := by
      rw [Span.mem_columns] at hmem
      exact row.dirty.isEmpty_eq_false_iff.mpr (by omega)
    have hy : p.y ∈ d.pending := (h.mem_pending_iff p.y).mpr ⟨row, hrow, he⟩
    refine ⟨⟨p.y, row.dirty⟩, ?_, rfl, hmem⟩
    exact List.mem_filterMap.mpr ⟨p.y, Std.ExtTreeSet.mem_toList.mpr hy,
      by simp [dirtyLine?, hrow, he, Option.filter]⟩
  · rintro ⟨line, hline, hy, hmem⟩
    obtain ⟨row, hrow, heq, -⟩ := h.of_mem_dirtyLines hline
    exact ⟨row, hy ▸ hrow, heq ▸ hmem⟩

-- Painting draws what waits and nothing else.
theorem WellFormed.colours_paint (h : d.WellFormed) (hx : px < d.frameSize.1) :
    Frame.Colours d.frameBytes (d.frameIndex px py) (d.rendered px py)
      (d.Waits ⟨px / d.pixelSize, py / d.pixelSize⟩) (fun frame => (d.paint frame).2) := by
  have hall := Frame.Colours.foldl d.dirtyLines fun line hline => by
    obtain ⟨row, hrow, heq, -⟩ := h.of_mem_dirtyLines hline
    have hlt := (List.getElem?_eq_some_iff.mp hrow).1
    rw [h.length_rows] at hlt
    exact colours_paintLine px py hx hlt
      (heq ▸ h.past_le row (List.mem_of_getElem? hrow))
  exact hall.congr (h.waits_iff ⟨px / d.pixelSize, py / d.pixelSize⟩).symm

end Display

end Chip8
