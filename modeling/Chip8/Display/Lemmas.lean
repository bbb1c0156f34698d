import Chip8.Display.Scroll
import Chip8.Display.Sprite

namespace Chip8.Display

theorem contains_iff (d : Display) (p : Point) :
    d.contains p = true ↔ p.x < d.width ∧ p.y < d.height := by
  simp [contains]

-- The rows without what waits of them.
def pixels (d : Display) : List (BitVec 128) := d.rows.map (·.pixels)

theorem lit_eq (d : Display) (p : Point) :
    d.lit p = (d.contains p && d.pixels[p.y]?.any (·.getLsbD p.x)) := by
  simp only [lit, pixels, List.getElem?_map, Option.any_map]
  rfl

theorem contains_congr {d d' : Display} (hr : d'.resolution = d.resolution) (p : Point) :
    d'.contains p = d.contains p := by
  rw [Bool.eq_iff_iff, contains_iff, contains_iff, width, width, height, height, hr]

theorem lit_congr (d d' : Display) (hr : d'.resolution = d.resolution)
    (hp : d'.pixels = d.pixels) (p : Point) : d'.lit p = d.lit p := by
  simp only [lit_eq, hp, contains_congr hr]

theorem length_rows_eq_of_pixels {d d' : Display} (hp : d'.pixels = d.pixels) :
    d'.rows.length = d.rows.length := by
  simpa [pixels] using congrArg List.length hp

-- Neither touching nor settling shows in the picture.

@[simp] theorem pixels_touch (d : Display) (p : Point) : (d.touch p).pixels = d.pixels := by
  apply List.ext_getElem?
  intro y
  simp only [pixels, touch, List.getElem?_map, List.getElem?_modify]
  cases d.rows[y]? with
  | none => rfl
  | some row =>
    by_cases h : p.y = y <;> simp [h, Row.touch]

@[simp] theorem pixels_touchAll (d : Display) : d.touchAll.pixels = d.pixels := by
  simp [pixels, touchAll, Row.touchAll, Function.comp_def]

@[simp] theorem pixels_settle (d : Display) : d.settle.pixels = d.pixels := by
  apply List.ext_getElem?
  intro y
  simp only [pixels, settle, List.getElem?_map, List.getElem?_mapIdx, Option.map_map]
  congr 1
  funext row
  simp only [Function.comp_apply]
  split <;> rfl

theorem lit_touchAll (d : Display) (p : Point) : d.touchAll.lit p = d.lit p :=
  lit_congr d d.touchAll rfl d.pixels_touchAll p

theorem lit_settle (d : Display) (p : Point) : d.settle.lit p = d.lit p :=
  lit_congr d d.settle rfl d.pixels_settle p

-- Touching many pixels leaves all but what waits as it was.
theorem foldl_touch_fields (ps : List Point) (d : Display) :
    (ps.foldl touch d).pixels = d.pixels ∧ (ps.foldl touch d).resolution = d.resolution ∧
      (ps.foldl touch d).settings = d.settings ∧ (ps.foldl touch d).fading = d.fading := by
  induction ps generalizing d with
  | nil => exact ⟨rfl, rfl, rfl, rfl⟩
  | cons p ps ih =>
    obtain ⟨hp, hr, hs, hf⟩ := ih (d.touch p)
    exact ⟨hp.trans (d.pixels_touch p), hr, hs, hf⟩

theorem length_rows_touchAll (d : Display) : d.touchAll.rows.length = d.rows.length :=
  length_rows_eq_of_pixels d.pixels_touchAll

theorem length_rows_setResolution (d : Display) (resolution : Resolution) :
    (d.setResolution resolution).rows.length = resolution.height := by
  simp only [setResolution, length_rows_touchAll, List.length_append, List.length_map,
    List.length_take, List.length_replicate]
  omega

-- Writing a pixel changes that pixel alone.
theorem lit_setPixel (d : Display) (hd : d.rows.length = d.height) (p : Point) (on : Bool)
    (q : Point) :
    (d.setPixel p on).lit q = if q = p ∧ d.contains p = true then on else d.lit q := by
  by_cases hp : d.contains p = true
  · have hin := (d.contains_iff p).mp hp
    have hx : p.x < 128 := Nat.lt_of_lt_of_le hin.1 d.resolution.width_le
    obtain ⟨row, hrow⟩ : ∃ row, d.rows[p.y]? = some row :=
      ⟨_, List.getElem?_eq_getElem (show p.y < d.rows.length by omega)⟩
    have hcon : (d.setPixel p on).contains q = d.contains q := by
      rw [setPixel, if_pos hp]
      rfl
    simp only [lit, hcon, hp, and_true]
    rw [setPixel, if_pos hp]
    simp only [touch, List.getElem?_modify]
    by_cases hyq : p.y = q.y
    · have hset : ((row.touch p.x).set p.x on).lit q.x =
          if q.x = p.x then on else row.lit q.x := Row.lit_set _ _ _ hx _
      by_cases hxq : q.x = p.x
      · have hq : q = p := by cases p; cases q; simp_all
        subst hq
        simp [hrow, hset, hp]
      · have hq : q ≠ p := fun h => hxq (by rw [h])
        simp [← hyq, hrow, hset, hxq, hq]
    · have hq : q ≠ p := fun h => hyq (by rw [h])
      simp [hyq, hq]
  · rw [setPixel, if_neg hp]
    simp [hp]

theorem glowAt_setPixel (d : Display) (p : Point) (on : Bool) (q : Point) :
    (d.setPixel p on).glowAt q =
      if q = p ∧ d.contains p = true ∧ on = true then none else d.glowAt q := by
  by_cases hp : d.contains p = true
  · rw [setPixel, if_pos hp]
    cases on with
    | false => simp [glowAt, touch]
    | true =>
      simp [glowAt, touch, Std.ExtTreeMap.getElem?_erase, hp, eq_comm (a := q)]
  · simp [setPixel, hp]

theorem settings_setPixel (d : Display) (p : Point) (on : Bool) :
    (d.setPixel p on).settings = d.settings := by
  unfold setPixel
  split <;> rfl

theorem settings_draw (d : Display) (s : Sprite) : (d.draw s).1.settings = d.settings :=
  List.foldlRecOn (motive := fun drawn => drawn.1.settings = d.settings) _ toggle rfl
    (fun drawn hdrawn p _ => (drawn.1.settings_setPixel p _).trans hdrawn)

theorem settings_animate (d : Display) : d.animate.settings = d.settings := by
  unfold animate
  split
  · obtain ⟨-, -, hs, -⟩ := foldl_touch_fields d.fading.keys d
    exact hs
  · rfl

theorem settings_setFade (d : Display) (enabled : Bool) (speed : UInt8) :
    (d.setFade enabled speed).settings =
      { d.settings with graphics :=
        { d.settings.graphics with fade := enabled, fadeSpeed := max speed 1 } } := by
  cases enabled <;> rfl

theorem settings_setGraphics (d : Display) (g : Graphics) :
    (d.setGraphics g).settings = { d.settings with graphics := g.clamped } := by
  rw [setGraphics, settings_setFade]
  rfl

theorem resolution_setGraphics (d : Display) (g : Graphics) :
    (d.setGraphics g).resolution = d.resolution := by
  rw [setGraphics]
  cases g.fade <;> rfl

theorem lit_clear (d : Display) (p : Point) : d.clear.lit p = false := by
  rw [clear, lit_touchAll]
  simp only [lit, List.getElem?_map]
  cases d.rows[p.y]? with
  | none => simp
  | some row => simp [Row.lit_clear]

-- A row that is shifted shows at each column what was the given distance away.

theorem Row.lit_shiftRight (row : Row) (width : Nat) (hw : width ≤ 128) (n x : Nat) :
    (row.shiftRight width n).lit x =
      (decide (x < width ∧ n % UInt32.size ≤ x) && row.lit (x - n % UInt32.size)) := by
  simp only [lit, shiftRight, BitVec.getLsbD_and, getLsbD_mask hw]
  generalize n % UInt32.size = k
  by_cases hk : k < 128
  · by_cases hx : x < width
    · have hkx : (!decide (x < k)) = decide (k ≤ x) := by
        rw [← decide_not, decide_eq_decide, Nat.not_lt]
      rw [if_pos hk, BitVec.getLsbD_shiftLeft, hkx]
      simp [hx, Nat.lt_of_lt_of_le hx hw, -BitVec.getLsbD_eq_getElem]
    · simp [hx]
  · have hx : ¬(x < width ∧ k ≤ x) := by omega
    simp [hk, hx]

theorem Row.lit_shiftLeft (row : Row) (n x : Nat) :
    (row.shiftLeft n).lit x = row.lit (x + n % UInt32.size) := by
  simp only [lit, shiftLeft]
  generalize n % UInt32.size = k
  by_cases hk : k < 128
  · simp [hk, Nat.add_comm]
  · simp [hk, BitVec.getLsbD_of_ge row.pixels (x + k) (by omega)]

theorem getElem?_lower (n : Nat) (rows : List Row) {y : Nat} (hy : y < rows.length) :
    (lower n rows)[y]? =
      if n ≤ y then rows[y - n]? else rows[rows.length - min n rows.length + y]?.map Row.clear := by
  have hblank : ((rows.drop (rows.length - min n rows.length)).map Row.clear).length =
      min n rows.length := by
    rw [List.length_map, List.length_drop]
    omega
  rw [lower, List.getElem?_append, hblank]
  by_cases hn : n ≤ y
  · have hmin : min n rows.length = n := by omega
    rw [if_neg (by omega), if_pos hn, hmin, List.getElem?_take_of_lt (by omega)]
  · rw [if_pos (by omega), if_neg hn, List.getElem?_map, List.getElem?_drop]

theorem lit_animate (d : Display) (p : Point) : d.animate.lit p = d.lit p := by
  unfold animate
  split
  · obtain ⟨hp, hr, -, -⟩ := foldl_touch_fields d.fading.keys d
    exact lit_congr _ _ hr hp p
  · rfl

theorem glowAt_animate (d : Display) (p : Point) :
    d.animate.glowAt p =
      (d.glowAt p).bind (cool d.settings.graphics.off d.settings.graphics.fadeSpeed) := by
  unfold animate
  split
  case isTrue => exact Std.ExtTreeMap.getElem?_filterMap'
  case isFalse h =>
    have he : d.fading = ∅ := by simpa [isFading, Std.ExtTreeMap.isEmpty_iff] using h
    simp [glowAt, he]

theorem lit_editGraphics (d : Display) (f : Graphics → Graphics) (p : Point) :
    (d.editGraphics f).lit p = d.lit p := by
  rw [editGraphics, lit_touchAll]
  rfl

theorem lit_setFade (d : Display) (enabled : Bool) (speed : UInt8) (p : Point) :
    (d.setFade enabled speed).lit p = d.lit p := by
  rw [setFade, lit_editGraphics]
  split <;> rfl

theorem lit_setGraphics (d : Display) (g : Graphics) (p : Point) :
    (d.setGraphics g).lit p = d.lit p := by
  simp only [setGraphics, lit_setFade, setGrid, setScale, setOff, setOn, lit_editGraphics]

theorem dirtyLines_settle (d : Display) : d.settle.dirtyLines = [] := by
  simp [dirtyLines, settle]

end Chip8.Display
