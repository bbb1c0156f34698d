import Chip8.Proofs.Display.WellFormed

namespace Chip8

def Resolution.Contains (resolution : Resolution) (p : Point) : Prop :=
  p.x < resolution.width ∧ p.y < resolution.height

-- Low resolution is the top left quarter of high resolution.
theorem Resolution.Contains.high {p : Point} (h : Resolution.low.Contains p) :
    Resolution.high.Contains p :=
  ⟨Nat.lt_trans h.1 (by decide), Nat.lt_trans h.2 (by decide)⟩

namespace Display

variable {d : Display}

theorem contains_iff_resolution (d : Display) (p : Point) :
    d.contains p = true ↔ d.resolution.Contains p :=
  d.contains_iff p

-- Above the height rows stay, and where there were none they are blank.
theorem getElem?_take_append_blank (rows : List Row) {height y : Nat} (hy : y < height) :
    (rows.take height ++ List.replicate (height - (rows.take height).length) Row.blank)[y]? =
      some (rows[y]?.getD Row.blank) := by
  rw [List.getElem?_append, List.length_take]
  by_cases hrow : y < rows.length
  · rw [if_pos (by omega), List.getElem?_take_of_lt hy, List.getElem?_eq_getElem hrow,
      Option.getD_some]
  · rw [if_neg (by omega), List.getElem?_replicate, if_pos (by omega),
      List.getElem?_eq_none (Nat.le_of_not_lt hrow), Option.getD_none]

theorem Cropped.lit_setResolution_iff (h : d.Cropped) (resolution : Resolution) (p : Point) :
    (d.setResolution resolution).lit p = true ↔ d.lit p = true ∧ resolution.Contains p := by
  rw [setResolution, lit_touchAll, lit, Bool.and_eq_true, contains_iff_resolution, and_comm]
  refine and_congr_left fun hp => ?_
  have hp : resolution.Contains p := hp
  rw [List.getElem?_map, getElem?_take_append_blank _ hp.2, Option.map_some, Option.any_some,
    Row.lit_crop _ _ resolution.width_le, decide_eq_true hp.1, Bool.true_and, h.lit_eq_any]
  cases d.rows[p.y]? with
  | none => simp [Row.lit_blank]
  | some row => simp

theorem glowAt_setResolution_eq_some_iff (d : Display) (resolution : Resolution) (p : Point)
    (color : Color) :
    (d.setResolution resolution).glowAt p = some color ↔
      d.glowAt p = some color ∧ resolution.Contains p := by
  change (d.fading.filter _)[p]? = some color ↔ d.fading[p]? = some color ∧ _
  rw [Std.ExtTreeMap.getElem?_filter', Option.filter_eq_some_iff]
  simp [Resolution.Contains]

theorem WellFormed.lit_run_setResolution_iff (h : d.WellFormed) (resolutions : List Resolution)
    (p : Point) :
    (d.run (resolutions.map .setResolution)).lit p = true ↔
      d.lit p = true ∧ ∀ r ∈ resolutions, r.Contains p := by
  induction resolutions generalizing d with
  | nil =>
    change d.lit p = true ↔ _
    simp
  | cons r rest ih =>
    have hr : (d.setResolution r).WellFormed := h.apply (.setResolution r)
    change ((d.setResolution r).run (rest.map .setResolution)).lit p = true ↔ _
    rw [ih hr, h.lit_setResolution_iff, List.forall_mem_cons, and_assoc]

theorem glowAt_run_setResolution_iff (d : Display) (resolutions : List Resolution) (p : Point)
    (color : Color) :
    (d.run (resolutions.map .setResolution)).glowAt p = some color ↔
      d.glowAt p = some color ∧ ∀ r ∈ resolutions, r.Contains p := by
  induction resolutions generalizing d with
  | nil =>
    change d.glowAt p = some color ↔ _
    simp
  | cons r rest ih =>
    change ((d.setResolution r).run (rest.map .setResolution)).glowAt p = some color ↔ _
    rw [ih, glowAt_setResolution_eq_some_iff, List.forall_mem_cons, and_assoc]

-- Nothing of a low-resolution display lies outside the sizes of the way there and back.
theorem contains_there_and_back (hd : d.resolution = .low) {p : Point} (hp : d.contains p = true) :
    ∀ r ∈ [Resolution.high, .low], r.Contains p := by
  have hlow : Resolution.low.Contains p := hd ▸ (d.contains_iff_resolution p).mp hp
  rw [List.forall_mem_cons, List.forall_mem_singleton]
  exact ⟨hlow.high, hlow⟩

theorem contains_back_and_there_iff (p : Point) :
    (∀ r ∈ [Resolution.low, .high], r.Contains p) ↔ p.x < 64 ∧ p.y < 32 := by
  rw [List.forall_mem_cons, List.forall_mem_singleton]
  exact and_iff_left_of_imp Resolution.Contains.high

-- Changes of resolution keep just what is lit and what glows inside all of them. So a
-- low-resolution picture is whole when it comes back from high resolution, and of a high-resolution
-- one only its top left quarter comes back from low.
theorem cropped_to_every_resolution (settings : Settings) (operations : List Operation)
    (resolutions : List Resolution) :
    let d := (new settings).run operations
    let after := d.run (resolutions.map .setResolution)
    let back := (d.setResolution .high).setResolution .low
    let quarter := (d.setResolution .low).setResolution .high
    (∀ p, after.lit p = true ↔ d.lit p = true ∧ ∀ r ∈ resolutions, r.Contains p) ∧
      (∀ p color, after.glowAt p = some color ↔
        d.glowAt p = some color ∧ ∀ r ∈ resolutions, r.Contains p) ∧
      (d.resolution = .low → ∀ p, back.lit p = d.lit p ∧ back.glowAt p = d.glowAt p) ∧
      (∀ p, quarter.lit p = true ↔ d.lit p = true ∧ p.x < 64 ∧ p.y < 32) ∧
      (∀ p color, quarter.glowAt p = some color ↔
        d.glowAt p = some color ∧ p.x < 64 ∧ p.y < 32) := by
  intro d after back quarter
  have h : d.WellFormed := (wellFormed_new settings).run operations
  refine ⟨h.lit_run_setResolution_iff resolutions, d.glowAt_run_setResolution_iff resolutions,
    fun hd p => ⟨?_, ?_⟩, fun p => ?_, fun p color => ?_⟩
  · rw [Bool.eq_iff_iff]
    refine (h.lit_run_setResolution_iff [.high, .low] p).trans (and_iff_left_of_imp fun hp => ?_)
    exact contains_there_and_back hd (Bool.and_eq_true_iff.mp hp).1
  · refine Option.ext fun color => ?_
    refine (d.glowAt_run_setResolution_iff [.high, .low] p color).trans
      (and_iff_left_of_imp fun hp => ?_)
    obtain ⟨hmem, -⟩ := Std.ExtTreeMap.getElem?_eq_some_iff.mp hp
    exact contains_there_and_back hd (h.contains_of_fading p hmem)
  · rw [← contains_back_and_there_iff]
    exact h.lit_run_setResolution_iff [.low, .high] p
  · rw [← contains_back_and_there_iff]
    exact d.glowAt_run_setResolution_iff [.low, .high] p color

-- The last pixel of low resolution survives a visit to high resolution. The one right of it is
-- gone after a visit to low resolution.
theorem corners_after_visits :
    let d := (new .standard).run [.setPixel ⟨63, 31⟩ true]
    let wide := (new .standard).run [.setResolution .high, .setPixel ⟨64, 31⟩ true]
    d.resolution = .low ∧ ((d.setResolution .high).setResolution .low).lit ⟨63, 31⟩ = true ∧
      wide.lit ⟨64, 31⟩ = true ∧
      ((wide.setResolution .low).setResolution .high).lit ⟨64, 31⟩ = false := by
  intro d wide
  have hresolution : d.resolution = .low := by decide +kernel
  obtain ⟨-, -, hback, -, -⟩ :=
    cropped_to_every_resolution .standard [.setPixel ⟨63, 31⟩ true] []
  obtain ⟨-, -, -, hquarter, -⟩ :=
    cropped_to_every_resolution .standard [.setResolution .high, .setPixel ⟨64, 31⟩ true] []
  refine ⟨hresolution, (hback hresolution ⟨63, 31⟩).1.trans ?_, by decide +kernel, ?_⟩
  · decide +kernel
  · rw [← Bool.not_eq_true, hquarter ⟨64, 31⟩]
    decide

end Display

end Chip8
