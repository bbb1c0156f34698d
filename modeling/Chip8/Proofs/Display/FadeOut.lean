import Mathlib.Algebra.Order.Floor.Div
import Mathlib.Data.Nat.Dist
import Mathlib.GroupTheory.GroupAction.Ring
import Mathlib.Logic.Function.Iterate
import Chip8.Proofs.Display.WellFormed

namespace Chip8

namespace Color

-- How far a channel is from where it goes.
def gap (channel target : UInt8) : Nat := Nat.dist channel.toNat target.toNat

-- A channel moved by a distance towards its target, at most up to it.
def moveChannel (distance : Nat) (channel target : UInt8) : UInt8 :=
  let moved := UInt8.ofNat (min distance (gap channel target))
  if target < channel then channel - moved else channel + moved

-- Every channel but alpha moved by a distance towards its target.
def moved (c target : Color) (distance : Nat) : Color where
  red := moveChannel distance c.red target.red
  green := moveChannel distance c.green target.green
  blue := moveChannel distance c.blue target.blue
  alpha := c.alpha

-- The ticks for which a pixel of this colour glows in front of `target`. It does so for one tick
-- also where it has nowhere to go.
def fadeTicks (c target : Color) (speed : UInt8) : Nat :=
  max 1 (max (gap c.red target.red ⌈/⌉ speed.toNat)
    (max (gap c.green target.green ⌈/⌉ speed.toNat) (gap c.blue target.blue ⌈/⌉ speed.toNat)))

theorem gap_le (channel target : UInt8) : gap channel target ≤ 255 := by
  have := channel.toNat_lt
  have := target.toNat_lt
  simp only [gap, Nat.dist]
  omega

theorem toNat_moveChannel (distance : Nat) (channel target : UInt8) :
    (moveChannel distance channel target).toNat =
      if target < channel then max (channel.toNat - distance) target.toNat
      else min (channel.toNat + distance) target.toNat := by
  have hc := channel.toNat_lt
  have ht := target.toNat_lt
  have hgap := gap_le channel target
  have hmoved : (UInt8.ofNat (min distance (gap channel target))).toNat =
      min distance (gap channel target) :=
    UInt8.toNat_ofNat_of_lt' (by simp only [UInt8.size]; omega)
  simp only [moveChannel, UInt8.lt_iff_toNat_lt]
  by_cases h : target.toNat < channel.toNat
  · have hle : UInt8.ofNat (min distance (gap channel target)) ≤ channel := by
      rw [UInt8.le_iff_toNat_le, hmoved]
      simp only [gap, Nat.dist]
      omega
    rw [if_pos h, if_pos h, UInt8.toNat_sub_of_le _ _ hle, hmoved]
    simp only [gap, Nat.dist]
    omega
  · rw [if_neg h, if_neg h, UInt8.toNat_add, hmoved, Nat.mod_eq_of_lt]
    · simp only [gap, Nat.dist]
      omega
    · simp only [gap, Nat.dist]
      omega

-- Steps of one speed add up, whichever of them meets the target.
theorem stepChannel_moveChannel (step : UInt8) (distance : Nat) (channel target : UInt8) :
    stepChannel step (moveChannel distance channel target) target =
      moveChannel (distance + step.toNat) channel target := by
  apply UInt8.toNat_inj.mp
  rw [toNat_stepChannel, toNat_moveChannel]
  simp only [UInt8.lt_iff_toNat_lt, toNat_moveChannel]
  split <;> split <;> omega

theorem moveChannel_eq_iff (distance : Nat) (channel target : UInt8) :
    moveChannel distance channel target = target ↔ gap channel target ≤ distance := by
  simp only [← UInt8.toNat_inj, toNat_moveChannel, UInt8.lt_iff_toNat_lt, gap, Nat.dist]
  split <;> omega

theorem moved_zero (c target : Color) : c.moved target 0 = c := by
  simp [moved, moveChannel]

theorem approach_moved (c target : Color) (distance : Nat) (speed : UInt8) :
    (c.moved target distance).approach target speed =
      c.moved target (distance + speed.toNat) := by
  simp only [approach, moved, stepChannel_moveChannel]

-- A colour has arrived but for alpha once the ticks of its glow are over.
theorem sameRgb_moved_iff (c target : Color) {speed : UInt8} (hs : 1 ≤ speed) (count : Nat) :
    (c.moved target ((count + 1) * speed.toNat)).sameRgb target = true ↔
      c.fadeTicks target speed ≤ count + 1 := by
  have hpos : 0 < speed.toNat := UInt8.le_iff_toNat_le.mp hs
  simp only [sameRgb_iff, moved, moveChannel_eq_iff, fadeTicks, max_le_iff,
    ceilDiv_le_iff_le_mul hpos, Nat.mul_comm speed.toNat]
  omega

-- No channel has farther to go than across its whole range.
theorem fadeTicks_le (c target : Color) {speed : UInt8} (hs : 1 ≤ speed) :
    c.fadeTicks target speed ≤ 255 ⌈/⌉ speed.toNat := by
  have hpos : 0 < speed.toNat := UInt8.le_iff_toNat_le.mp hs
  have hmono {gap : Nat} (h : gap ≤ 255) : gap ⌈/⌉ speed.toNat ≤ 255 ⌈/⌉ speed.toNat :=
    (ceilDiv_le_iff_le_mul hpos).mpr
      (h.trans ((ceilDiv_le_iff_le_mul hpos).mp (Nat.le_refl _)))
  have hone : 1 ≤ 255 ⌈/⌉ speed.toNat := by
    apply Nat.one_le_iff_ne_zero.mpr
    intro hzero
    have := (ceilDiv_le_iff_le_mul hpos).mp (Nat.le_of_eq hzero)
    omega
  exact max_le hone (max_le (hmono (gap_le _ _)) (max_le (hmono (gap_le _ _)) (hmono (gap_le _ _))))

end Color

namespace Display

-- A glow after some ticks: under way, or over.
theorem iterate_cool (c target : Color) {speed : UInt8} (hs : 1 ≤ speed) (count : Nat) :
    (fun glow : Option Color => glow.bind (cool target speed))^[count] (some c) =
      if count < c.fadeTicks target speed then some (c.moved target (count * speed.toNat))
      else none := by
  induction count with
  | zero => simp [Color.fadeTicks, Color.moved_zero]
  | succ count ih =>
    have hrgb := c.sameRgb_moved_iff target hs count
    rw [Function.iterate_succ_apply', ih]
    by_cases hdone : c.fadeTicks target speed ≤ count
    · rw [if_neg (by omega), if_neg (by omega), Option.bind_none]
    · rw [if_pos (by omega), Option.bind_some]
      simp only [cool, Color.approach_moved, ← Nat.succ_mul, Nat.succ_eq_add_one, hrgb]
      split <;> split <;> first | rfl | omega

variable {d : Display}

theorem settings_iterate_animate (count : Nat) (d : Display) :
    (animate^[count] d).settings = d.settings := by
  induction count with
  | zero => rfl
  | succ count ih => rw [Function.iterate_succ_apply', settings_animate, ih]

theorem lit_iterate_animate (count : Nat) (d : Display) (p : Point) :
    (animate^[count] d).lit p = d.lit p := by
  induction count with
  | zero => rfl
  | succ count ih => rw [Function.iterate_succ_apply', lit_animate, ih]

theorem glowAt_iterate_animate (count : Nat) (d : Display) (p : Point) :
    (animate^[count] d).glowAt p =
      (fun glow : Option Color => glow.bind
        (cool d.settings.graphics.off d.settings.graphics.fadeSpeed))^[count] (d.glowAt p) := by
  induction count with
  | zero => rfl
  | succ count ih =>
    rw [Function.iterate_succ_apply', Function.iterate_succ_apply', glowAt_animate,
      settings_iterate_animate, ih]

theorem isFading_eq_false_iff : d.isFading = false ↔ ∀ p, d.glowAt p = none := by
  simp only [isFading, glowAt, Bool.not_eq_false', Std.ExtTreeMap.isEmpty_iff]
  constructor
  · intro h p
    rw [h, Std.ExtTreeMap.getElem?_empty]
  · intro h
    exact Std.ExtTreeMap.ext_getElem? fun p => by rw [h, Std.ExtTreeMap.getElem?_empty]

theorem getElem?_foldl_insert (ps : List Point) (glow : Std.ExtTreeMap Point Color Point.order)
    (color : Color) (q : Point) :
    (ps.foldl (·.insert · color) glow)[q]? = if q ∈ ps then some color else glow[q]? := by
  induction ps generalizing glow with
  | nil => rfl
  | cons p ps ih =>
    rw [List.foldl_cons, ih, Std.ExtTreeMap.getElem?_insert]
    simp only [Point.order_eq_iff, List.mem_cons]
    grind

theorem Cropped.mem_litPoints_iff (h : d.Cropped) (p : Point) :
    p ∈ d.litPoints ↔ d.lit p = true := by
  rw [h.lit_eq_any, Option.any_eq_true]
  refine ⟨mem_litPoints, ?_⟩
  rintro ⟨row, hrow, hx⟩
  simp only [litPoints, List.mem_flatMap, Prod.exists, List.mem_map, List.mem_filter,
    List.mem_range]
  have hlt := Nat.lt_of_lt_of_le (h.lit_lt row (List.mem_of_getElem? hrow) p.x hx)
    d.resolution.width_le
  exact ⟨row, p.y, List.mem_zipIdx_iff_getElem?.mpr hrow, p.x, ⟨hlt, hx⟩, rfl⟩

theorem WellFormed.glowAt_clear (h : d.WellFormed) (hfade : d.settings.graphics.fade = true)
    (p : Point) :
    d.clear.glowAt p = if d.lit p then some d.settings.graphics.on else d.glowAt p := by
  have hglow : d.clear.glowAt p =
      (d.litPoints.foldl (·.insert · d.settings.graphics.on) d.fading)[p]? := by
    rw [glowAt, Display.clear, hfade]
    rfl
  rw [hglow, getElem?_foldl_insert]
  simp only [h.mem_litPoints_iff]
  rfl

-- What was lit glows in the colour of lit pixels, all else looks as before.
theorem WellFormed.colorAt_clear (h : d.WellFormed) (hfade : d.settings.graphics.fade = true)
    (p : Point) : d.clear.colorAt p = d.colorAt p := by
  rw [colorAt, lit_clear, h.glowAt_clear hfade, colorAt]
  cases d.lit p <;> rfl

theorem colorAt_iterate_animate {p : Point} (hp : d.lit p = false) (count : Nat) :
    (animate^[count] d).colorAt p =
      ((animate^[count] d).glowAt p).getD d.settings.graphics.off := by
  simp [colorAt, lit_iterate_animate, hp, settings_iterate_animate]

-- A cleared pixel after some ticks. Only its own glow and the settings decide on its colour.
theorem WellFormed.glowAt_iterate_animate_clear (h : d.WellFormed)
    (hfade : d.settings.graphics.fade = true) (hs : 1 ≤ d.settings.graphics.fadeSpeed) {p : Point}
    (hp : d.lit p = true) (count : Nat) :
    (Display.animate^[count] d.clear).glowAt p =
      let g := d.settings.graphics
      if count < g.on.fadeTicks g.off g.fadeSpeed then
        some (g.on.moved g.off (count * g.fadeSpeed.toNat))
      else none := by
  have hsettings : d.clear.settings = d.settings := rfl
  rw [glowAt_iterate_animate, h.glowAt_clear hfade, if_pos hp, hsettings]
  exact iterate_cool _ _ hs count

theorem isFading_iterate_animate (hs : 1 ≤ d.settings.graphics.fadeSpeed) {count : Nat}
    (hcount : 255 ⌈/⌉ d.settings.graphics.fadeSpeed.toNat ≤ count) :
    (animate^[count] d).isFading = false := by
  rw [isFading_eq_false_iff]
  intro p
  rw [glowAt_iterate_animate]
  cases hglow : d.glowAt p with
  | none => exact Function.iterate_fixed rfl count
  | some c =>
    have hticks := c.fadeTicks_le d.settings.graphics.off hs
    rw [iterate_cool c _ hs, if_neg (by omega)]

-- Clearing changes no colour. A pixel that was lit then moves channel by channel from the colour of
-- lit pixels towards that of dark ones, keeping its alpha, and is dark when all three are there.
-- No glow outlasts the ticks in which a channel crosses its whole range, and what does not glow
-- keeps its colour.
theorem fades_out_exactly (settings : Settings) (operations : List Operation) :
    let d := (new settings).run operations
    let g := d.settings.graphics
    (g.fade = true → ∀ p, d.clear.colorAt p = d.colorAt p) ∧
      (g.fade = true → 1 ≤ g.fadeSpeed → ∀ p, d.lit p = true → ∀ count,
        let faded := animate^[count] d.clear
        (count < g.on.fadeTicks g.off g.fadeSpeed →
          faded.colorAt p = g.on.moved g.off (count * g.fadeSpeed.toNat)) ∧
        (g.on.fadeTicks g.off g.fadeSpeed ≤ count →
          faded.colorAt p = g.off ∧ faded.glowAt p = none)) ∧
      (1 ≤ g.fadeSpeed → ∀ count, 255 ⌈/⌉ g.fadeSpeed.toNat ≤ count →
        (animate^[count] d).isFading = false) ∧
      ∀ p, d.glowAt p = none → d.animate.colorAt p = d.colorAt p := by
  intro d g
  have h : d.WellFormed := (wellFormed_new settings).run operations
  refine ⟨fun hfade => h.colorAt_clear hfade, ?_, fun hs count => isFading_iterate_animate hs, ?_⟩
  · intro hfade hs p hp count faded
    have hglow := h.glowAt_iterate_animate_clear hfade hs hp count
    have hcolor : faded.colorAt p = (faded.glowAt p).getD g.off :=
      colorAt_iterate_animate (d.lit_clear p) count
    rw [hcolor, hglow]
    constructor
    · intro hcount
      rw [if_pos hcount, Option.getD_some]
    · intro hcount
      rw [if_neg (Nat.not_lt.mpr hcount)]
      exact ⟨rfl, rfl⟩
  · intro p hp
    rw [colorAt, lit_animate, glowAt_animate, settings_animate, hp, colorAt, hp]
    rfl

-- One channel rises, one stays and one falls to the end of its range.
theorem glow_rises_and_falls :
    let g : Graphics :=
      ⟨⟨0x00, 0x80, 0xFF, 0x10⟩, ⟨0x20, 0x80, 0x00, 0xFF⟩, 5, false, true, 0x10⟩
    let d := (new ⟨g, .clip, .clip⟩).run [.setPixel ⟨6, 7⟩ true]
    d.settings.graphics = g ∧ d.lit ⟨6, 7⟩ = true ∧ g.on.fadeTicks g.off g.fadeSpeed = 16 ∧
      (animate^[1] d.clear).colorAt ⟨6, 7⟩ = ⟨0x10, 0x80, 0xEF, 0x10⟩ ∧
      (animate^[15] d.clear).colorAt ⟨6, 7⟩ = ⟨0x20, 0x80, 0x0F, 0x10⟩ ∧
      (animate^[16] d.clear).colorAt ⟨6, 7⟩ = g.off ∧
      (animate^[16] d).isFading = false := by
  intro g d
  have hsettings : d.settings.graphics = g := rfl
  have hlit : d.lit ⟨6, 7⟩ = true := by decide +kernel
  have hticks : g.on.fadeTicks g.off g.fadeSpeed = 16 := by decide +kernel
  obtain ⟨-, hfades, hover, -⟩ :=
    fades_out_exactly ⟨g, .clip, .clip⟩ [.setPixel ⟨6, 7⟩ true]
  have hfaded := hfades rfl (by decide) ⟨6, 7⟩ hlit
  refine ⟨hsettings, hlit, hticks, ?_, ?_, ?_, hover (by decide) 16 (by decide)⟩
  · exact ((hfaded 1).1 (by decide +kernel)).trans (by decide +kernel)
  · exact ((hfaded 15).1 (by decide +kernel)).trans (by decide +kernel)
  · exact ((hfaded 16).2 (by decide +kernel)).1

end Display

end Chip8
