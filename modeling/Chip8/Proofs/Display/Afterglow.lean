import Mathlib.Data.List.Induction
import Chip8.Proofs.Display.Resolution

namespace Chip8.Display

-- No position is lit and glows.
def Apart (d : Display) : Prop := ∀ p, d.lit p = true → d.glowAt p = none

-- The position whose pixel scrolling moves to `p`, unless a blank one gets there.
def origin (d : Display) (direction : Direction) (n : Nat) (p : Point) : Option Point :=
  let n := d.distance n
  match direction with
  | .down => if n ≤ p.y then some ⟨p.x, p.y - n⟩ else none
  | .right => if n % UInt32.size ≤ p.x then some ⟨p.x - n % UInt32.size, p.y⟩ else none
  | .left => some ⟨p.x + n % UInt32.size, p.y⟩

-- The operation moves no lit pixel onto a glowing one.
def SparesGlow (d : Display) : Operation → Prop
  | .scroll direction n => ∀ p q, d.glowAt p ≠ none → d.origin direction n p = some q →
      d.lit q = false
  | _ => True

-- A pixel that is switched off shows the colour of dark ones, also where a sprite meets it twice.
structure DarkAtOnce (d : Display) : Prop where
  setPixel : ∀ p, d.lit p = true → (d.setPixel p false).colorAt p = d.settings.graphics.off
  draw : ∀ sprite p, d.lit p = true ∨ p ∈ d.targets sprite →
    (d.draw sprite).1.lit p = false → (d.draw sprite).1.colorAt p = d.settings.graphics.off

variable {d : Display}

theorem Cropped.contains_of_glowAt (h : d.Cropped) {p : Point} (hp : d.glowAt p ≠ none) :
    d.contains p = true := by
  obtain ⟨color, hcolor⟩ := Option.ne_none_iff_exists'.mp hp
  obtain ⟨hmem, -⟩ := Std.ExtTreeMap.getElem?_eq_some_iff.mp hcolor
  exact h.contains_of_fading p hmem

theorem Cropped.lit_scroll (h : d.Cropped) (direction : Direction) (n : Nat) (p : Point) :
    (d.scroll direction n).lit p =
      (d.contains p && (d.origin direction n p).any d.lit) := by
  unfold Display.scroll
  rw [lit_touchAll, lit]
  change (d.contains p && _) = _
  cases hp : d.contains p with
  | false => rfl
  | true =>
    have hin := (d.contains_iff p).mp hp
    have hlt : p.y < d.rows.length := h.length_rows ▸ hin.2
    rw [Bool.true_and, Bool.true_and]
    cases direction with
    | down =>
      simp only [origin, getElem?_lower _ _ hlt]
      split
      · rw [Option.any_some, h.lit_eq_any]
      · simp [Option.any_map, Row.lit_clear]
    | right =>
      simp only [origin, List.getElem?_map, Option.any_map,
        Row.lit_shiftRight _ d.width d.resolution.width_le, hin.1, true_and]
      split
      case isTrue hle => simp [hle, h.lit_eq_any]
      case isFalse hle => simp [hle]
    | left =>
      simp only [origin, List.getElem?_map, Option.any_map, Row.lit_shiftLeft,
        Option.any_some, h.lit_eq_any]

-- Scrolling leaves every glow where it is, so all depends on what gets there.
theorem Cropped.apart_scroll_iff (h : d.Cropped) (direction : Direction) (n : Nat) :
    (d.scroll direction n).Apart ↔ d.SparesGlow (.scroll direction n) := by
  have hglow (p : Point) : (d.scroll direction n).glowAt p = d.glowAt p := rfl
  constructor
  · intro hapart p q hp hq
    apply Bool.eq_false_iff.mpr
    intro hlit
    apply hp
    rw [← hglow]
    apply hapart p
    rw [h.lit_scroll, h.contains_of_glowAt hp, hq, Option.any_some, hlit]
    rfl
  · intro hspares p hp
    rw [h.lit_scroll, Bool.and_eq_true, Option.any_eq_true] at hp
    obtain ⟨-, q, hq, hlit⟩ := hp
    rw [hglow]
    apply Decidable.byContradiction
    intro hne
    rw [hspares p q hne hq] at hlit
    exact Bool.noConfusion hlit

theorem Apart.congr {d' : Display} (h : d.Apart) (hl : ∀ p, d'.lit p = d.lit p)
    (hg : ∀ p, d.glowAt p = none → d'.glowAt p = none) : d'.Apart :=
  fun p hp => hg p (h p (hl p ▸ hp))

theorem Apart.setPixel (h : d.Apart) (hd : d.WellFormed) (p : Point) (on : Bool) :
    (d.setPixel p on).Apart := by
  intro q hq
  rw [lit_setPixel d hd.length_rows] at hq
  rw [glowAt_setPixel]
  split at hq
  case isTrue hp => rw [if_pos ⟨hp.1, hp.2, hq⟩]
  case isFalse =>
    split
    · rfl
    · exact h q hq

-- Whether it is switched on or off, a pixel that a sprite inverts no longer glows.
theorem Apart.glowAt_toggle {drawn : Display × Bool} (h : drawn.1.Apart)
    (hd : drawn.1.WellFormed) (p q : Point) :
    (toggle drawn p).1.glowAt q = if q = p then none else drawn.1.glowAt q := by
  simp only [toggle, glowAt_setPixel]
  by_cases hq : q = p
  · subst hq
    by_cases hcontains : drawn.1.contains q = true
    · cases hlit : drawn.1.lit q with
      | false => simp [hcontains]
      | true => simp [h q hlit]
    · have hdark : drawn.1.glowAt q = none := by
        apply Decidable.byContradiction
        exact fun hne => hcontains (hd.contains_of_glowAt hne)
      simp [hdark]
  · simp [hq]

theorem Apart.foldl_toggle (ps : List Point) {drawn : Display × Bool} (h : drawn.1.Apart)
    (hd : drawn.1.WellFormed) :
    (ps.foldl toggle drawn).1.Apart ∧
      ∀ p, drawn.1.glowAt p = none ∨ p ∈ ps → (ps.foldl toggle drawn).1.glowAt p = none := by
  induction ps generalizing drawn with
  | nil => simpa using h
  | cons q ps ih =>
    obtain ⟨hapart, hdark⟩ := @ih (toggle drawn q) (h.setPixel hd q _) (hd.setPixel q _)
    refine ⟨hapart, fun p hp => hdark p ?_⟩
    rw [h.glowAt_toggle hd]
    simp only [List.mem_cons] at hp
    split <;> simp_all

theorem glowAt_setResolution_of_eq_none {p : Point} (h : d.glowAt p = none)
    (resolution : Resolution) : (d.setResolution resolution).glowAt p = none := by
  change (d.fading.filter _)[p]? = none
  rw [Std.ExtTreeMap.getElem?_filter', show d.fading[p]? = none from h]
  rfl

theorem apart_new (settings : Settings) : (new settings).Apart :=
  fun _ _ => glowAt_setResolution_of_eq_none rfl .low

theorem Apart.setFade (h : d.Apart) (enabled : Bool) (speed : UInt8) :
    (d.setFade enabled speed).Apart := by
  refine h.congr (d.lit_setFade enabled speed) (fun p hp => ?_)
  cases enabled with
  | false => exact Std.ExtTreeMap.getElem?_empty
  | true => exact hp

-- Scrolling is the only operation that depends on where lit and glowing pixels are.
theorem WellFormed.apart_apply_iff (h : d.WellFormed) (ha : d.Apart) (operation : Operation) :
    (d.apply operation).Apart ↔ d.SparesGlow operation := by
  cases operation with
  | scroll direction n => exact h.apart_scroll_iff direction n
  | setPixel p on => exact iff_of_true (ha.setPixel h p on) trivial
  | draw sprite => exact iff_of_true (Apart.foldl_toggle (d.targets sprite) ha h).1 trivial
  | clear =>
    refine iff_of_true (fun p hp => ?_) trivial
    rw [Display.apply, lit_clear] at hp
    exact Bool.noConfusion hp
  | setResolution resolution =>
    exact iff_of_true (fun p hp => glowAt_setResolution_of_eq_none
      (ha p ((h.lit_setResolution_iff resolution p).mp hp).1) resolution) trivial
  | animate =>
    refine iff_of_true (ha.congr d.lit_animate fun p hp => ?_) trivial
    rw [Display.apply, glowAt_animate, hp, Option.bind_none]
  | setOn _ | setOff _ | setScale _ | setGrid _ =>
    exact iff_of_true (ha.congr (d.lit_editGraphics _) fun _ hp => hp) trivial
  | setFade enabled speed => exact iff_of_true (ha.setFade enabled speed) trivial
  | setEdges _ _ => exact iff_of_true (ha.congr (fun _ => rfl) fun _ hp => hp) trivial
  | settle => exact iff_of_true (ha.congr d.lit_settle fun _ hp => hp) trivial

theorem colorAt_of_dark {p : Point} (hl : d.lit p = false) (hg : d.glowAt p = none) :
    d.colorAt p = d.settings.graphics.off := by
  simp [colorAt, hl, hg]

theorem Apart.darkAtOnce (h : d.Apart) (hd : d.WellFormed) : d.DarkAtOnce where
  setPixel p hp := by
    have hin : d.contains p = true := (Bool.and_eq_true_iff.mp hp).1
    rw [colorAt_of_dark, settings_setPixel]
    · simp [lit_setPixel d hd.length_rows, hin]
    · simp [glowAt_setPixel, h p hp]
  draw sprite p hp hl := by
    have hdark : (d.draw sprite).1.glowAt p = none :=
      (Apart.foldl_toggle (d.targets sprite) h hd).2 p (hp.imp_left (h p))
    rw [colorAt_of_dark hl hdark, settings_draw]

-- Along a run no lit pixel glows, and those that are switched off are dark at once, just when no
-- scrolling moves a lit pixel onto a glowing one.
theorem apart_throughout_iff (settings : Settings) (operations : List Operation) :
    (∀ before, before <+: operations →
      ((new settings).run before).Apart ∧ ((new settings).run before).DarkAtOnce) ↔
    ∀ before operation, before ++ [operation] <+: operations →
      ((new settings).run before).SparesGlow operation := by
  have hwell (before : List Operation) : ((new settings).run before).WellFormed :=
    (wellFormed_new settings).run before
  have hsnoc (before : List Operation) (operation : Operation) :
      (new settings).run (before ++ [operation]) =
        ((new settings).run before).apply operation := by
    simp [run]
  constructor
  · intro h before operation hprefix
    have ha := (h before ((List.prefix_append before _).trans hprefix)).1
    rw [← (hwell before).apart_apply_iff ha, ← hsnoc]
    exact (h _ hprefix).1
  · intro h before hprefix
    have ha : ((new settings).run before).Apart := by
      induction before using List.reverseRecOn with
      | nil => exact apart_new settings
      | append_singleton before operation ih =>
        have ha := ih ((List.prefix_append before _).trans hprefix)
        rw [hsnoc, (hwell before).apart_apply_iff ha]
        exact h before operation hprefix
    exact ⟨ha, ha.darkAtOnce (hwell before)⟩

-- A pixel is cleared and glows, its left neighbour is switched on and moved onto it. Switched off
-- it shows the old glow.
theorem glow_met_by_scroll :
    let d := (new ⟨{ Graphics.standard with fade := true }, .clip, .clip⟩).run
      [.setPixel ⟨1, 0⟩ true, .clear, .setPixel ⟨0, 0⟩ true, .scroll .right 2]
    d.lit ⟨1, 0⟩ = true ∧ d.glowAt ⟨1, 0⟩ = some .white ∧
      d.settings.graphics.off = .black ∧
      (d.setPixel ⟨1, 0⟩ false).colorAt ⟨1, 0⟩ = .white ∧
      (d.draw ⟨⟨1, 0⟩, false, [0x80]⟩).1.colorAt ⟨1, 0⟩ = .white := by
  decide +kernel

end Chip8.Display
