import Chip8.Display.Operation
import Chip8.Proofs.Display.Sprite

namespace Chip8.Display

variable {d : Display}

-- What a sprite meets depends on the size and the edges alone, which drawing does not change.
theorem targets_draw (d : Display) (s t : Sprite) : (d.draw s).1.targets t = d.targets t := by
  have hplace : (d.draw s).1.place = d.place := by
    funext p
    simp only [place, width, height, resolution_draw, settings_draw]
  rw [targets, hplace, targets]

theorem WellFormed.lit_run_draw (h : d.WellFormed) (sprites : List Sprite) (p : Point) :
    (d.run (sprites.map .draw)).lit p =
      (d.lit p ^^ decide ((sprites.flatMap d.targets).count p % 2 = 1)) := by
  induction sprites generalizing d with
  | nil =>
    change d.lit p = _
    simp
  | cons s rest ih =>
    have hrest : rest.flatMap (d.draw s).1.targets = rest.flatMap d.targets :=
      congrArg rest.flatMap (funext (d.targets_draw s))
    change ((d.draw s).1.run (rest.map .draw)).lit p = _
    rw [ih (h.draw s), hrest, h.lit_draw, List.flatMap_cons, List.count_append, Bool.xor_assoc]
    -- the parity of a sum
    congr 1
    rw [Bool.eq_iff_iff]
    simp only [bne_iff_ne, ne_eq, decide_eq_decide, decide_eq_true_eq]
    omega

theorem WellFormed.lit_run_draw_of_perm (h : d.WellFormed) {sprites sprites' : List Sprite}
    (hperm : sprites.Perm sprites') (p : Point) :
    (d.run (sprites.map .draw)).lit p = (d.run (sprites'.map .draw)).lit p := by
  rw [h.lit_run_draw, h.lit_run_draw, (hperm.flatMap_right d.targets).count_eq]

theorem WellFormed.lit_run_draw_append_self (h : d.WellFormed) (sprites : List Sprite)
    (p : Point) : (d.run ((sprites ++ sprites).map .draw)).lit p = d.lit p := by
  have heven : ¬((sprites ++ sprites).flatMap d.targets).count p % 2 = 1 := by
    rw [List.flatMap_append, List.count_append]
    omega
  rw [h.lit_run_draw, decide_eq_false heven, Bool.xor_false]

-- A sprite that meets no pixel twice collides with what it lit itself, and that is all of it that
-- is there to be met.
theorem WellFormed.collision_draw_draw_iff (h : d.WellFormed) {s : Sprite}
    (hs : s.rows.length ≤ d.height) :
    ((d.draw s).1.draw s).2 = true ↔ ∃ p, d.lit p = false ∧ (d.draw s).1.lit p = true := by
  have hheight : s.rows.length ≤ (d.draw s).1.height := by
    rwa [height, resolution_draw]
  have hcovers (p : Point) :
      (d.draw s).1.Covers s.position s.bitmap p ↔ d.Covers s.position s.bitmap p := by
    rw [← mem_targets_iff, ← mem_targets_iff, targets_draw]
  rw [(h.draw s).collision_draw_iff hheight]
  refine exists_congr fun p => ?_
  rw [hcovers, h.lit_draw_iff hs]
  cases d.lit p with
  | false => simp [Xor]
  | true => simp [Xor]

-- Drawing is an exclusive or of pictures: what is drawn twice is gone, and what is drawn first does
-- not matter, also where rows wrap onto one another. The second time a sprite that is no higher than
-- the display collides just where the first time lit a pixel.
theorem drawing_cancels_and_commutes (h : d.WellFormed) (s t : Sprite) :
    (∀ p, ((d.draw s).1.draw s).1.lit p = d.lit p) ∧
      (∀ p, ((d.draw s).1.draw t).1.lit p = ((d.draw t).1.draw s).1.lit p) ∧
      (s.rows.length ≤ d.height →
        (((d.draw s).1.draw s).2 = true ↔
          ∃ p, d.lit p = false ∧ (d.draw s).1.lit p = true)) := by
  refine ⟨fun p => ?_, fun p => ?_, h.collision_draw_draw_iff⟩
  · exact h.lit_run_draw_append_self [s] p
  · exact h.lit_run_draw_of_perm (.swap t s []) p

-- Thirty-three rows that wrap in a display of thirty-two: the last one falls onto the first and
-- lights nothing there. A corner that wraps around both edges is met by both sprites.
theorem wrapped_rows_cancel :
    let d := (new ⟨.standard, .wrap, .wrap⟩).run [.setPixel ⟨0, 0⟩ true]
    let tall : Sprite := ⟨⟨63, 31⟩, false, List.replicate 33 0xC0⟩
    let corner : Sprite := ⟨⟨63, 31⟩, false, [0xC0, 0xC0]⟩
    d.WellFormed ∧ corner.rows.length ≤ d.height ∧
      ((d.draw corner).1.draw tall).1.lit ⟨0, 0⟩ = ((d.draw tall).1.draw corner).1.lit ⟨0, 0⟩ ∧
      ((d.draw corner).1.draw corner).1.lit ⟨0, 0⟩ = true ∧
      ((d.draw corner).1.draw corner).2 = true := by
  intro d tall corner
  have h : d.WellFormed := (wellFormed_new _).run _
  have hrows : corner.rows.length ≤ d.height := by decide
  obtain ⟨htwice, horder, hcollision⟩ := drawing_cancels_and_commutes h corner tall
  refine ⟨h, hrows, horder _, (htwice _).trans ?_, (hcollision hrows).mpr ⟨⟨63, 31⟩, ?_⟩⟩
  · decide +kernel
  · decide +kernel

end Chip8.Display
