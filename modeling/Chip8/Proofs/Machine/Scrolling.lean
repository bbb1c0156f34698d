import Chip8.Machine.Operation
import Chip8.Proofs.Display.Scrolling
import Chip8.Proofs.Machine.Failure

namespace Chip8

namespace Display

variable {d d' d'' : Display}

theorem Shifted.refl (d : Display) (direction : Direction) : d.Shifted direction 0 d := by
  intro p hp
  have hin := (d.contains_iff p).mp hp
  cases direction with
  | down | right => simp
  | left => simp [hin.1]

-- A move is taken up where the one before it left the picture.
theorem Shifted.trans {direction : Direction} {first second : Nat}
    (hr : d'.resolution = d.resolution) (h : d.Shifted direction first d')
    (h' : d'.Shifted direction second d'') : d.Shifted direction (first + second) d'' := by
  intro p hp
  have hin := (d.contains_iff p).mp hp
  rw [h' p (by rwa [contains_congr hr])]
  cases direction with
  | down =>
    have hfrom := h ⟨p.x, p.y - second⟩ ((d.contains_iff _).mpr ⟨hin.1, by dsimp; omega⟩)
    simp only [hfrom, Nat.sub_sub, Nat.add_comm second first, ← and_assoc]
    refine and_congr_left fun _ => ?_
    omega
  | right =>
    have hfrom := h ⟨p.x - second, p.y⟩ ((d.contains_iff _).mpr ⟨by dsimp; omega, hin.2⟩)
    simp only [hfrom, Nat.sub_sub, Nat.add_comm second first, ← and_assoc]
    refine and_congr_left fun _ => ?_
    omega
  | left =>
    have hwidth : d'.width = d.width := congrArg Resolution.width hr
    simp only [hwidth]
    constructor
    · rintro ⟨hlt, hlit⟩
      have hfrom := h ⟨p.x + second, p.y⟩ ((d.contains_iff _).mpr ⟨hlt, hin.2⟩)
      rw [hfrom] at hlit
      simpa only [Nat.add_assoc, Nat.add_comm second first] using hlit
    · rintro ⟨hlt, hlit⟩
      have hfrom := h ⟨p.x + second, p.y⟩
        ((d.contains_iff _).mpr ⟨by dsimp; omega, hin.2⟩)
      rw [hfrom]
      refine ⟨by omega, ?_⟩
      simpa only [Nat.add_assoc, Nat.add_comm second first] using And.intro hlt hlit

-- What moves to `q` and back shows where it was, if it stays inside the display on the way.
theorem lit_of_back (d' : Display) (q : Point) {Stays : Prop} {p : Point}
    (hr : d''.resolution = d.resolution)
    (hthere : d.contains p = true → Stays → (d'.lit q = true ↔ d.lit p = true))
    (hback : d.contains p = true → (d''.lit p = true ↔ Stays ∧ d'.lit q = true)) :
    d''.lit p = true ↔ d.lit p = true ∧ Stays := by
  constructor
  · intro hlit
    have hp : d.contains p = true := contains_congr hr p ▸ contains_of_lit hlit
    obtain ⟨hstays, hmoved⟩ := (hback hp).mp hlit
    exact ⟨(hthere hp hstays).mp hmoved, hstays⟩
  · rintro ⟨hlit, hstays⟩
    have hp := contains_of_lit hlit
    exact (hback hp).mpr ⟨hstays, (hthere hp hstays).mpr hlit⟩

theorem Shifted.lit_left_of_right {distance : Nat} (hr : d'.resolution = d.resolution)
    (hr' : d''.resolution = d.resolution) (h : d.Shifted .right distance d')
    (h' : d'.Shifted .left distance d'') (p : Point) :
    d''.lit p = true ↔ d.lit p = true ∧ p.x + distance < d.width := by
  have hwidth : d'.width = d.width := congrArg Resolution.width hr
  refine lit_of_back d' ⟨p.x + distance, p.y⟩ hr' (fun hp hlt => ?_) fun hp => ?_
  · have hin := (d.contains_iff p).mp hp
    rw [h ⟨p.x + distance, p.y⟩ ((d.contains_iff _).mpr ⟨hlt, hin.2⟩)]
    simp
  · rw [h' p (by rwa [contains_congr hr]), hwidth]

theorem Shifted.lit_right_of_left {distance : Nat} (hr : d'.resolution = d.resolution)
    (hr' : d''.resolution = d.resolution) (h : d.Shifted .left distance d')
    (h' : d'.Shifted .right distance d'') (p : Point) :
    d''.lit p = true ↔ d.lit p = true ∧ distance ≤ p.x := by
  refine lit_of_back d' ⟨p.x - distance, p.y⟩ hr' (fun hp hle => ?_) fun hp => ?_
  · have hin := (d.contains_iff p).mp hp
    rw [h ⟨p.x - distance, p.y⟩ ((d.contains_iff _).mpr ⟨by dsimp; omega, hin.2⟩)]
    simp [Nat.sub_add_cancel hle, hin.1]
  · exact h' p (by rwa [contains_congr hr])

theorem distance_le (d : Display) (n : Nat) : d.distance n ≤ n := by
  unfold distance
  split
  · exact Nat.div_le_self n 2
  · exact Nat.le_refl n

-- A distance of 32 bits is not cut.
theorem Cropped.shifted_scroll_of_lt (h : d.Cropped) (direction : Direction) {n : Nat}
    (hn : n < UInt32.size) : d.Shifted direction (d.distance n) (d.scroll direction n) := by
  by_cases hd : direction = .down
  · rw [hd]
    exact h.shifted_scroll_down n
  · have hcut := h.shifted_scroll hd n
    rwa [Nat.mod_eq_of_lt (Nat.lt_of_le_of_lt (d.distance_le n) hn)] at hcut

theorem run_append (d : Display) (first second : List Operation) :
    d.run (first ++ second) = (d.run first).run second :=
  List.foldl_append

theorem resolution_run_scroll (d : Display) (directions : List Direction) (n : Nat) :
    (d.run (directions.map (.scroll · n))).resolution = d.resolution := by
  induction directions generalizing d with
  | nil => rfl
  | cons direction rest ih => exact ih (d.scroll direction n)

theorem WellFormed.shifted_run_scroll (h : d.WellFormed) (direction : Direction) {n : Nat}
    (hn : n < UInt32.size) (k : Nat) :
    d.Shifted direction (k * d.distance n)
      (d.run ((List.replicate k direction).map (.scroll · n))) := by
  induction k generalizing d with
  | zero =>
    rw [Nat.zero_mul]
    exact .refl d direction
  | succ k ih =>
    have hfirst : d.Shifted direction (d.distance n) (d.scroll direction n) :=
      h.shifted_scroll_of_lt direction hn
    have hresolution : (d.scroll direction n).resolution = d.resolution := rfl
    rw [Nat.succ_mul, Nat.add_comm]
    exact .trans hresolution hfirst (ih (h.scroll direction n))

-- The display between the scrolls there and the scrolls back.
theorem WellFormed.exists_there (h : d.WellFormed) (there back : Direction) {n : Nat}
    (hn : n < UInt32.size) (k : Nat) :
    ∃ d', d'.resolution = d.resolution ∧ d.Shifted there (k * d.distance n) d' ∧
      d'.Shifted back (k * d.distance n)
        (d.run ((List.replicate k there ++ List.replicate k back).map (.scroll · n))) := by
  let first : List Operation := (List.replicate k there).map (.scroll · n)
  have hresolution : (d.run first).resolution = d.resolution := d.resolution_run_scroll _ n
  have hdistance : (d.run first).distance n = d.distance n := by
    rw [distance, hresolution, distance]
  have hfirst : (d.run first).WellFormed := h.run first
  refine ⟨d.run first, hresolution, h.shifted_run_scroll there hn k, ?_⟩
  rw [List.map_append, run_append, ← hdistance]
  exact hfirst.shifted_run_scroll back hn k

end Display

-- The opcode that scrolls by four pixels of high resolution.
def Direction.opcode : Direction → UInt16
  | .down => 0x00C4
  | .right => 0x00FB
  | .left => 0x00FC

namespace Machine

variable {m : Machine}

theorem exists_directions {opcodes : List UInt16}
    (h : ∀ opcode ∈ opcodes, opcode = 0x00FB ∨ opcode = 0x00FC) :
    ∃ directions : List Direction, directions.map Direction.opcode = opcodes := by
  induction opcodes with
  | nil => exact ⟨[], rfl⟩
  | cons opcode rest ih =>
    rw [List.forall_mem_cons] at h
    obtain ⟨directions, rfl⟩ := ih h.2
    rcases h.1 with rfl | rfl
    · exact ⟨.right :: directions, rfl⟩
    · exact ⟨.left :: directions, rfl⟩

theorem execute_scroll (hset : m.instructionSet = .superChip) (direction : Direction) :
    m.execute direction.opcode = done (m.showOn (m.display.scroll direction 4)) := by
  have hsupports (kind : Instruction.Kind) : m.instructionSet.supports kind = true := by
    rw [hset]
    exact InstructionSet.supports_superChip kind
  cases direction with
  | down =>
    have hdecode : Opcode.decode (Direction.opcode .down) = some (.scrollDown 4) := by decide
    exact execute_of_eq_some ((m.instruction?_eq_some_iff _ _).mpr ⟨hdecode, hsupports _⟩)
  | right =>
    have hdecode : Opcode.decode (Direction.opcode .right) = some .scrollRight := by decide
    exact execute_of_eq_some ((m.instruction?_eq_some_iff _ _).mpr ⟨hdecode, hsupports _⟩)
  | left =>
    have hdecode : Opcode.decode (Direction.opcode .left) = some .scrollLeft := by decide
    exact execute_of_eq_some ((m.instruction?_eq_some_iff _ _).mpr ⟨hdecode, hsupports _⟩)

-- Scrolls never fail and reach nothing but the display.
theorem executeAll_scrolls (hset : m.instructionSet = .superChip) (directions : List Direction) :
    executeAll (directions.map Direction.opcode) m =
      (directions.length, done (m.showOn (m.display.run (directions.map (.scroll · 4))))) := by
  induction directions generalizing m with
  | nil => rfl
  | cons direction rest ih =>
    have hrest := ih (m := m.showOn (m.display.scroll direction 4)) hset
    simp only [List.map_cons, executeAll, execute_scroll hset, fault_done, machine_done, hrest]
    rfl

-- As many scrolls to the left as there were to the right leave of the picture what lies so far from
-- the right edge that it never passed it, and the other way round. After any series of them, and so
-- at each point of these, all of a row that is lit lies inside its width, be it 64 or 128 pixels.
theorem opposite_scrolls_cancel (hset : m.instructionSet = .superChip) (h : m.display.WellFormed)
    (k : Nat) :
    let right := List.replicate k (0x00FB : UInt16)
    let left := List.replicate k (0x00FC : UInt16)
    let distance := if m.display.resolution = .low then 2 else 4
    (∃ display, executeAll (right ++ left) m = (2 * k, done (m.showOn display)) ∧
      ∀ p, display.lit p = true ↔
        m.display.lit p = true ∧ p.x + k * distance < m.display.width) ∧
    (∃ display, executeAll (left ++ right) m = (2 * k, done (m.showOn display)) ∧
      ∀ p, display.lit p = true ↔ m.display.lit p = true ∧ k * distance ≤ p.x) ∧
    ∀ opcodes : List UInt16, (∀ opcode ∈ opcodes, opcode = 0x00FB ∨ opcode = 0x00FC) →
      ∃ display, executeAll opcodes m = (opcodes.length, done (m.showOn display)) ∧
        display.resolution = m.display.resolution ∧
        ∀ row ∈ display.rows, ∀ x, row.lit x = true → x < m.display.width := by
  intro right left distance
  have hdistance : m.display.distance 4 = distance := by
    simp only [Display.distance, distance]
    cases m.display.resolution <;> rfl
  have hrun (there back : Direction) :
      executeAll (List.replicate k there.opcode ++ List.replicate k back.opcode) m =
        (2 * k, done (m.showOn (m.display.run
          ((List.replicate k there ++ List.replicate k back).map (.scroll · 4))))) := by
    have hall := executeAll_scrolls hset (List.replicate k there ++ List.replicate k back)
    rwa [List.map_append, List.map_replicate, List.map_replicate, List.length_append,
      List.length_replicate, List.length_replicate, ← Nat.two_mul] at hall
  refine ⟨⟨_, hrun .right .left, ?_⟩, ⟨_, hrun .left .right, ?_⟩, fun opcodes hopcodes => ?_⟩
  · obtain ⟨d', hresolution, hthere, hback⟩ := h.exists_there .right .left (n := 4) (by decide) k
    rw [hdistance] at hthere hback
    exact hthere.lit_left_of_right hresolution (m.display.resolution_run_scroll _ 4) hback
  · obtain ⟨d', hresolution, hthere, hback⟩ := h.exists_there .left .right (n := 4) (by decide) k
    rw [hdistance] at hthere hback
    exact hthere.lit_right_of_left hresolution (m.display.resolution_run_scroll _ 4) hback
  · obtain ⟨directions, rfl⟩ := exists_directions hopcodes
    refine ⟨_, ?_, m.display.resolution_run_scroll directions 4, ?_⟩
    · rw [executeAll_scrolls hset, List.length_map]
    · have hwell := h.run (directions.map (.scroll · 4))
      have hwidth := congrArg Resolution.width (m.display.resolution_run_scroll directions 4)
      exact fun row hrow x hx => Nat.lt_of_lt_of_eq (hwell.lit_lt row hrow x hx) hwidth

-- A picture of two pixels is scrolled by two columns twice. The right one leaves a row of 64.
theorem right_pixel_lost_to_scrolls :
    let display := (Display.new .standard).run [.setPixel ⟨59, 0⟩ true, .setPixel ⟨60, 0⟩ true]
    let m := ((new (.standard 0)).setInstructionSet .superChip).showOn display
    let after := (executeAll [0x00FB, 0x00FB, 0x00FC, 0x00FC] m).2
    m.instructionSet = .superChip ∧ m.display.WellFormed ∧ after.fault = none ∧
      after.machine.display.lit ⟨59, 0⟩ = true ∧ m.display.lit ⟨60, 0⟩ = true ∧
      after.machine.display.lit ⟨60, 0⟩ = false := by
  intro display m after
  have hset : m.instructionSet = .superChip := rfl
  have hwell : m.display.WellFormed := (Display.wellFormed_new .standard).run _
  obtain ⟨⟨shown, hafter, hlit⟩, -, -⟩ := opposite_scrolls_cancel hset hwell 2
  have hshown : after = done (m.showOn shown) := congrArg Prod.snd hafter
  refine ⟨hset, hwell, ?_, ?_, by decide +kernel, ?_⟩
  · rw [hshown, fault_done]
  · rw [hshown]
    exact (hlit ⟨59, 0⟩).mpr (by decide +kernel)
  · rw [hshown, ← Bool.not_eq_true]
    exact mt (hlit ⟨60, 0⟩).mp (by decide +kernel)

end Machine

end Chip8
