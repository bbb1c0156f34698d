import Chip8.Proofs.Display.Sprite
import Chip8.Proofs.Instruction.Encoding
import Chip8.Proofs.Machine.Checked
import Chip8.Proofs.Machine.Settings
import Chip8.Proofs.Memory

namespace Chip8

namespace Opcode

-- `Dxyn`
def ofDraw (x y : Register) (n : Fin 16) : UInt16 :=
  UInt16.ofNat (0xD000 + 0x100 * x.val + 0x10 * y.val + n.val)

theorem decode_ofDraw (x y : Register) (n : Fin 16) :
    decode (ofDraw x y n) = some (.draw x y n) := by
  have hdigits : ofDraw x y n = ofDigits 0xD x y n := rfl
  obtain ⟨hfamily, hx, hy, hn⟩ := digits_ofDigits 0xD x y n
  rw [hdigits, decode, hfamily, hx, hy, hn]
  rfl

end Opcode

namespace Machine

-- The bits that `Dxyn` reads at I: `n` rows of 8, and 16 rows of 16 or 8 where there is no `n`.
def bitmap (m : Machine) (n : Fin 16) : Bitmap :=
  let byte (k : Nat) : Nat := (m.memory.byteAt (m.registers.address.toNat + k)).toNat
  if n = 0 ∧ m.instructionSet = .superChip then
    if m.display.resolution = .low ∧ m.config.dialect.narrowTallSprite = true then ⟨8, 16, byte⟩
    else ⟨16, 16, fun dy => 256 * byte (2 * dy) + byte (2 * dy + 1)⟩
  else ⟨8, n, byte⟩

variable {m : Machine}

theorem isSet_bytes_iff (position : Point) (count dx dy : Nat) :
    (Sprite.mk position false
      ((m.memory.readMany m.registers.address count).map UInt8.toUInt16)).bitmap.IsSet dx dy ↔
      (Bitmap.mk 8 count fun k =>
        (m.memory.byteAt (m.registers.address.toNat + k)).toNat).IsSet dx dy := by
  refine Bitmap.isSet_congr ?_ ?_ (fun k hk => ?_) dx dy
  · rfl
  · simp [Sprite.bitmap, Memory.readMany]
  · have hk : k < count := hk
    simp [Sprite.bitmap, Memory.readMany_eq, hk]

theorem isSet_words_iff (position : Point) (dx dy : Nat) :
    (Sprite.mk position true (m.memory.readWords m.registers.address 16)).bitmap.IsSet dx dy ↔
      (Bitmap.mk 16 16 fun k =>
        256 * (m.memory.byteAt (m.registers.address.toNat + 2 * k)).toNat +
          (m.memory.byteAt (m.registers.address.toNat + (2 * k + 1))).toNat).IsSet dx dy := by
  refine Bitmap.isSet_congr ?_ ?_ (fun k hk => ?_) dx dy
  · rfl
  · simp [Sprite.bitmap, Memory.readWords]
  · have hk : k < 16 := hk
    simp only [Sprite.bitmap, Memory.readWords_eq, List.getD_eq_getElem?_getD,
      List.getElem?_map, List.getElem?_range hk, Option.map_some, Option.getD_some,
      Memory.toNat_word, Nat.add_assoc]

theorem isSet_spriteAt_iff (m : Machine) (position : Point) (n : Fin 16) (dx dy : Nat) :
    (m.spriteAt position n).bitmap.IsSet dx dy ↔ (m.bitmap n).IsSet dx dy := by
  unfold spriteAt bitmap
  split
  · split
    · exact isSet_bytes_iff position 16 dx dy
    · exact isSet_words_iff position dx dy
  · exact isSet_bytes_iff position n dx dy

theorem covers_spriteAt_iff (m : Machine) (position p : Point) (n : Fin 16) :
    m.display.Covers (m.spriteAt position n).position (m.spriteAt position n).bitmap p ↔
      m.display.Covers position (m.bitmap n) p := by
  simp only [Display.Covers, position_spriteAt, isSet_spriteAt_iff]

theorem execute_ofDraw (m : Machine) (x y : Register) (n : Fin 16) :
    m.execute (Opcode.ofDraw x y n) = (m.draw x y n).done := by
  have hkind : Instruction.Kind.draw ∈ Instruction.Kind.chip8 := by decide
  exact execute_of_chip8 (Opcode.decode_ofDraw x y n) hkind

-- From the position in the two registers on, a pixel is inverted if it is covered. VF is written
-- last, so that it may also hold the position. The edges are those of the dialect on any machine
-- that was run from its start, and its display is well-formed.
theorem covered_pixels_inverted :
    (∀ (m : Machine) (x y : Register) (n : Fin 16), m.display.WellFormed →
      let start : Point :=
        ⟨(m.get x).toNat % m.display.width, (m.get y).toNat % m.display.height⟩
      let covered := m.display.Covers start (m.bitmap n)
      ∃ (display : Display) (collision : Bool), m.execute (Opcode.ofDraw x y n) = done
          { m with
            registers := m.registers.set Registers.flag (if collision then 1 else 0)
            display } ∧
        (collision = true ↔ ∃ p, covered p ∧ m.display.lit p = true) ∧
        (∀ p, display.lit p = true ↔ Xor (m.display.lit p = true) (covered p)) ∧
        display.resolution = m.display.resolution ∧ display.settings = m.display.settings) ∧
      ∀ (config : Config) (operations : List Operation),
        let m := (new config).run operations
        m.display.WellFormed ∧ m.display.settings.horizontal = m.config.dialect.horizontal ∧
          m.display.settings.vertical = m.config.dialect.vertical := by
  refine ⟨fun m x y n h => ?_, fun config operations => ?_⟩
  · intro start covered
    let sprite := m.spriteAt start n
    have hrows : sprite.rows.length ≤ m.display.height :=
      Nat.le_trans (m.length_rows_spriteAt_le start n) m.display.sixteen_le_height
    refine ⟨(m.display.draw sprite).1, (m.display.draw sprite).2, m.execute_ofDraw x y n, ?_,
      fun p => ?_, m.display.resolution_draw sprite, m.display.settings_draw sprite⟩
    · rw [h.collision_draw_iff hrows]
      exact exists_congr fun p => and_congr_left fun _ => m.covers_spriteAt_iff start p n
    · rw [h.lit_draw_iff hrows, m.covers_spriteAt_iff start p n]
  · intro m
    have hsettings : m.settings = .of (operations.foldl Config.edit config) := settings_run rfl _
    obtain ⟨hconfig, hdisplay, -, -⟩ := Settings.mk.inj hsettings
    rw [← hconfig] at hdisplay
    refine ⟨((wellFormed_new config).run operations).display, ?_, ?_⟩
    · rw [hdisplay]
      rfl
    · rw [hdisplay]
      rfl

-- A big glyph at the right end of row 28, its position read from VF. What is past the right edge
-- comes round to the left one.
theorem big_glyph_around_edge :
    let dialect : Dialect := { Dialect.standard with horizontal := .wrap }
    let config : Config := { Config.standard 0 with dialect, instructionSet := .superChip }
    let m := (new config).run [.execute 0x6F3C, .execute 0xA050]
    let after := m.execute 0xDFF0
    m.display.WellFormed ∧ m.display.lit ⟨11, 28⟩ = false ∧
      after.machine.display.lit ⟨11, 28⟩ = true ∧ after.machine.registers.address = 0x0050 := by
  intro dialect config m after
  have h : m.display.WellFormed := (covered_pixels_inverted.2 config _).1
  obtain ⟨display, collision, hafter, -, hlit, -, -⟩ := covered_pixels_inverted.1 m 15 15 0 h
  have hdark : m.display.lit ⟨11, 28⟩ = false := by decide
  have hbytes : m.memory.byteAt 80 = 0xFF ∧ m.memory.byteAt 81 = 0xFF := by
    change Memory.powerOn.byteAt 80 = 0xFF ∧ Memory.powerOn.byteAt 81 = 0xFF
    simp only [Memory.byteAt_eq_read, Memory.read_powerOn]
    decide
  have hrow : (m.bitmap 0).row 0 = 0xFFFF := by
    change 256 * (m.memory.byteAt 80).toNat + (m.memory.byteAt 81).toNat = 0xFFFF
    rw [hbytes.1, hbytes.2]
    rfl
  have hset : (m.bitmap 0).IsSet 15 0 := by
    refine ⟨by decide, by decide, ?_⟩
    rw [hrow]
    decide
  have hcovered : m.display.Covers ⟨60, 28⟩ (m.bitmap 0) ⟨11, 28⟩ :=
    ⟨15, 0, hset, .inr ⟨by decide, rfl, by decide⟩, .inl ⟨by decide, rfl⟩⟩
  have hstart : Point.mk ((m.get 15).toNat % m.display.width)
      ((m.get 15).toNat % m.display.height) = ⟨60, 28⟩ := by decide
  have hopcode : Opcode.ofDraw 15 15 0 = 0xDFF0 := by decide
  rw [hstart] at hlit
  rw [hopcode] at hafter
  refine ⟨h, hdark, ?_, ?_⟩
  · have hinverted := (hlit ⟨11, 28⟩).mpr (.inr ⟨hcovered, by simp [hdark]⟩)
    simp only [after, hafter, machine_done]
    exact hinverted
  · simp only [after, hafter, machine_done]
    rfl

end Machine

end Chip8
