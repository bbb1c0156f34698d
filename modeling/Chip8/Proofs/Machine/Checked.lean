import Chip8.Proofs.Display.Checked
import Chip8.Proofs.Machine.Tone
import Chip8.Proofs.Machine.WellFormed

namespace Chip8

theorem Memory.getElem?_bytes (m : Memory) {a : UInt16} {n : Nat} (h : (index a).val = n) :
    m.bytes[n]? = some (m.read a) := by
  subst h
  exact Vector.getElem?_eq_getElem (index a).isLt

-- The samples of a waveform are counted in 64 bits.
def Beeper.play? (b : Beeper) : Option Beeper := do
  let added := Generator.missing b.queue.length * Generator.bufferSize
  let position ← fit? UInt64.size (b.position + added)
  return { b.play with position }

-- A queue that nobody drained is filled from its first sample on.
theorem Generator.Undrained.play?_eq {b : Beeper} (h : b.Undrained) : b.play? = some b.play := by
  have hfit : b.play.position < UInt64.size :=
    Nat.lt_of_le_of_lt (h.refill Voice.sample).position_le_wanted (by decide)
  have hposition : fit? UInt64.size (b.position + Generator.missing b.queue.length *
      Generator.bufferSize) = some b.play.position := fit?_eq_some hfit
  rw [Beeper.play?, hposition]
  rfl

namespace Machine

-- The least number of nanoseconds that a duration cannot hold.
def durationLimit : Nat := UInt64.size * 1000000000

-- Checked operations have no result where they look up what is not there or where a sum has no
-- room. The bytes of the program are looked up where they lie.
def program? (m : Machine) : Option (List UInt8) :=
  (List.range m.programSize).mapM fun k => m.memory.bytes[Memory.programStart + k]?

-- Only keys that are on the keypad can be awaited.
def readKey? (m : Machine) (x : Register) : Option Machine := do
  let again := m.jump (Registers.preceding m.registers.pc)
  match m.awaited with
  | none => return { again with awaited := m.firstHeld.map fun key : Key => UInt8.ofNat key.val }
  | some number =>
    let held ← m.keys[number.toNat]?
    if held then return again
    else return { m.setRegister x number with awaited := none }

def draw? (m : Machine) (x y : Register) (height : Fin 16) : Option Machine := do
  let position : Point :=
    ⟨(m.get x).toNat % m.display.width, (m.get y).toNat % m.display.height⟩
  let (display, collision) ← m.display.draw? (m.spriteAt position height)
  return { m.setRegister Registers.flag (if collision then 1 else 0) with display }

-- As many registers as flags are copied, and there are enough of both.
def saveFlags? (m : Machine) (x : Register) : Option Outcome := do
  if x.val < 8 then
    let saved ← slice? m.registers.v.toList (x + 1)
    let _ ← slice? m.flags.toList (x + 1)
    return done { m with flags := Vector.ofFn fun k => saved.getD k (m.flags.get k) }
  else return m.fail (.noFlag x)

def loadFlags? (m : Machine) (x : Register) : Option Outcome := do
  if x.val < 8 then
    let loaded ← slice? m.flags.toList (x + 1)
    let _ ← slice? m.registers.v.toList (x + 1)
    return done (m.setFirst loaded)
  else return m.fail (.noFlag x)

-- The other instructions look up nothing but registers and wrap what they compute.
def perform? (m : Machine) : Instruction → Option Outcome
  | .jumpOffset x base => do
    let offset := m.get (if m.config.dialect.jumpFromV0 then 0 else x)
    let target ← fit? UInt16.size (base.toNat + offset.toNat)
    return done (m.jump (UInt16.ofNat target &&& 0xFFF))
  | .readKey x => return done (← m.readKey? x)
  | .draw x y height => return done (← m.draw? x y height)
  | .glyph x => do
    let address ← fit? UInt16.size ((m.get x).toNat * Memory.glyphHeight)
    return done (m.setAddress (UInt16.ofNat address))
  | .bigGlyph x => do
    let address ← fit? UInt16.size (Memory.bigFontStart + (m.keyOf x).val * Memory.bigGlyphHeight)
    return done (m.setAddress (UInt16.ofNat address))
  | .scrollDown distance => return done (m.showOn (← m.display.scrollDown? distance))
  | .saveFlags x => m.saveFlags? x
  | .loadFlags x => m.loadFlags? x
  | i => return m.perform i

def execute? (m : Machine) (opcode : UInt16) : Option Outcome :=
  match m.instruction? opcode with
  | some i => m.perform? i
  | none => return m.fail (.invalidOpcode opcode (Registers.preceding m.registers.pc))

def step? (m : Machine) : Option Outcome := do
  if m.mode = .empty then return m.done
  else
    let after ← m.fetched.execute? (m.memory.readWord m.registers.pc)
    match after.fault with
    | none => return after
    | some fault => return (after.machine.setMode .paused).fail fault

def tick? (m : Machine) : Option Machine := do
  let display ← m.display.animate?
  return { m with registers := m.registers.tick, display }

def ticks? : Nat → Machine → Option Machine
  | 0, m => return m
  | count + 1, m => do
    if m.isQuiet then return m
    else ticks? count (← m.tick?)

def passTime? (m : Machine) (elapsed : Nat) : Option Machine := do
  let time ← fit? durationLimit (m.timerTime + elapsed)
  ticks? (time / tickPeriod) { m with timerTime := time % tickPeriod }

def cycle? (m : Machine) (elapsed : Nat) : Option Outcome := do
  let cycleTime ← fit? durationLimit (m.cycleTime + elapsed)
  let m := { m with cycleTime }
  if m.isCycleDue then
    let m := { m with cycleTime := 0 }
    if m.breakpoints.has m.registers.pc then return (m.setMode .step).done else m.step?
  else return m.done

def playTone? (m : Machine) : Option Machine := do
  if m.config.sound.enabled && m.mode == .run && m.registers.sound != 0 then
    return { m with beeper := ← m.beeper.play? }
  else return m

def advance? (m : Machine) (elapsed : Nat) : Option Outcome := do
  match m.mode with
  | .empty => return m.done
  | .run =>
    let after ← m.cycle? elapsed
    match after.fault with
    | none => return done (← (← after.machine.passTime? elapsed).playTone?)
    | some _ => return after
  | _ => return done (← (← m.passTime? elapsed).playTone?)

theorem position_spriteAt (m : Machine) (position : Point) (height : Fin 16) :
    (m.spriteAt position height).position = position := by
  unfold spriteAt
  simp only
  split
  · split <;> rfl
  · rfl

theorem length_rows_spriteAt_le (m : Machine) (position : Point) (height : Fin 16) :
    (m.spriteAt position height).rows.length ≤ 16 := by
  have hbytes (count : Nat) (hc : count ≤ 16) :
      ((m.memory.readMany m.registers.address count).map UInt8.toUInt16).length ≤ 16 := by
    simpa [Memory.readMany] using hc
  unfold spriteAt
  simp only
  split
  · split
    · exact hbytes 16 (Nat.le_refl 16)
    · simp [Memory.readWords]
  · exact hbytes height (Nat.le_of_lt height.isLt)

-- The registers and the flags that an instruction copies are there.
theorem copied_le (m : Machine) {x : Register} (hx : x.val < 8) :
    x.val + 1 ≤ m.registers.v.toList.length ∧ x.val + 1 ≤ m.flags.toList.length := by
  simp only [Vector.length_toList]
  omega

theorem saveFlags?_eq (m : Machine) (x : Register) : m.saveFlags? x = some (m.saveFlags x) := by
  unfold saveFlags? saveFlags
  split
  case isTrue hx =>
    obtain ⟨hregisters, hflags⟩ := m.copied_le hx
    rw [slice?_eq_some hregisters, slice?_eq_some hflags]
    rfl
  case isFalse => rfl

theorem loadFlags?_eq (m : Machine) (x : Register) : m.loadFlags? x = some (m.loadFlags x) := by
  unfold loadFlags? loadFlags
  split
  case isTrue hx =>
    obtain ⟨hregisters, hflags⟩ := m.copied_le hx
    rw [slice?_eq_some hflags, slice?_eq_some hregisters]
    rfl
  case isFalse => rfl

theorem playTone?_eq {m : Machine} (h : m.beeper.Undrained) :
    m.playTone? = some m.playTone := by
  unfold playTone? playTone
  split
  · rw [h.play?_eq]
    rfl
  · rfl

namespace WellFormed

variable {m : Machine}

-- A program that fits lies where its bytes are read from.
theorem program?_eq (h : m.WellFormed) : m.program? = some m.program := by
  have hbyte : ∀ k ∈ List.range m.programSize, m.memory.bytes[Memory.programStart + k]? =
      some (m.memory.read (UInt16.ofNat Memory.programStart + UInt16.ofNat k)) := by
    intro k hk
    have hlt := List.mem_range.mp hk
    have hsize := h.programSize_le
    have hk : Memory.programStart + k < 4096 := by
      simp only [Memory.programStart]
      omega
    have hindex : (Memory.index (UInt16.ofNat Memory.programStart + UInt16.ofNat k)).val =
        Memory.programStart + k := by
      simp only [Memory.index, Fin.ofNat, UInt16.toNat_add, UInt16.toNat_ofNat',
        Memory.programStart] at hk ⊢
      omega
    exact m.memory.getElem?_bytes hindex
  rw [Machine.program?, mapM_eq_some_filterMap _ fun k hk => ⟨_, hbyte k hk⟩,
    List.filterMap_congr hbyte, List.filterMap_eq_map']
  rfl

theorem readKey?_eq (h : m.WellFormed) (x : Register) : m.readKey? x = some (m.readKey x) := by
  unfold Machine.readKey? Machine.readKey
  cases hawaited : m.awaited with
  | none => rfl
  | some number =>
    have hnumber : number.toNat < 16 := UInt8.lt_iff_toNat_lt.mp (h.awaited_lt number hawaited)
    have hheld : m.keys[number.toNat]? = some m.keys[number.toNat] :=
      Vector.getElem?_eq_getElem hnumber
    simp only [isNumberHeld, hheld]
    cases m.keys[number.toNat] <;> rfl

-- A sprite begins on the display and has at most sixteen rows and columns.
theorem draw?_eq (h : m.WellFormed) (x y : Register) (height : Fin 16) :
    m.draw? x y height = some (m.draw x y height) := by
  have hfit : ∀ p ∈ (m.spriteAt ⟨(m.get x).toNat % m.display.width,
      (m.get y).toNat % m.display.height⟩ height).points,
        p.x < UInt64.size ∧ p.y < UInt64.size := by
    intro p hp
    obtain ⟨hx, hy⟩ := Sprite.lt_of_mem_points hp
    have hrows := length_rows_spriteAt_le m ⟨(m.get x).toNat % m.display.width,
      (m.get y).toNat % m.display.height⟩ height
    rw [position_spriteAt] at hx hy
    have hleft := Nat.mod_le (m.get x).toNat m.display.width
    have htop := Nat.mod_le (m.get y).toNat m.display.height
    have hvx := (m.get x).toNat_lt
    have hvy := (m.get y).toNat_lt
    simp only [UInt64.size] at hx hy ⊢
    omega
  rw [Machine.draw?, h.display.draw?_eq hfit]
  rfl

theorem perform?_eq (h : m.WellFormed) {i : Instruction} (hi : i.InRange) :
    m.perform? i = some (m.perform i) := by
  cases i with
  | jumpOffset x base =>
    have hbase : base.toNat ≤ 4095 := UInt16.le_iff_toNat_le.mp hi
    have hoffset := (m.get (if m.config.dialect.jumpFromV0 then 0 else x)).toNat_lt
    have hsum : UInt16.ofNat (base.toNat +
        (m.get (if m.config.dialect.jumpFromV0 then 0 else x)).toNat) =
        base + (m.get (if m.config.dialect.jumpFromV0 then 0 else x)).toUInt16 := by
      apply UInt16.toNat.inj
      rw [UInt16.toNat_ofNat', UInt16.toNat_add, UInt8.toNat_toUInt16]
    have hfit : base.toNat + (m.get (if m.config.dialect.jumpFromV0 then 0 else x)).toNat <
        UInt16.size := by
      simp only [UInt16.size]
      omega
    simp only [Machine.perform?, Machine.perform]
    rw [fit?_eq_some hfit, ← hsum]
    rfl
  | readKey x =>
    rw [Machine.perform?, h.readKey?_eq]
    rfl
  | draw x y height =>
    rw [Machine.perform?, h.draw?_eq]
    rfl
  | glyph x =>
    have hx := (m.get x).toNat_lt
    have hfit : (m.get x).toNat * Memory.glyphHeight < UInt16.size := by
      simp only [Memory.glyphHeight, UInt16.size]
      omega
    rw [Machine.perform?, fit?_eq_some hfit]
    rfl
  | bigGlyph x =>
    have hdigit := (m.keyOf x).isLt
    have hfit : Memory.bigFontStart + (m.keyOf x).val * Memory.bigGlyphHeight < UInt16.size := by
      have hstart : Memory.bigFontStart = 80 := rfl
      simp only [hstart, Memory.bigGlyphHeight, UInt16.size]
      omega
    rw [Machine.perform?, fit?_eq_some hfit]
    rfl
  | scrollDown distance =>
    rw [Machine.perform?, Display.scrollDown?_eq]
    rfl
  | saveFlags x => exact m.saveFlags?_eq x
  | loadFlags x => exact m.loadFlags?_eq x
  | _ => rfl

theorem execute?_eq (h : m.WellFormed) (opcode : UInt16) :
    m.execute? opcode = some (m.execute opcode) := by
  unfold Machine.execute? Machine.execute
  cases hi : m.instruction? opcode with
  | none => rfl
  | some i =>
    exact h.perform?_eq (Opcode.inRange_of_decode ((m.instruction?_eq_some_iff opcode i).mp hi).1)

theorem step?_eq (h : m.WellFormed) : m.step? = some m.step := by
  by_cases hmode : m.mode = .empty
  · rw [Machine.step?, if_pos hmode, Machine.step, if_pos hmode]
    rfl
  · rw [Machine.step?, if_neg hmode, step_eq_of_ne_empty hmode, h.fetched.execute?_eq]
    simp only [Option.bind_eq_bind, Option.bind_some]
    cases (m.fetched.execute (m.memory.readWord m.registers.pc)).fault <;> rfl

theorem tick?_eq (h : m.WellFormed) : m.tick? = some m.tick := by
  rw [Machine.tick?, h.display.animate?_eq]
  rfl

theorem ticks?_eq (h : m.WellFormed) (count : Nat) :
    ticks? count m = some (Machine.ticks count m) := by
  induction count generalizing m with
  | zero => rfl
  | succ count ih =>
    rw [ticks?, Machine.ticks]
    split
    · rfl
    · rw [h.tick?_eq]
      exact ih h.tick

theorem passTime?_eq (h : m.WellFormed) {elapsed : Nat}
    (he : elapsed + 1000000000 ≤ durationLimit) :
    m.passTime? elapsed = some (m.passTime elapsed) := by
  have htime : m.timerTime + elapsed < durationLimit := by
    have hlt := h.timerTime_lt
    have hperiod : tickPeriod ≤ 1000000000 := by decide
    omega
  have hpending : { m with timerTime := (m.timerTime + elapsed) % tickPeriod }.WellFormed :=
    { h with timerTime_lt := Nat.mod_lt _ zero_lt_tickPeriod }
  rw [Machine.passTime?, fit?_eq_some htime]
  exact hpending.ticks?_eq _

theorem cycle?_eq (h : m.WellFormed) {elapsed : Nat}
    (he : elapsed + 1000000000 ≤ durationLimit) : m.cycle? elapsed = some (m.cycle elapsed) := by
  have htime : m.cycleTime + elapsed < durationLimit := by
    have hlt := h.cycleTime_lt
    omega
  have hzero : { m with cycleTime := 0 }.WellFormed := { h with cycleTime_lt := zero_lt_second }
  rw [Machine.cycle?, fit?_eq_some htime, Machine.cycle]
  simp only [Option.bind_eq_bind, Option.bind_some]
  split
  · split
    · rfl
    · exact hzero.step?_eq
  · rfl

theorem advance?_eq (h : m.WellFormed) (htone : m.beeper.Undrained) {elapsed : Nat}
    (he : elapsed + 1000000000 ≤ durationLimit) :
    m.advance? elapsed = some (m.advance elapsed) := by
  unfold Machine.advance? Machine.advance
  cases m.mode with
  | empty => rfl
  | run =>
    have hcycle := stable.cycle h elapsed
    have htone := stable_undrained.passTime (stable_undrained.cycle htone elapsed) elapsed
    simp only [h.cycle?_eq he, Option.bind_eq_bind, Option.bind_some]
    cases hfault : (m.cycle elapsed).fault with
    | none => simp [hcycle.passTime?_eq he, playTone?_eq htone]
    | some fault => rfl
  | step | paused =>
    have htone := stable_undrained.passTime htone elapsed
    simp [h.passTime?_eq he, playTone?_eq htone]

end WellFormed

-- Whatever was done with a machine, it is well-formed and nothing that it does next looks up what
-- is not there or computes what has no room.
theorem wellFormed_and_checked_of_run_new (config : Config) (operations : List Operation) :
    let m := (new config).run operations
    m.WellFormed ∧
      m.program? = some m.program ∧
      (∀ opcode, m.execute? opcode = some (m.execute opcode)) ∧
      m.step? = some m.step ∧
      (∀ elapsed, elapsed + 1000000000 ≤ durationLimit →
        m.advance? elapsed = some (m.advance elapsed)) ∧
      (m.display.frameBytes < UInt64.size → ∀ frame,
        m.display.paint? frame = some (m.display.paint frame)) := by
  intro m
  have h : m.WellFormed := (wellFormed_new config).run operations
  have htone : m.beeper.Undrained := undrained_run (.new config.sound.voice) operations
  exact ⟨h, h.program?_eq, h.execute?_eq, h.step?_eq, fun _ he => h.advance?_eq htone he,
    fun hb frame => h.display.paint?_eq hb frame⟩

theorem checked_of_standard :
    let m := (new (.standard 0)).run [.setGraphics .standard, .setMode .run]
    m.advance? 16666667 = some (m.advance 16666667) ∧
      m.display.paint? (.blank 0) = some (m.display.paint (.blank 0)) := by
  intro m
  obtain ⟨-, -, -, -, hadvance, hpaint⟩ :=
    wellFormed_and_checked_of_run_new (.standard 0) [.setGraphics .standard, .setMode .run]
  have hbytes : m.display.frameBytes < UInt64.size := by decide +kernel
  exact ⟨hadvance 16666667 (by decide), hpaint hbytes (.blank 0)⟩

end Machine

end Chip8
