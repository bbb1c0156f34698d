import Chip8.Proofs.Instruction.Encoding
import Chip8.Proofs.Machine.Addressing

namespace Chip8

namespace Instruction

-- The registers that an instruction may write. VF is the flag of arithmetic and drawing.
def Writes : Instruction → Register → Prop
  | .loadByte x _, k | .addByte x _, k | .copy x _, k | .random x _, k | .readDelay x, k
  | .readKey x, k => k = x
  | .or x _, k | .and x _, k | .xor x _, k | .add x _, k | .sub x _, k | .shiftRight x _, k
  | .subFrom x _, k | .shiftLeft x _, k => k = x ∨ k = Registers.flag
  | .draw _ _ _, k => k = Registers.flag
  | .loadRegisters x, k | .loadFlags x, k => k ≤ x
  | .exit, _ => True
  | _, _ => False

-- Those that may set the address register: `Annn`, `Fx1E`, `Fx29`, `Fx30`, `Fx55`, `Fx65`, `00FD`.
def Kind.addressing : List Kind :=
  [loadAddress, addAddress, glyph, bigGlyph, saveRegisters, loadRegisters, exit]

end Instruction

namespace Registers

-- What an instruction leaves of the registers. The program counter is free to go anywhere.
structure Footprint (i : Instruction) (before after : Registers) : Prop where
  -- `2nnn`, `00EE`, `00FD`
  stack : i.kind ∉ [.call, .ret, .exit] → after.stack = before.stack
  -- `Fx15`, `00FD`
  delay : i.kind ∉ [.setDelay, .exit] → after.delay = before.delay
  -- `Fx18`, `00FD`
  sound : i.kind ∉ [.setSound, .exit] → after.sound = before.sound
  address : i.kind ∉ Instruction.Kind.addressing → after.address = before.address
  get : ∀ k, ¬i.Writes k → after.get k = before.get k

namespace Footprint

variable {i : Instruction} {r r' : Registers}

theorem refl (i : Instruction) (r : Registers) : r.Footprint i r where
  stack _ := rfl
  delay _ := rfl
  sound _ := rfl
  address _ := rfl
  get _ _ := rfl

theorem jump (h : Footprint i r r') (pc : UInt16) : Footprint i r { r' with pc } :=
  { h with }

theorem skipIf (h : Footprint i r r') (condition : Bool) : Footprint i r (r'.skipIf condition) := by
  unfold Registers.skipIf
  split
  · exact h.jump _
  · exact h

theorem withV (h : Footprint i r r') {v : Vector UInt8 16}
    (hv : ∀ k, ¬i.Writes k → { r' with v }.get k = r'.get k) : Footprint i r { r' with v } :=
  { h with get := fun k hk => (hv k hk).trans (h.get k hk) }

theorem set (h : Footprint i r r') {x : Register} (hx : i.Writes x) (value : UInt8) :
    Footprint i r (r'.set x value) := by
  refine h.withV fun k hk => ?_
  have hne : x ≠ k := fun heq => hk (heq ▸ hx)
  exact (r'.get_set x k value).trans (if_neg hne)

theorem setWithFlag (h : Footprint i r r') {x : Register} (hx : i.Writes x)
    (hflag : i.Writes flag) (value : UInt8) (raised : Bool) :
    Footprint i r (r'.setWithFlag x value raised) :=
  (h.set hx value).set hflag _

theorem setAddress (h : Footprint i r r') (hi : i.kind ∈ Instruction.Kind.addressing)
    (address : UInt16) : Footprint i r { r' with address } :=
  { h with address := fun hnot => absurd hi hnot }

end Footprint

end Registers

namespace Machine

-- What an instruction leaves of the memory. Addresses count on around its end.
structure MemoryFootprint (i : Instruction) (m : Machine) (after : Memory) : Prop where
  kept : i ≠ .exit → ∀ n,
    (∀ k < i.storedCount, (m.registers.address.toNat + k) % 4096 ≠ n % 4096) →
      after.byteAt n = m.memory.byteAt n
  -- `Fx33`
  decimal : ∀ x, i = .decimal x →
    let digit (k : Nat) := (after.byteAt (m.registers.address.toNat + k)).toNat
    digit 0 < 10 ∧ digit 1 < 10 ∧ digit 2 < 10 ∧
      100 * digit 0 + 10 * digit 1 + digit 2 = (m.get x).toNat
  -- `Fx55`
  saveRegisters : ∀ x, i = .saveRegisters x → ∀ k : Register, k ≤ x →
    after.byteAt (m.registers.address.toNat + k) = m.get k
  -- `00FD`
  exit : i = .exit → ∀ n,
    after.byteAt n = if n % 4096 < Memory.programStart then m.memory.byteAt n else 0

-- What an instruction leaves of a machine.
structure Footprint (i : Instruction) (m after : Machine) : Prop where
  registers : m.registers.Footprint i after.registers
  memory : m.MemoryFootprint i after.memory
  -- `00E0`, `Dxyn`, `00Cn`, `00FB`, `00FC`, `00FE`, `00FF`, `00FD`
  display : i.kind ∉ [.clearScreen, .draw, .scrollDown, .scrollRight, .scrollLeft,
    .lowResolution, .highResolution, .exit] → after.display = m.display
  -- `Fx75`
  flags : i.kind ≠ .saveFlags → after.flags = m.flags
  -- `Cxnn`
  random : i.kind ≠ .random → after.random = m.random
  -- `Fx0A`, `00FD`
  awaited : i.kind ∉ [.readKey, .exit] → after.awaited = m.awaited
  -- `00FD`
  mode : i ≠ .exit → after.mode = m.mode
  previousMode : i ≠ .exit → after.previousMode = m.previousMode
  programSize : i ≠ .exit → after.programSize = m.programSize
  keys : i ≠ .exit → after.keys = m.keys
  cycleTime : i ≠ .exit → after.cycleTime = m.cycleTime
  timerTime : i ≠ .exit → after.timerTime = m.timerTime
  -- no instruction
  config : after.config = m.config
  instructionSet : after.instructionSet = m.instructionSet
  breakpoints : after.breakpoints = m.breakpoints
  beeper : after.beeper = m.beeper
  updatedAt : after.updatedAt = m.updatedAt

variable (m : Machine) {i : Instruction}

theorem footprint_advanceAddress {r : Registers} (h : r.Footprint i m.registers)
    (hi : i.kind ∈ Instruction.Kind.addressing) (count : Nat) :
    r.Footprint i (m.advanceAddress count).registers := by
  unfold advanceAddress
  split
  · exact h.setAddress hi _
  · exact h

theorem footprint_logic (f : UInt8 → UInt8 → UInt8) {x : Register} (y : Register)
    (hx : i.Writes x) (hflag : i.Writes Registers.flag) :
    m.registers.Footprint i (m.logic f x y).registers := by
  have h := Registers.Footprint.refl i m.registers
  unfold logic
  split
  · exact (h.set hflag 0).set hx _
  · exact h.set hx _

-- Registers behind the last of the values are not reached.
theorem footprint_setFirst (values : List UInt8)
    (h : ∀ k : Register, k.val < values.length → i.Writes k) :
    m.registers.Footprint i (m.setFirst values).registers := by
  refine (Registers.Footprint.refl i m.registers).withV fun k hk => ?_
  have hlength : values.length ≤ k.val := Nat.le_of_not_lt fun hlt => hk (h k hlt)
  refine (m.get_setFirst values k).trans ?_
  rw [List.getD_eq_getElem?_getD, List.getElem?_eq_none hlength, Option.getD_none]
  rfl

theorem footprint_readKey (x : Register) :
    m.registers.Footprint (.readKey x) (m.readKey x).registers := by
  have h := Registers.Footprint.refl (.readKey x) m.registers
  unfold readKey
  split
  · exact h.jump _
  · split
    · exact h.jump _
    · exact h.set (x := x) rfl _

theorem footprint_perform_registers (i : Instruction) :
    m.registers.Footprint i (m.perform i).machine.registers := by
  have h := Registers.Footprint.refl i m.registers
  cases i with
  | jump _ | jumpOffset _ _ => exact h.jump _
  | skipEqual _ _ | skipNotEqual _ _ | skipSame _ _ | skipDifferent _ _ | skipPressed _
  | skipNotPressed _ => exact h.skipIf _
  | call target =>
    simp only [perform, call]
    split
    · exact h
    · exact { h with stack := fun hnot => absurd List.mem_cons_self hnot }
  | ret =>
    simp only [perform, ret]
    split
    · exact h
    · exact { h with stack := fun hnot => absurd (.tail _ List.mem_cons_self) hnot }
  | loadByte _ _ | addByte _ _ | copy _ _ | random _ _ | readDelay _ => exact h.set rfl _
  | or x y | and x y | xor x y => exact m.footprint_logic _ y (.inl rfl) (.inr rfl)
  | add _ _ | sub _ _ | shiftRight _ _ | subFrom _ _ | shiftLeft _ _ =>
    exact h.setWithFlag (.inl rfl) (.inr rfl) _ _
  | draw _ _ _ => exact h.set (x := Registers.flag) rfl _
  | readKey x => exact m.footprint_readKey x
  | loadAddress _ | addAddress _ | glyph _ | bigGlyph _ =>
    exact h.setAddress (of_decide_eq_true rfl) _
  | setDelay _ => exact { h with delay := fun hnot => absurd List.mem_cons_self hnot }
  | setSound _ => exact { h with sound := fun hnot => absurd List.mem_cons_self hnot }
  | saveRegisters x =>
    exact (m.writeAtAddress (m.firstRegisters x)).footprint_advanceAddress h
      (of_decide_eq_true rfl) _
  | loadRegisters x =>
    let values := m.memory.readMany m.registers.address (x + 1)
    have hlength : values.length = x + 1 := by
      simp only [values, Memory.readMany_eq, List.length_map, List.length_range]
    have hfirst : m.registers.Footprint (.loadRegisters x) (m.setFirst values).registers :=
      m.footprint_setFirst values fun k hk => Nat.le_of_lt_succ (Nat.lt_of_lt_of_eq hk hlength)
    exact (m.setFirst values).footprint_advanceAddress hfirst (of_decide_eq_true rfl) _
  | saveFlags x =>
    simp only [perform, saveFlags]
    split <;> exact h
  | loadFlags x =>
    simp only [perform, loadFlags]
    split
    · refine m.footprint_setFirst _ fun k hk => ?_
      rw [List.length_take] at hk
      exact Nat.le_of_lt_succ (Nat.lt_of_lt_of_le hk (Nat.min_le_left _ _))
    · exact h
  | exit =>
    exact ⟨fun hnot => absurd (of_decide_eq_true rfl) hnot,
      fun hnot => absurd (of_decide_eq_true rfl) hnot,
      fun hnot => absurd (of_decide_eq_true rfl) hnot,
      fun hnot => absurd (of_decide_eq_true rfl) hnot, fun _ hnot => absurd trivial hnot⟩
  | _ => exact h

theorem byteAt_perform_decimal (m : Machine) (x : Register) :
    let digit (k : Nat) :=
      ((m.perform (.decimal x)).machine.memory.byteAt (m.registers.address.toNat + k)).toNat
    digit 0 < 10 ∧ digit 1 < 10 ∧ digit 2 < 10 ∧
      100 * digit 0 + 10 * digit 1 + digit 2 = (m.get x).toNat := by
  intro digit
  have hwritten (k : Nat) (hk : k < 3) : digit k = ((decimalDigits (m.get x))[k]).toNat :=
    congrArg UInt8.toNat (m.wrapsAround.written (.decimal x) Instruction.noConfusion k hk)
  have hlt := (m.get x).toNat_lt
  rw [hwritten 0 (by decide), hwritten 1 (by decide), hwritten 2 (by decide)]
  simp only [decimalDigits, List.getElem_cons_zero, List.getElem_cons_succ, UInt8.toNat_div,
    UInt8.toNat_mod, UInt8.reduceToNat]
  omega

theorem byteAt_perform_saveRegisters (m : Machine) {x k : Register} (hk : k ≤ x) :
    (m.perform (.saveRegisters x)).machine.memory.byteAt (m.registers.address.toNat + k) =
      m.get k := by
  have hlt : k.val < (m.storedBytes (.saveRegisters x)).length := by
    rw [length_storedBytes]
    exact Nat.lt_succ_of_le hk
  rw [m.wrapsAround.written (.saveRegisters x) Instruction.noConfusion k hlt]
  simp only [storedBytes, firstRegisters, List.getElem_take, Vector.getElem_toList]
  rfl

theorem footprint_perform_memory (m : Machine) (i : Instruction) :
    m.MemoryFootprint i (m.perform i).machine.memory where
  kept hi n hn := m.wrapsAround.kept i hi n (by rwa [length_storedBytes])
  decimal x hi := by
    rw [hi]
    exact m.byteAt_perform_decimal x
  saveRegisters x hi k hk := by
    rw [hi]
    exact m.byteAt_perform_saveRegisters hk
  exit hi n := by
    rw [hi, perform, machine_done, unload_eq]
    exact m.memory.byteAt_install [] n

theorem footprint_unload (m : Machine) : m.Footprint .exit m.unload := by
  have hregisters := m.footprint_perform_registers .exit
  have hmemory := m.footprint_perform_memory .exit
  rw [perform, machine_done] at hregisters hmemory
  rw [unload_eq] at hregisters hmemory ⊢
  exact
    { registers := hregisters
      memory := hmemory
      display := fun hi => absurd (of_decide_eq_true rfl) hi
      flags := fun _ => rfl
      random := fun _ => rfl
      awaited := fun hi => absurd (of_decide_eq_true rfl) hi
      mode := fun hi => absurd rfl hi
      previousMode := fun hi => absurd rfl hi
      programSize := fun hi => absurd rfl hi
      keys := fun hi => absurd rfl hi
      cycleTime := fun hi => absurd rfl hi
      timerTime := fun hi => absurd rfl hi
      config := rfl
      instructionSet := rfl
      breakpoints := rfl
      beeper := rfl
      updatedAt := rfl }

theorem footprint_perform (m : Machine) (i : Instruction) :
    m.Footprint i (m.perform i).machine := by
  by_cases hexit : i = .exit
  · rw [hexit]
    exact m.footprint_unload
  · have hregisters := m.footprint_perform_registers i
    have hmemory := m.footprint_perform_memory i
    obtain ⟨registers, awaited, display, flags, random, h, -, hawaited, hflags, hrandom,
      hdisplay⟩ := machine_perform_eq (m := m) hexit
    rw [h] at hregisters hmemory ⊢
    exact
      { registers := hregisters
        memory := hmemory
        display := fun hi => hdisplay fun hmem =>
          hi (List.mem_append_left [Instruction.Kind.exit] hmem)
        flags := hflags
        random := hrandom
        awaited := fun hi => hawaited fun hkind => hi (hkind ▸ List.mem_cons_self)
        mode := fun _ => rfl
        previousMode := fun _ => rfl
        programSize := fun _ => rfl
        keys := fun _ => rfl
        cycleTime := fun _ => rfl
        timerTime := fun _ => rfl
        config := rfl
        instructionSet := rfl
        breakpoints := rfl
        beeper := rfl
        updatedAt := rfl }

-- An opcode that succeeds is that of an instruction, and does no more than this may.
theorem executed_within_footprint (m : Machine) (opcode : UInt16)
    (h : (m.execute opcode).fault = none) :
    ∃ i, Opcode.decode opcode = some i ∧
      opcode.toNat = Opcode.encode (Opcode.n opcode) i ∧
      m.Footprint i (m.execute opcode).machine := by
  cases hi : m.instruction? opcode with
  | none => simp [execute_of_eq_none hi] at h
  | some i =>
    have hdecode := ((m.instruction?_eq_some_iff opcode i).mp hi).1
    rw [execute_of_eq_some hi]
    exact ⟨i, hdecode, Opcode.toNat_of_decode hdecode, m.footprint_perform i⟩

-- The digits of a number are stored across the last cell, and nothing behind them.
theorem digits_stored_around_end :
    let m := ((new (.standard 0)).setRegister 0 254).setAddress 0x0FFE
    let after := (m.execute 0xF033).machine
    (m.execute 0xF033).fault = none ∧ (after.memory.byteAt 0xFFE).toNat = 2 ∧
      (after.memory.byteAt 0xFFF).toNat = 5 ∧ (after.memory.byteAt 0).toNat = 4 ∧
      after.memory.byteAt 1 = m.memory.byteAt 1 ∧ after.registers.address = 0x0FFE ∧
      after.display = m.display := by
  intro m after
  have hok : (m.execute 0xF033).fault = none := by
    rw [execute_of_chip8 (i := .decimal 0) (by decide) (by decide)]
    rfl
  obtain ⟨i, hdecode, -, hfootprint⟩ := executed_within_footprint m 0xF033 hok
  obtain rfl : i = .decimal 0 := Option.some.inj (hdecode.symm.trans (by decide))
  have h : m.Footprint (.decimal 0) after := hfootprint
  have hget : (m.get 0).toNat = 254 := rfl
  have haddress (k : Nat) : m.registers.address.toNat + k = 0x0FFE + k := rfl
  have hdigits := h.memory.decimal 0 rfl
  simp only [haddress, hget, Nat.reduceAdd] at hdigits
  have hlast : after.memory.byteAt 0 = after.memory.byteAt 0x1000 := after.memory.byteAt_congr rfl
  have hbehind : ∀ k < 3, (m.registers.address.toNat + k) % 4096 ≠ 1 % 4096 := by decide
  refine ⟨hok, ?_, ?_, ?_, ?_, ?_, ?_⟩
  · omega
  · omega
  · rw [hlast]
    omega
  · exact h.memory.kept Instruction.noConfusion 1 hbehind
  · exact h.registers.address (by decide)
  · exact h.display (by decide)

end Machine

end Chip8
