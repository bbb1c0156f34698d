import Mathlib.Data.List.Forall2
import Chip8.Proofs.Machine.Bisimulation
import Chip8.Proofs.Memory

namespace Chip8.Machine

-- The machines are one but for the address register, which names one cell in both.
def Aliases (m m' : Machine) : Prop :=
  ∃ address : UInt16, m' = m.setAddress address ∧
    address.toNat % 4096 = m.registers.address.toNat % 4096

-- What is read and written through the address register, counted on from where it points. Behind
-- the last cell comes the first one, so that every byte has its cell.
structure WrapsAround (m : Machine) : Prop where
  written : ∀ i ≠ .exit, ∀ k (hk : k < (m.storedBytes i).length),
    (m.perform i).machine.memory.byteAt (m.registers.address.toNat + k) = (m.storedBytes i)[k]
  kept : ∀ i ≠ .exit, ∀ n,
    (∀ k < (m.storedBytes i).length, (m.registers.address.toNat + k) % 4096 ≠ n % 4096) →
      (m.perform i).machine.memory.byteAt n = m.memory.byteAt n
  loaded : ∀ x k : Register, (m.perform (.loadRegisters x)).machine.get k =
    if k ≤ x then m.memory.byteAt (m.registers.address.toNat + k) else m.get k
  narrow : ∀ position height, (m.spriteAt position height).wide = false →
    (m.spriteAt position height).rows =
      (List.range (if height = 0 ∧ m.instructionSet = .superChip then 16 else height)).map
        fun r => (m.memory.byteAt (m.registers.address.toNat + r)).toUInt16
  wide : ∀ position height, (m.spriteAt position height).wide = true →
    (m.spriteAt position height).rows = (List.range 16).map fun r =>
      (m.memory.byteAt (m.registers.address.toNat + 2 * r)).toUInt16 <<< 8 |||
        (m.memory.byteAt (m.registers.address.toNat + 2 * r + 1)).toUInt16

variable {m m' : Machine}

namespace Aliases

theorem refl (m : Machine) : m.Aliases m := ⟨m.registers.address, rfl, rfl⟩

-- Where the address register is set anew, its old value does not matter.
theorem setAddress (h : m.Aliases m') {first second : UInt16}
    (hcell : second.toNat % 4096 = first.toNat % 4096) :
    (m.setAddress first).Aliases (m'.setAddress second) := by
  obtain ⟨address, rfl, -⟩ := h
  exact ⟨second, rfl, hcell⟩

theorem index_eq (h : m.Aliases m') :
    Memory.index m'.registers.address = Memory.index m.registers.address := by
  obtain ⟨address, rfl, h⟩ := h
  exact Memory.index_eq_iff.mpr h

theorem addAddress (h : m.Aliases m') (offset : UInt16) :
    (m.setAddress (m.registers.address + offset)).Aliases
      (m'.setAddress (m'.registers.address + offset)) :=
  h.setAddress (Memory.index_eq_iff.mp (Memory.index_add_congr h.index_eq offset))

theorem setMode (h : m.Aliases m') (mode : Mode) : (m.setMode mode).Aliases (m'.setMode mode) := by
  obtain ⟨address, rfl, h⟩ := h
  rw [setMode_eq, setMode_eq]
  exact ⟨address, rfl, h⟩

theorem skipIf (h : m.Aliases m') (condition : Bool) :
    (m.skipIf condition).Aliases (m'.skipIf condition) := by
  obtain ⟨address, rfl, h⟩ := h
  cases condition <;> exact ⟨address, rfl, h⟩

theorem call (h : m.Aliases m') (target : UInt16) :
    (m.call target).Related Aliases (m'.call target) := by
  obtain ⟨address, rfl, h⟩ := h
  unfold Machine.call
  by_cases hfull : Registers.stackCapacity ≤ m.registers.stack.length
  · have hfull' : Registers.stackCapacity ≤ (m.setAddress address).registers.stack.length := hfull
    rw [if_pos hfull, if_pos hfull']
    exact ⟨⟨address, rfl, h⟩, rfl⟩
  · have hfull' : ¬Registers.stackCapacity ≤ (m.setAddress address).registers.stack.length := hfull
    rw [if_neg hfull, if_neg hfull']
    exact ⟨⟨address, rfl, h⟩, rfl⟩

theorem ret (h : m.Aliases m') : m.ret.Related Aliases m'.ret := by
  obtain ⟨address, rfl, h⟩ := h
  have hstack : (m.setAddress address).registers.stack = m.registers.stack := rfl
  unfold Machine.ret
  rw [hstack]
  cases m.registers.stack <;> exact ⟨⟨address, rfl, h⟩, rfl⟩

theorem logic (h : m.Aliases m') (f : UInt8 → UInt8 → UInt8) (x y : Register) :
    (m.logic f x y).Aliases (m'.logic f x y) := by
  obtain ⟨address, rfl, h⟩ := h
  have hdialect : (m.setAddress address).config.dialect = m.config.dialect := rfl
  unfold Machine.logic
  rw [hdialect]
  split <;> exact ⟨address, rfl, h⟩

theorem readKey (h : m.Aliases m') (x : Register) : (m.readKey x).Aliases (m'.readKey x) := by
  obtain ⟨address, rfl, h⟩ := h
  have hawaited : (m.setAddress address).awaited = m.awaited := rfl
  unfold Machine.readKey
  rw [hawaited]
  cases m.awaited with
  | none => exact ⟨address, rfl, h⟩
  | some number =>
    have hheld : (m.setAddress address).isNumberHeld number = m.isNumberHeld number := rfl
    simp only [hheld]
    split <;> exact ⟨address, rfl, h⟩

-- A sprite is read byte by byte or word by word, each from the cell that its address names.
theorem spriteAt_eq (h : m.Aliases m') (position : Point) (height : Fin 16) :
    m'.spriteAt position height = m.spriteAt position height := by
  have hbytes (count : Nat) := m.memory.readMany_congr h.index_eq count
  have hwords (count : Nat) := m.memory.readWords_congr h.index_eq count
  obtain ⟨address, rfl, -⟩ := h
  have hmemory : (m.setAddress address).memory = m.memory := rfl
  unfold spriteAt
  simp only [hmemory, hbytes, hwords]
  rfl

theorem draw (h : m.Aliases m') (x y : Register) (height : Fin 16) :
    (m.draw x y height).Aliases (m'.draw x y height) := by
  have hsprite (position : Point) := h.spriteAt_eq position height
  obtain ⟨address, rfl, h⟩ := h
  unfold Machine.draw
  simp only [hsprite]
  exact ⟨address, rfl, h⟩

theorem writeAtAddress (h : m.Aliases m') (bytes : List UInt8) :
    (m.writeAtAddress bytes).Aliases (m'.writeAtAddress bytes) := by
  have hmemory := m.memory.writeAll_congr h.index_eq bytes
  obtain ⟨address, rfl, h⟩ := h
  refine ⟨address, ?_, h⟩
  exact congrArg (fun memory => { m.setAddress address with memory }) hmemory

theorem advanceAddress (h : m.Aliases m') (count : Nat) :
    (m.advanceAddress count).Aliases (m'.advanceAddress count) := by
  have hadd := h.addAddress (UInt16.ofNat count)
  obtain ⟨address, rfl, h⟩ := h
  have hdialect : (m.setAddress address).config.dialect = m.config.dialect := rfl
  unfold Machine.advanceAddress
  rw [hdialect]
  split
  · exact hadd
  · exact ⟨address, rfl, h⟩

theorem setFirst (h : m.Aliases m') (values : List UInt8) :
    (m.setFirst values).Aliases (m'.setFirst values) := by
  obtain ⟨address, rfl, h⟩ := h
  unfold Machine.setFirst
  exact ⟨address, rfl, h⟩

theorem loadRegisters (h : m.Aliases m') (x : Register) :
    (m.loadRegisters x).Aliases (m'.loadRegisters x) := by
  have hbytes : m'.memory.readMany m'.registers.address (x + 1) =
      m.memory.readMany m.registers.address (x + 1) := by
    rw [Memory.readMany_congr _ h.index_eq]
    obtain ⟨address, rfl, -⟩ := h
    rfl
  unfold Machine.loadRegisters
  rw [hbytes]
  exact (h.setFirst _).advanceAddress (x + 1)

theorem saveFlags (h : m.Aliases m') (x : Register) :
    (m.saveFlags x).Related Aliases (m'.saveFlags x) := by
  obtain ⟨address, rfl, h⟩ := h
  unfold Machine.saveFlags
  split <;> exact ⟨⟨address, rfl, h⟩, rfl⟩

theorem loadFlags (h : m.Aliases m') (x : Register) :
    (m.loadFlags x).Related Aliases (m'.loadFlags x) := by
  have hset := h.setFirst (m.flags.toList.take (x + 1))
  obtain ⟨address, rfl, h⟩ := h
  unfold Machine.loadFlags
  split
  · exact ⟨hset, rfl⟩
  · exact ⟨⟨address, rfl, h⟩, rfl⟩

theorem perform (h : m.Aliases m') (i : Instruction) :
    (m.perform i).Related Aliases (m'.perform i) := by
  have halias := h
  obtain ⟨address, rfl, h⟩ := h
  cases i with
  | exit => exact done_related (.refl m.unload)
  | ret => exact halias.ret
  | call target => exact halias.call target
  | or x y | and x y | xor x y => exact done_related (halias.logic _ x y)
  | skipEqual | skipNotEqual | skipSame | skipDifferent | skipPressed | skipNotPressed =>
    exact done_related (halias.skipIf _)
  | loadAddress | glyph | bigGlyph => exact done_related (halias.setAddress rfl)
  | addAddress x => exact done_related (halias.addAddress _)
  | draw x y height => exact done_related (halias.draw x y height)
  | readKey x => exact done_related (halias.readKey x)
  | decimal x => exact done_related (halias.writeAtAddress _)
  | saveRegisters x => exact done_related ((halias.writeAtAddress _).advanceAddress (x + 1))
  | loadRegisters x => exact done_related (halias.loadRegisters x)
  | saveFlags x => exact halias.saveFlags x
  | loadFlags x => exact halias.loadFlags x
  | _ => exact done_related ⟨address, rfl, h⟩

theorem execute (h : m.Aliases m') (opcode : UInt16) :
    (m.execute opcode).Related Aliases (m'.execute opcode) := by
  have hinstruction : m'.instruction? opcode = m.instruction? opcode := by
    obtain ⟨address, rfl, -⟩ := h
    rfl
  cases hi : m.instruction? opcode with
  | none =>
    rw [execute_of_eq_none hi, execute_of_eq_none (hinstruction.trans hi)]
    obtain ⟨address, rfl, h⟩ := h
    exact ⟨⟨address, rfl, h⟩, rfl⟩
  | some i =>
    rw [execute_of_eq_some hi, execute_of_eq_some (hinstruction.trans hi)]
    exact h.perform i

theorem playTone (h : m.Aliases m') : m.playTone.Aliases m'.playTone := by
  obtain ⟨address, rfl, h⟩ := h
  have hplay : (m.setAddress address).playTone = m.playTone.setAddress address := by
    unfold Machine.playTone
    rw [apply_ite (Machine.setAddress · address)]
    rfl
  have hregisters : m.playTone.registers = m.registers := by
    unfold Machine.playTone
    split <;> rfl
  exact ⟨address, hplay, hregisters ▸ h⟩

end Aliases

theorem bisimulation_aliases : Bisimulation Aliases where
  samePace := by
    rintro m _ ⟨address, rfl, -⟩
    exact ⟨rfl, rfl, rfl, rfl, rfl, rfl, rfl⟩
  mode := by
    rintro m _ mode previousMode ⟨address, rfl, h⟩
    exact ⟨address, rfl, h⟩
  fetched := by
    rintro m _ ⟨address, rfl, h⟩
    exact ⟨address, rfl, h⟩
  execute opcode h := h.execute opcode
  tick := by
    rintro m _ ⟨address, rfl, h⟩
    exact ⟨address, rfl, h⟩
  playTone h := h.playTone
  reset := by
    rintro m _ ⟨address, rfl, -⟩
    exact .refl m.reset
  cycleTime := by
    rintro m _ cycleTime ⟨address, rfl, h⟩
    exact ⟨address, rfl, h⟩
  timerTime := by
    rintro m _ timerTime ⟨address, rfl, h⟩
    exact ⟨address, rfl, h⟩
  updatedAt := by
    rintro m _ updatedAt ⟨address, rfl, h⟩
    exact ⟨address, rfl, h⟩

namespace Aliases

-- What is loaded starts from a register of its own.
theorem load (h : m.Aliases m') (program : List UInt8) :
    (m.orKeep (m.load program)).Related Aliases (m'.orKeep (m'.load program)) := by
  obtain ⟨address, rfl, h⟩ := h
  unfold Machine.load
  split
  · exact ⟨⟨address, rfl, h⟩, rfl⟩
  · exact ⟨.refl _, rfl⟩

theorem apply (h : m.Aliases m') (operation : Operation) :
    (m.apply operation).Related Aliases (m'.apply operation) := by
  have hb := bisimulation_aliases
  cases operation with
  | load program => exact h.load program
  | loadFile content =>
    cases content with
    | ok program => exact h.load program
    | error cause => exact ⟨h, rfl⟩
  | unload =>
    obtain ⟨address, rfl, -⟩ := h
    exact ⟨.refl m.unload, rfl⟩
  | reset => exact ⟨hb.reset h, rfl⟩
  | step => exact hb.step h
  | advance elapsed => exact hb.advance h elapsed
  | update now =>
    refine hb.update h ?_ now
    obtain ⟨address, rfl, -⟩ := h
    rfl
  | execute opcode => exact h.execute opcode
  | setMode mode => exact ⟨hb.setMode h mode, rfl⟩
  | pause => exact ⟨hb.pause h, rfl⟩
  | resume => exact ⟨hb.resume h, rfl⟩
  | control pressed => exact ⟨hb.control h pressed, rfl⟩
  | setInstructionSet | setDialect | setProcessor | setSound | setGraphics | setKey
  | setBreakpoints =>
    obtain ⟨address, rfl, h⟩ := h
    exact ⟨⟨address, rfl, h⟩, rfl⟩

theorem trace (h : m.Aliases m') (operations : List Operation) :
    List.Forall₂ (Outcome.Related Aliases) (m.trace operations) (m'.trace operations) := by
  induction operations generalizing m m' with
  | nil => exact .nil
  | cons operation rest ih => exact .cons (h.apply operation) (ih (h.apply operation).machine)

end Aliases

theorem length_storedBytes_le (m : Machine) (i : Instruction) :
    (m.storedBytes i).length ≤ 16 := by
  rw [length_storedBytes]
  cases i with
  | decimal x => exact Nat.le_of_ble_eq_true rfl
  | saveRegisters x => exact x.isLt
  | _ => exact Nat.zero_le _

theorem get_advanceAddress (m : Machine) (count : Nat) (k : Register) :
    (m.advanceAddress count).get k = m.get k := by
  unfold advanceAddress
  split <;> rfl

theorem wrapsAround (m : Machine) : m.WrapsAround where
  written i hi k hk := by
    have hlength := m.length_storedBytes_le i
    rw [memory_perform hi, Memory.byteAt_writeAll _ _ _ (by omega) hk]
  kept i hi n h := by
    rw [memory_perform hi, Memory.byteAt_writeAll_of_ne _ _ _ h]
  loaded x k := by
    rw [perform, machine_done, loadRegisters, get_advanceAddress, get_setFirst,
      Memory.getD_readMany]
    exact if_congr Nat.lt_succ_iff rfl rfl
  narrow position height h := by
    have hrows (count : Nat) :
        (m.memory.readMany m.registers.address count).map UInt8.toUInt16 =
          (List.range count).map fun r =>
            (m.memory.byteAt (m.registers.address.toNat + r)).toUInt16 := by
      rw [Memory.readMany_eq, List.map_map]
      rfl
    unfold spriteAt at h ⊢
    by_cases htall : height = 0 ∧ m.instructionSet = .superChip
    · rw [if_pos htall] at h ⊢
      split at h
      case isTrue hlow =>
        rw [if_pos hlow, if_pos htall]
        exact hrows 16
      case isFalse => cases h
    · rw [if_neg htall, if_neg htall]
      exact hrows height
  wide position height h := by
    unfold spriteAt at h ⊢
    by_cases htall : height = 0 ∧ m.instructionSet = .superChip
    · rw [if_pos htall] at h ⊢
      split at h
      case isTrue => cases h
      case isFalse hlow => rw [if_neg hlow, Memory.readWords_eq]
    · rw [if_neg htall] at h
      cases h

-- No instruction, and no run of operations, tells apart which of the addresses of a cell the
-- register holds. Nor is there an address whose byte is missing or lies outside of the memory.
theorem same_behaviour_of_aliases (h : m.Aliases m') :
    (∀ opcode, (m.execute opcode).Related Aliases (m'.execute opcode)) ∧
      (∀ operations, List.Forall₂ (Outcome.Related Aliases) (m.trace operations)
        (m'.trace operations)) ∧
      m.WrapsAround :=
  ⟨h.execute, h.trace, m.wrapsAround⟩

-- Two registers are stored across the last cell. One machine's address runs out of the memory,
-- the other one's wraps by itself.
theorem same_behaviour_at_last_cell :
    let m := (new (.standard 0)).setAddress 0x0FFF
    let m' := m.setAddress 0xFFFF
    let operations : List Operation := [.execute 0x6105, .execute 0xF155]
    m.Aliases m' ∧ (m.run operations).registers.address = 0x1001 ∧
      (m'.run operations).registers.address = 0x0001 ∧
      List.Forall₂ (Outcome.Related Aliases) (m.trace operations) (m'.trace operations) := by
  intro m m' operations
  have h : m.Aliases m' := ⟨0xFFFF, rfl, by decide⟩
  obtain ⟨-, htrace, -⟩ := same_behaviour_of_aliases h
  exact ⟨h, by decide, by decide, htrace operations⟩

end Chip8.Machine
