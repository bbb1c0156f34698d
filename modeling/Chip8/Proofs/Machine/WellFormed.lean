import Chip8.Proofs.Display.WellFormed
import Chip8.Proofs.Machine.Failure
import Chip8.Proofs.Machine.Stability

namespace Chip8

namespace Registers

-- The program counter and all that it can return to.
structure InRange (r : Registers) : Prop where
  pc_le : r.pc ≤ 0xFFF
  length_stack_le : r.stack.length ≤ 12
  stack_le : ∀ pc ∈ r.stack, pc ≤ 0xFFF

namespace InRange

variable {r : Registers}

theorem powerOn : Registers.powerOn.InRange :=
  ⟨by decide, by decide, fun _ h => absurd h List.not_mem_nil⟩

theorem jump (h : r.InRange) {pc : UInt16} (hpc : pc ≤ 0xFFF) : { r with pc }.InRange :=
  ⟨hpc, h.length_stack_le, h.stack_le⟩

theorem skipIf (h : r.InRange) (condition : Bool) : (r.skipIf condition).InRange := by
  unfold Registers.skipIf
  split
  · exact h.jump (following_le r.pc)
  · exact h

theorem call (h : r.InRange) {target : UInt16} (ht : target ≤ 0xFFF)
    (hs : r.stack.length < stackCapacity) :
    { r with pc := target, stack := r.pc :: r.stack }.InRange := by
  refine ⟨ht, hs, ?_⟩
  intro pc hmem
  rcases List.mem_cons.mp hmem with rfl | hmem
  · exact h.pc_le
  · exact h.stack_le pc hmem

theorem ret (h : r.InRange) {pc : UInt16} {stack : List UInt16} (hs : r.stack = pc :: stack) :
    { r with pc, stack }.InRange := by
  have hlength := h.length_stack_le
  have hmem := h.stack_le
  rw [hs] at hlength hmem
  refine ⟨hmem pc List.mem_cons_self, ?_, fun q hq => hmem q (List.mem_cons_of_mem pc hq)⟩
  exact Nat.le_of_succ_le hlength

-- Whatever leaves the program counter and the stack alone.
theorem congr (h : r.InRange) {r' : Registers} (hpc : r'.pc = r.pc) (hs : r'.stack = r.stack) :
    r'.InRange :=
  ⟨hpc ▸ h.pc_le, hs ▸ h.length_stack_le, hs ▸ h.stack_le⟩

end InRange

end Registers

-- Where an instruction goes it names an address of the address space.
def Instruction.InRange : Instruction → Prop
  | .jump target | .call target | .jumpOffset _ target => target ≤ 0xFFF
  | _ => True

theorem Opcode.inRange_of_decode {opcode : UInt16} {i : Instruction}
    (h : decode opcode = some i) : i.InRange := by
  unfold decode at h
  split at h
  case h_1 =>
    unfold decodeSystem at h
    split at h
    case h_8 =>
      split at h
      case isTrue =>
        cases h
        exact trivial
      case isFalse => cases h
    all_goals
      cases h
      exact trivial
  case h_2 | h_3 | h_12 =>
    cases h
    exact address_le opcode
  case h_9 =>
    unfold decodeArithmetic at h
    split at h <;> cases h <;> exact trivial
  case h_15 =>
    unfold decodeKeySkip at h
    split at h <;> cases h <;> exact trivial
  case h_16 =>
    unfold decodeTransfer at h
    split at h <;> cases h <;> exact trivial
  all_goals
    cases h
    exact trivial

namespace Machine

-- Addresses lie in the address space, the program in the memory and the awaited key on the keypad.
structure WellFormed (m : Machine) : Prop where
  registers : m.registers.InRange
  programSize_le : m.programSize ≤ 3584
  awaited_lt : ∀ number ∈ m.awaited, number < 16
  display : m.display.WellFormed
  cycleTime_lt : m.cycleTime < 1000000000
  timerTime_lt : m.timerTime < tickPeriod

namespace WellFormed

variable {m : Machine}

theorem withRegisters (h : m.WellFormed) {r : Registers} (hr : r.InRange) :
    { m with registers := r }.WellFormed :=
  { h with registers := hr }

theorem showOn (h : m.WellFormed) {d : Display} (hd : d.WellFormed) : (m.showOn d).WellFormed :=
  { h with display := hd }

theorem jump (h : m.WellFormed) {pc : UInt16} (hpc : pc ≤ 0xFFF) : (m.jump pc).WellFormed :=
  h.withRegisters (h.registers.jump hpc)

theorem skipIf (h : m.WellFormed) (condition : Bool) : (m.skipIf condition).WellFormed :=
  h.withRegisters (h.registers.skipIf condition)

theorem setRegister (h : m.WellFormed) (x : Register) (value : UInt8) :
    (m.setRegister x value).WellFormed :=
  h.withRegisters (h.registers.congr rfl rfl)

theorem setWithFlag (h : m.WellFormed) (x : Register) (value : UInt8) (raised : Bool) :
    (m.setWithFlag x value raised).WellFormed :=
  h.withRegisters (h.registers.congr rfl rfl)

theorem setAddress (h : m.WellFormed) (address : UInt16) : (m.setAddress address).WellFormed :=
  h.withRegisters (h.registers.congr rfl rfl)

theorem setFirst (h : m.WellFormed) (values : List UInt8) : (m.setFirst values).WellFormed :=
  h.withRegisters (h.registers.congr rfl rfl)

theorem writeAtAddress (h : m.WellFormed) (bytes : List UInt8) :
    (m.writeAtAddress bytes).WellFormed :=
  { h with }

theorem advanceAddress (h : m.WellFormed) (count : Nat) : (m.advanceAddress count).WellFormed := by
  unfold Machine.advanceAddress
  split
  · exact h.setAddress _
  · exact h

theorem logic (h : m.WellFormed) (f : UInt8 → UInt8 → UInt8) (x y : Register) :
    (m.logic f x y).WellFormed := by
  unfold Machine.logic
  split
  · exact (h.setRegister Registers.flag 0).setRegister x _
  · exact h.setRegister x _

-- The wait is for a key that was held.
theorem readKey (h : m.WellFormed) (x : Register) : (m.readKey x).WellFormed := by
  have hagain : (m.jump (Registers.preceding m.registers.pc)).WellFormed :=
    h.jump (Registers.preceding_le m.registers.pc)
  unfold Machine.readKey
  split
  · refine { hagain with awaited_lt := ?_ }
    intro number hnumber
    obtain ⟨key, -, rfl⟩ := Option.map_eq_some_iff.mp hnumber
    have hkey := key.isLt
    rw [UInt8.lt_iff_toNat_lt, UInt8.toNat_ofNat_of_lt' (by simp only [UInt8.size]; omega)]
    exact hkey
  · split
    · exact hagain
    · exact { h.setRegister x _ with awaited_lt := fun _ hn => nomatch hn }

theorem draw (h : m.WellFormed) (x y : Register) (height : Fin 16) :
    (m.draw x y height).WellFormed :=
  (h.setRegister Registers.flag _).showOn (h.display.draw _)

theorem call (h : m.WellFormed) {target : UInt16} (ht : target ≤ 0xFFF) :
    (m.call target).machine.WellFormed := by
  unfold Machine.call
  split
  case isTrue => exact h
  case isFalse hs => exact h.withRegisters (h.registers.call ht (Nat.lt_of_not_le hs))

theorem ret (h : m.WellFormed) : m.ret.machine.WellFormed := by
  unfold Machine.ret
  split
  case h_1 => exact h
  case h_2 pc stack hs => exact h.withRegisters (h.registers.ret hs)

theorem saveFlags (h : m.WellFormed) (x : Register) : (m.saveFlags x).machine.WellFormed := by
  unfold Machine.saveFlags
  split
  · exact { h with }
  · exact h

theorem loadFlags (h : m.WellFormed) (x : Register) : (m.loadFlags x).machine.WellFormed := by
  unfold Machine.loadFlags
  split
  · exact h.setFirst _
  · exact h

theorem setResolution (h : m.WellFormed) (resolution : Resolution) :
    (m.showOn (m.display.setResolution resolution)).WellFormed :=
  h.showOn (Display.wellFormed_setResolution h.display.fading_eq_empty resolution)

theorem setMode (h : m.WellFormed) (mode : Mode) : (m.setMode mode).WellFormed := by
  rw [setMode_eq]
  exact { h with }

theorem reset (h : m.WellFormed) : m.reset.WellFormed where
  registers := Registers.InRange.powerOn
  programSize_le := h.programSize_le
  awaited_lt := fun _ hn => nomatch hn
  display := (Display.wellFormed_setResolution h.display.fading_eq_empty .low).clear
  cycleTime_lt := zero_lt_second
  timerTime_lt := zero_lt_tickPeriod

theorem withProgram (h : m.WellFormed) (memory : Memory) {size : Nat} (hs : size ≤ 3584) :
    { m with memory, programSize := size }.WellFormed :=
  { h with programSize_le := hs }

theorem unload (h : m.WellFormed) : m.unload.WellFormed :=
  (h.withProgram (m.memory.install []) (Nat.zero_le 3584)).reset.setMode .empty

theorem perform (h : m.WellFormed) {i : Instruction} (hi : i.InRange) :
    (m.perform i).machine.WellFormed := by
  cases i with
  | clearScreen => exact h.showOn h.display.clear
  | ret => exact h.ret
  | jump target => exact h.jump hi
  | call target => exact h.call hi
  | skipEqual _ _ | skipNotEqual _ _ | skipSame _ _ | skipDifferent _ _ | skipPressed _
  | skipNotPressed _ => exact h.skipIf _
  | loadByte _ _ | addByte _ _ | copy _ _ | readDelay _ => exact h.setRegister _ _
  | or x y | and x y | xor x y => exact h.logic _ x y
  | add _ _ | sub _ _ | shiftRight _ _ | subFrom _ _ | shiftLeft _ _ =>
    exact h.setWithFlag _ _ _
  | loadAddress _ | addAddress _ | glyph _ | bigGlyph _ => exact h.setAddress _
  | jumpOffset x base => exact h.jump (Registers.and_mask_le _)
  | random x mask => exact { h.setRegister x _ with }
  | draw x y height => exact h.draw x y height
  | readKey x => exact h.readKey x
  | setDelay _ | setSound _ => exact h.withRegisters (h.registers.congr rfl rfl)
  | decimal _ => exact h.writeAtAddress _
  | saveRegisters x => exact (h.writeAtAddress _).advanceAddress _
  | loadRegisters x => exact (h.setFirst _).advanceAddress _
  | highResolution => exact h.setResolution .high
  | lowResolution => exact h.setResolution .low
  | scrollDown distance => exact h.showOn (h.display.scroll .down distance)
  | scrollRight => exact h.showOn (h.display.scroll .right 4)
  | scrollLeft => exact h.showOn (h.display.scroll .left 4)
  | saveFlags x => exact h.saveFlags x
  | loadFlags x => exact h.loadFlags x
  | exit => exact h.unload

theorem execute (h : m.WellFormed) (opcode : UInt16) : (m.execute opcode).machine.WellFormed := by
  cases hi : m.instruction? opcode with
  | none =>
    rw [execute_of_eq_none hi]
    exact h
  | some i =>
    rw [execute_of_eq_some hi]
    exact h.perform (Opcode.inRange_of_decode ((m.instruction?_eq_some_iff opcode i).mp hi).1)

theorem fetched (h : m.WellFormed) : m.fetched.WellFormed :=
  h.jump (Registers.following_le m.registers.pc)

theorem step (h : m.WellFormed) : m.step.machine.WellFormed := by
  by_cases hmode : m.mode = .empty
  · rw [Machine.step, if_pos hmode]
    exact h
  · obtain ⟨mode, previousMode, hstep⟩ := machine_step_eq hmode
    rw [hstep]
    exact { h.fetched.execute m.nextOpcode with }

theorem tick (h : m.WellFormed) : m.tick.WellFormed :=
  { h with registers := h.registers.congr rfl rfl, display := h.display.animate }

theorem playTone (h : m.WellFormed) : m.playTone.WellFormed := by
  unfold Machine.playTone
  split
  · exact { h with }
  · exact h

theorem stable : Stable WellFormed where
  mode _ _ h := { h with }
  step h := h.step
  tick h := h.tick
  playTone h := h.playTone
  reset h := h.reset
  cycleTime hlt h := { h with cycleTime_lt := hlt }
  timerTime hlt h := { h with timerTime_lt := hlt }
  updatedAt _ h := { h with }

theorem load (h : m.WellFormed) (program : List UInt8) :
    (m.orKeep (m.load program)).machine.WellFormed := by
  unfold Machine.load
  split
  case isTrue => exact h
  case isFalse hfits =>
    exact (h.withProgram (m.memory.install program) (Nat.le_of_not_lt hfits)).reset

theorem loadFile (h : m.WellFormed) (content : Except Files.Error (List UInt8)) :
    (m.orKeep (m.loadFile content)).machine.WellFormed := by
  cases content with
  | ok program => exact h.load program
  | error cause => exact h

theorem setGraphics (h : m.WellFormed) (graphics : Graphics) :
    (m.setGraphics graphics).WellFormed :=
  { h with display := h.display.setGraphics _ }

theorem apply (h : m.WellFormed) (operation : Operation) :
    (m.apply operation).machine.WellFormed := by
  cases operation with
  | load program => exact h.load program
  | loadFile content => exact h.loadFile content
  | unload => exact h.unload
  | reset => exact h.reset
  | step => exact h.step
  | advance elapsed => exact stable.advance h elapsed
  | update now => exact stable.update h now
  | execute opcode => exact h.execute opcode
  | setMode mode => exact h.setMode mode
  | pause => exact stable.pause h
  | resume => exact stable.resume h
  | setInstructionSet _ | setProcessor _ | setSound _ | setKey _ _ | setBreakpoints _ =>
    exact { h with }
  | setDialect dialect =>
    exact { h with display := h.display.setEdges dialect.horizontal dialect.vertical }
  | setGraphics graphics => exact h.setGraphics graphics
  | control pressed => exact stable.control h pressed

theorem run (h : m.WellFormed) (operations : List Operation) : (m.run operations).WellFormed :=
  List.foldlRecOn (motive := WellFormed) operations _ h (fun _ hm operation _ => hm.apply operation)

end WellFormed

theorem wellFormed_new (config : Config) : (new config).WellFormed where
  registers := Registers.InRange.powerOn
  programSize_le := Nat.zero_le 3584
  awaited_lt := fun _ hn => nomatch hn
  display := Display.wellFormed_new config.display
  cycleTime_lt := zero_lt_second
  timerTime_lt := zero_lt_tickPeriod

end Machine

end Chip8
