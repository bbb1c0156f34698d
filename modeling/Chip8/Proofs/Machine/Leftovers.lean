import Mathlib.Data.List.GetD
import Chip8.Proofs.Machine.Executions
import Chip8.Proofs.Memory

namespace Chip8

namespace Memory

-- The glyphs, zeros up to the program start, and a program.
def image (program : List UInt8) : List UInt8 :=
  font ++ List.replicate (programStart - font.length) 0 ++ program

-- How the memory that a program finds compares with a fresh one, given the memory before it and
-- the cells that were stored to. From the program start on nothing has stayed, below all has.
structure Cleared (before now fresh : Memory) (stored : List (Fin 4096)) : Prop where
  above : ∀ a, programStart ≤ (index a).val → now.read a = fresh.read a
  below : ∀ a, (index a).val < programStart → now.read a = before.read a
  untouched : ∀ a, index a ∉ stored → now.read a = fresh.read a

theorem Cleared.eq_of_above {before now fresh : Memory} {stored : List (Fin 4096)}
    (h : Cleared before now fresh stored) (ha : ∀ k ∈ stored, programStart ≤ k.val) :
    now = fresh := by
  refine ext_read fun a => ?_
  by_cases hmem : index a ∈ stored
  · exact h.above a (ha _ hmem)
  · exact h.untouched a hmem

theorem length_glyphs :
    (font ++ List.replicate (programStart - font.length) (0 : UInt8)).length = programStart := by
  rw [List.length_append, List.length_replicate, length_font]
  rfl

-- Zeros follow an image.
theorem read_install_powerOn (program : List UInt8) (a : UInt16) :
    (powerOn.install program).read a = (image program).getD (index a).val 0 := by
  by_cases h : (index a).val < programStart
  · rw [read_install_of_lt _ _ h, read_powerOn, image,
      List.getD_append _ _ _ _ (by rwa [length_glyphs])]
    by_cases hfont : (index a).val < font.length
    · rw [List.getD_append _ _ _ _ hfont]
    · have hle : font.length ≤ (index a).val := Nat.le_of_not_lt hfont
      rw [List.getD_append_right _ _ _ _ hle, List.getD_replicate 0 (by omega),
        List.getD_eq_default _ _ hle]
  · have hle : programStart ≤ (index a).val := Nat.le_of_not_lt h
    rw [read_install_of_le _ _ hle, image,
      List.getD_append_right _ _ _ _ (by rwa [length_glyphs]), length_glyphs]

theorem install_nil_powerOn : powerOn.install [] = powerOn := by
  refine ext_read fun a => ?_
  by_cases h : (index a).val < programStart
  · exact read_install_of_lt _ _ h
  · have hfont : font.length ≤ (index a).val := by
      rw [length_font]
      exact Nat.le_trans (by decide) (Nat.le_of_not_lt h)
    rw [read_install_of_le _ _ (Nat.le_of_not_lt h), read_powerOn, List.getD_eq_default _ _ hfont]
    rfl

theorem cleared_install {before : Memory} (program : List UInt8) {stored : List (Fin 4096)}
    (h : ∀ a, (index a).val < programStart → index a ∉ stored → before.read a = powerOn.read a) :
    Cleared before (before.install program) (powerOn.install program) stored where
  above a ha := by rw [read_install_of_le _ _ ha, read_install_of_le _ _ ha]
  below a ha := read_install_of_lt _ _ ha
  untouched a hstored := by
    by_cases ha : (index a).val < programStart
    · rw [read_install_of_lt _ _ ha, read_install_of_lt _ _ ha, h a ha hstored]
    · have hle : programStart ≤ (index a).val := Nat.le_of_not_lt ha
      rw [read_install_of_le _ _ hle, read_install_of_le _ _ hle]

end Memory

-- The cells that an instruction writes, given the address register.
def Instruction.stores (address : UInt16) : Instruction → List (Fin 4096)
  | .decimal _ => Memory.cells address 3
  | .saveRegisters x => Memory.cells address (x + 1)
  | _ => []

-- The cells that were written. A failing opcode writes none.
def Execution.stores (e : Execution) : List (Fin 4096) :=
  (e.machine.instruction? e.opcode).elim [] (Instruction.stores e.machine.registers.address)

namespace Machine

-- The cells that a run stored to.
def stored (m : Machine) (operations : List Operation) : List (Fin 4096) :=
  (m.history operations).flatMap Execution.stores

variable {m : Machine} {a : UInt16}

theorem memory_setMode (mode : Mode) : (m.setMode mode).memory = m.memory := by
  rw [setMode_eq]

theorem memory_pass (elapsed : Nat) : (m.passTime elapsed).playTone.memory = m.memory := by
  obtain ⟨registers, display, beeper, timerTime, h⟩ := m.passTime_playTone_eq elapsed
  rw [h]

theorem read_orKeep {result : Except Fault Machine}
    (h : ∀ after, result = .ok after → after.memory.read a = m.memory.read a) :
    (m.orKeep result).machine.memory.read a = m.memory.read a := by
  cases result with
  | ok after => exact h after rfl
  | error fault => rfl

theorem stores_eq (m : Machine) (i : Instruction) : i.stores m.registers.address =
    Memory.cells m.registers.address (m.storedBytes i).length := by
  rw [length_storedBytes]
  cases i <;> rfl

section

variable (ha : (Memory.index a).val < Memory.programStart)

include ha

theorem read_unload : m.unload.memory.read a = m.memory.read a := by
  rw [unload, memory_setMode]
  exact m.memory.read_install_of_lt [] ha

theorem read_load {program : List UInt8} {loaded : Machine} (h : m.load program = .ok loaded) :
    loaded.memory.read a = m.memory.read a := by
  unfold load at h
  split at h
  · cases h
  · cases h
    exact m.memory.read_install_of_lt program ha

theorem read_perform {i : Instruction}
    (h : Memory.index a ∉ i.stores m.registers.address) :
    (m.perform i).machine.memory.read a = m.memory.read a := by
  by_cases hi : i = .exit
  · rw [hi]
    exact read_unload ha
  · rw [stores_eq] at h
    rw [memory_perform hi]
    exact m.memory.read_writeAll_of_not_mem _ a _ h

theorem read_execute {opcode : UInt16} (h : Memory.index a ∉ (Execution.mk m opcode).stores) :
    (m.execute opcode).machine.memory.read a = m.memory.read a := by
  simp only [Execution.stores] at h
  cases hi : m.instruction? opcode with
  | none => rw [execute_of_eq_none hi, machine_fail]
  | some i =>
    rw [hi] at h
    rw [execute_of_eq_some hi]
    exact read_perform ha h

theorem read_step (h : ∀ e ∈ m.stepExecutions, Memory.index a ∉ e.stores) :
    m.step.machine.memory.read a = m.memory.read a := by
  by_cases hm : m.mode = .empty
  · rw [step, if_pos hm, machine_done]
  · rw [stepExecutions, if_neg hm, List.forall_mem_singleton] at h
    obtain ⟨mode, previousMode, hstep⟩ := machine_step_eq hm
    rw [hstep]
    exact read_execute ha h

theorem joined_read : Joined fun m executions after =>
    (∀ e ∈ executions, Memory.index a ∉ e.stores) →
      after.memory.read a = m.memory.read a where
  mode _ _ _ _ := rfl
  step _ h := read_step ha h
  trans hfirst hsecond h := by
    rw [List.forall_mem_append] at h
    rw [hsecond h.2, hfirst h.1]

theorem read_advance {elapsed : Nat}
    (h : ∀ e ∈ m.advanceExecutions elapsed, Memory.index a ∉ e.stores) :
    (m.advance elapsed).machine.memory.read a = m.memory.read a :=
  (joined_read ha).advance (fun _ _ _ => rfl)
    (fun m elapsed _ => congrArg (·.read a) (m.memory_pass elapsed)) m elapsed h

theorem read_control {pressed : List HostKey}
    (h : ∀ e ∈ m.controlExecutions pressed, Memory.index a ∉ e.stores) :
    (m.control pressed).memory.read a = m.memory.read a := by
  obtain ⟨after, hafter, hcontrol⟩ := (joined_read ha).control m pressed
  rw [hcontrol]
  split
  · exact hafter h
  · exact hafter h

theorem read_apply {operation : Operation}
    (h : ∀ e ∈ m.executions operation, Memory.index a ∉ e.stores) :
    (m.apply operation).machine.memory.read a = m.memory.read a := by
  cases operation with
  | load program => exact read_orKeep fun _ => read_load ha
  | loadFile content =>
    refine read_orKeep fun after hafter => ?_
    cases content with
    | ok program => exact read_load ha hafter
    | error cause => cases hafter
  | unload => exact read_unload ha
  | step => exact read_step ha h
  | advance elapsed => exact read_advance ha h
  | update now => exact read_advance (m := { m with updatedAt := some now }) ha h
  | execute opcode => exact read_execute ha (h _ (List.mem_singleton_self _))
  | control pressed => exact read_control ha h
  | setMode mode => exact (joined_read ha).setMode m mode h
  | pause => exact (joined_read ha).pause m h
  | resume => exact (joined_read ha).resume m h
  | _ => rfl

theorem read_run {operations : List Operation}
    (h : ∀ e ∈ m.history operations, Memory.index a ∉ e.stores) :
    (m.run operations).memory.read a = m.memory.read a := by
  induction operations generalizing m with
  | nil => rfl
  | cons operation rest ih =>
    rw [history, List.forall_mem_append] at h
    have hrun : m.run (operation :: rest) = (m.apply operation).machine.run rest := rfl
    rw [hrun, ih h.2, read_apply ha h.1]

end

theorem load_eq_ok {program : List UInt8} (h : program.length ≤ Memory.programCapacity)
    (m : Machine) : ∃ loaded, m.load program = .ok loaded ∧
      loaded.memory = m.memory.install program :=
  ⟨_, if_neg (Nat.not_lt.mpr h), rfl⟩

theorem memory_unload : m.unload.memory = m.memory.install [] := by rw [unload_eq]

theorem read_run_of_not_mem_stored {operations : List Operation}
    (ha : (Memory.index a).val < Memory.programStart) (h : Memory.index a ∉ m.stored operations) :
    (m.run operations).memory.read a = m.memory.read a := by
  refine read_run ha fun e he hmem => h ?_
  exact List.mem_flatMap.mpr ⟨e, he, hmem⟩

-- Whatever ran before, a loaded program finds all from 0x200 on as a fresh machine has it. What
-- earlier programs stored below is still there.
theorem memory_of_load_after_run (config : Config) (operations : List Operation)
    {program : List UInt8} (h : program.length ≤ Memory.programCapacity) :
    let m := (new config).run operations
    ∃ loaded fresh, m.load program = .ok loaded ∧ (new config).load program = .ok fresh ∧
      (∀ a, fresh.memory.read a = (Memory.image program).getD (Memory.index a).val 0) ∧
      Memory.Cleared m.memory loaded.memory fresh.memory ((new config).stored operations) ∧
      Memory.Cleared m.memory m.unload.memory (new config).memory
        ((new config).stored operations) := by
  intro m
  obtain ⟨loaded, hloaded, hmemory⟩ := load_eq_ok h m
  obtain ⟨fresh, hfresh, hfreshMemory⟩ := load_eq_ok h (new config)
  have hcleared (program : List UInt8) : Memory.Cleared m.memory (m.memory.install program)
      (Memory.powerOn.install program) ((new config).stored operations) :=
    Memory.cleared_install program fun a ha hstored => read_run_of_not_mem_stored ha hstored
  refine ⟨loaded, fresh, hloaded, hfresh, fun a => ?_, ?_, ?_⟩
  · rw [hfreshMemory]
    exact Memory.read_install_powerOn program a
  · rw [hmemory, hfreshMemory]
    exact hcleared program
  · have hempty := hcleared []
    rwa [Memory.install_nil_powerOn, ← memory_unload] at hempty

-- A program that stores only to its own part of memory leaves nothing behind.
theorem digits_cleared_from_program :
    let stores : List Operation := [.execute 0xA300, .execute 0xF033]
    let m := (new (.standard 0)).run stores
    ([0x12, 0x00] : List UInt8).length ≤ Memory.programCapacity ∧
      (new (.standard 0)).stored stores = [0x300, 0x301, 0x302] ∧
      ∃ loaded fresh, m.load [0x12, 0x00] = .ok loaded ∧
        (new (.standard 0)).load [0x12, 0x00] = .ok fresh ∧ loaded.memory = fresh.memory ∧
        m.unload.memory = (new (.standard 0)).memory := by
  intro stores m
  have h : ([0x12, 0x00] : List UInt8).length ≤ Memory.programCapacity := by decide
  have hstored : (new (.standard 0)).stored stores = [0x300, 0x301, 0x302] := by decide
  have habove : ∀ k ∈ (new (.standard 0)).stored stores, Memory.programStart ≤ k.val := by
    rw [hstored]
    simp only [List.forall_mem_cons, List.not_mem_nil, false_implies, implies_true, and_true]
    decide
  obtain ⟨loaded, fresh, hloaded, hfresh, -, hload, hunload⟩ :=
    memory_of_load_after_run (.standard 0) stores h
  exact ⟨h, hstored, loaded, fresh, hloaded, hfresh, hload.eq_of_above habove,
    hunload.eq_of_above habove⟩

-- A program that stores the digits of V0 over the first glyph.
theorem glyph_lost_to_program :
    let m := (new (.standard 0)).run [.execute 0xA000, .execute 0xF033]
    ∃ loaded fresh, m.load [] = .ok loaded ∧ (new (.standard 0)).load [] = .ok fresh ∧
      loaded.memory.read 0 = 0x00 ∧ fresh.memory.read 0 = 0xF0 ∧
      m.unload.memory.read 0 = 0x00 ∧ (new (.standard 0)).memory.read 0 = 0xF0 := by
  intro m
  let start := new (.standard 0)
  have hlow : (Memory.index 0).val < Memory.programStart := by decide
  have hm : m.memory.read 0 = 0 := by
    have hfirst : (start.execute 0xA000).machine = start.setAddress 0 :=
      congrArg Outcome.machine (execute_of_eq_some (i := .loadAddress 0) (by decide))
    have hsecond : ((start.setAddress 0).execute 0xF033).machine =
        (start.setAddress 0).writeAtAddress (decimalDigits ((start.setAddress 0).get 0)) :=
      congrArg Outcome.machine (execute_of_eq_some (i := .decimal 0) (by decide))
    have hdigits : decimalDigits ((start.setAddress 0).get 0) = [0, 0, 0] := by decide
    have hrun : m = ((start.execute 0xA000).machine.execute 0xF033).machine := rfl
    rw [hrun, hfirst, hsecond, hdigits]
    exact (Memory.read_writeAll_of_not_mem _ 1 0 [0, 0] (by decide)).trans
      (start.memory.read_write_same 0 0)
  have hstart : start.memory.read 0 = 0xF0 := Memory.read_powerOn 0
  have hfits : ([] : List UInt8).length ≤ Memory.programCapacity := Nat.zero_le _
  obtain ⟨loaded, hloaded, -⟩ := load_eq_ok hfits m
  obtain ⟨fresh, hfresh, -⟩ := load_eq_ok hfits start
  exact ⟨loaded, fresh, hloaded, hfresh, (read_load hlow hloaded).trans hm,
    (read_load hlow hfresh).trans hstart, (read_unload hlow).trans hm, hstart⟩

end Machine

end Chip8
