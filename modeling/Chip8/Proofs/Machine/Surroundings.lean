import Chip8.Display.Lemmas
import Chip8.Proofs.Machine.Failure

namespace Chip8

-- How many bytes an instruction writes at the address register.
def Instruction.storedCount : Instruction → Nat
  | .decimal _ => 3
  | .saveRegisters x => x + 1
  | _ => 0

namespace Machine

-- What a program reaches of one machine, put where the other one is. Of all instructions only
-- `00FD` reaches beyond that.
def within (m s : Machine) : Machine :=
  { m with
    programSize := s.programSize
    beeper := s.beeper
    breakpoints := s.breakpoints
    mode := s.mode
    previousMode := s.previousMode
    cycleTime := s.cycleTime
    timerTime := s.timerTime
    updatedAt := s.updatedAt }

end Machine

def Outcome.within (o : Outcome) (s : Machine) : Outcome :=
  { o with machine := o.machine.within s }

namespace Machine

variable (m s : Machine)

theorem call_within (target : UInt16) :
    (m.within s).call target = (m.call target).within s := by
  unfold call
  rw [apply_ite (Outcome.within · s)]
  rfl

theorem ret_within : (m.within s).ret = m.ret.within s := by
  have hstack : (m.within s).registers.stack = m.registers.stack := rfl
  unfold ret
  rw [hstack]
  cases m.registers.stack <;> rfl

theorem logic_within (f : UInt8 → UInt8 → UInt8) (x y : Register) :
    (m.within s).logic f x y = (m.logic f x y).within s := by
  have hdialect : (m.within s).config.dialect = m.config.dialect := rfl
  unfold logic
  rw [hdialect]
  split <;> rfl

theorem readKey_within (x : Register) : (m.within s).readKey x = (m.readKey x).within s := by
  have hawaited : (m.within s).awaited = m.awaited := rfl
  unfold readKey
  rw [hawaited]
  cases m.awaited with
  | none => rfl
  | some number =>
    simp only
    rw [apply_ite (within · s)]
    rfl

theorem advanceAddress_within (count : Nat) :
    (m.within s).advanceAddress count = (m.advanceAddress count).within s := by
  unfold advanceAddress
  rw [apply_ite (within · s)]
  rfl

theorem saveRegisters_within (x : Register) :
    (m.within s).saveRegisters x = (m.saveRegisters x).within s :=
  advanceAddress_within (m.writeAtAddress (m.firstRegisters x)) s (x + 1)

theorem loadRegisters_within (x : Register) :
    (m.within s).loadRegisters x = (m.loadRegisters x).within s :=
  advanceAddress_within (m.setFirst (m.memory.readMany m.registers.address (x + 1))) s (x + 1)

theorem saveFlags_within (x : Register) :
    (m.within s).saveFlags x = (m.saveFlags x).within s := by
  unfold saveFlags
  rw [apply_ite (Outcome.within · s)]
  rfl

theorem loadFlags_within (x : Register) :
    (m.within s).loadFlags x = (m.loadFlags x).within s := by
  unfold loadFlags
  rw [apply_ite (Outcome.within · s)]
  rfl

theorem perform_within {i : Instruction} (hi : i ≠ .exit) :
    (m.within s).perform i = (m.perform i).within s := by
  cases i with
  | exit => exact absurd rfl hi
  | ret => exact m.ret_within s
  | call target => exact m.call_within s target
  | or x y | and x y | xor x y => exact congrArg done (m.logic_within s _ x y)
  | readKey x => exact congrArg done (m.readKey_within s x)
  | saveRegisters x => exact congrArg done (m.saveRegisters_within s x)
  | loadRegisters x => exact congrArg done (m.loadRegisters_within s x)
  | saveFlags x => exact m.saveFlags_within s x
  | loadFlags x => exact m.loadFlags_within s x
  | _ => rfl

theorem execute_within {opcode : UInt16} (h : m.instruction? opcode ≠ some .exit) :
    (m.within s).execute opcode = (m.execute opcode).within s := by
  have hinstruction : (m.within s).instruction? opcode = m.instruction? opcode := rfl
  cases hi : m.instruction? opcode with
  | none =>
    rw [execute_of_eq_none hi, execute_of_eq_none (hinstruction.trans hi)]
    rfl
  | some i =>
    rw [execute_of_eq_some hi, execute_of_eq_some (hinstruction.trans hi)]
    exact m.perform_within s fun hexit => h (hi.trans (congrArg some hexit))

-- The word that the next step executes.
def nextOpcode : UInt16 := m.memory.readWord m.registers.pc

variable {m}

theorem step_of_fault_eq_none (hm : m.mode ≠ .empty)
    (h : (m.fetched.execute m.nextOpcode).fault = none) :
    m.step = m.fetched.execute m.nextOpcode := by
  rw [nextOpcode] at h ⊢
  rw [step_eq_of_ne_empty hm]
  simp only [h]

theorem step_of_fault_eq_some (hm : m.mode ≠ .empty) {fault : Fault}
    (h : (m.fetched.execute m.nextOpcode).fault = some fault) :
    m.step = (m.fetched.setMode .paused).fail fault := by
  have hmachine := machine_execute_of_fault h
  rw [nextOpcode] at h hmachine
  rw [step_eq_of_ne_empty hm]
  simp only [h, hmachine]

-- But for the mode a step leaves what its instruction left, also where that failed.
theorem machine_step_eq (hm : m.mode ≠ .empty) :
    ∃ mode previousMode, m.step.machine =
      { (m.fetched.execute m.nextOpcode).machine with mode, previousMode } := by
  cases hfault : (m.fetched.execute m.nextOpcode).fault with
  | none =>
    rw [step_of_fault_eq_none hm hfault]
    exact ⟨_, _, rfl⟩
  | some fault =>
    rw [step_of_fault_eq_some hm hfault, machine_execute_of_fault hfault, machine_fail,
      setMode_eq]
    exact ⟨_, _, rfl⟩

variable (m)

-- A step ends in one of three ways, the same one in any surroundings with a program.
theorem step_within_cases :
    (∃ fault, ∀ s : Machine, s.mode ≠ .empty →
      (m.within s).step = ((m.fetched.within s).setMode .paused).fail fault) ∨
    (∀ s : Machine, s.mode ≠ .empty → (m.within s).step = (m.fetched.within s).unload.done) ∨
    ∃ after : Machine, ∀ s : Machine, s.mode ≠ .empty →
      (m.within s).step = (after.within s).done := by
  by_cases hexit : m.fetched.instruction? m.nextOpcode = some .exit
  · refine .inr (.inl fun s hs => ?_)
    have hexecute : (m.within s).fetched.execute (m.within s).nextOpcode =
        (m.fetched.within s).unload.done := execute_of_eq_some (m := m.fetched.within s) hexit
    rw [step_of_fault_eq_none (m := m.within s) hs (congrArg Outcome.fault hexecute), hexecute]
  · have hexecute (s : Machine) : (m.within s).fetched.execute (m.within s).nextOpcode =
        (m.fetched.execute m.nextOpcode).within s := m.fetched.execute_within s hexit
    have hfault (s : Machine) : ((m.within s).fetched.execute (m.within s).nextOpcode).fault =
        (m.fetched.execute m.nextOpcode).fault := by
      rw [hexecute s]
      rfl
    cases h : (m.fetched.execute m.nextOpcode).fault with
    | some fault =>
      exact .inl ⟨fault, fun s hs =>
        step_of_fault_eq_some (m := m.within s) hs ((hfault s).trans h)⟩
    | none =>
      refine .inr (.inr ⟨(m.fetched.execute m.nextOpcode).machine, fun s hs => ?_⟩)
      rw [step_of_fault_eq_none (m := m.within s) hs ((hfault s).trans h), hexecute s,
        Outcome.within, h]
      rfl

variable {m}

theorem step_cases (hm : m.mode ≠ .empty) :
    (∃ fault, m.step = (m.fetched.setMode .paused).fail fault) ∨ m.step = m.fetched.unload.done ∨
      ∃ after : Machine, m.step = (after.within m).done := by
  rcases m.step_within_cases with ⟨fault, h⟩ | h | ⟨after, h⟩
  · exact .inl ⟨fault, h m hm⟩
  · exact .inr (.inl (h m hm))
  · exact .inr (.inr ⟨after, h m hm⟩)

-- A step empties the machine or leaves its clock alone.
theorem surroundings_step (m : Machine) :
    m.step.machine.breakpoints = m.breakpoints ∧
      (m.step.machine.mode = .empty ∧ m.step.machine.timerTime = 0 ∨
        (m.step.machine.mode = m.mode ∨ m.step.machine.mode = .paused) ∧
          m.step.machine.timerTime = m.timerTime) := by
  by_cases hm : m.mode = .empty
  · rw [step, if_pos hm, machine_done]
    exact ⟨rfl, .inr ⟨.inl rfl, rfl⟩⟩
  · rcases step_cases hm with ⟨fault, h⟩ | h | ⟨after, h⟩
    · rw [h, machine_fail, setMode_eq]
      exact ⟨rfl, .inr ⟨.inr rfl, rfl⟩⟩
    · rw [h, machine_done, unload, setMode_eq]
      exact ⟨rfl, .inl ⟨rfl, rfl⟩⟩
    · rw [h]
      exact ⟨rfl, .inr ⟨.inl rfl, rfl⟩⟩

theorem pause_eq (m : Machine) : ∃ mode previousMode, m.pause = { m with mode, previousMode } := by
  unfold pause
  split
  · exact ⟨_, _, m.setMode_eq .paused⟩
  · exact ⟨_, _, m.setMode_eq .paused⟩
  · exact ⟨m.mode, m.previousMode, rfl⟩

theorem resume_eq (m : Machine) :
    ∃ mode previousMode, m.resume = { m with mode, previousMode } := by
  unfold resume
  split
  · exact ⟨_, _, m.setMode_eq m.previousMode⟩
  · exact ⟨m.mode, m.previousMode, rfl⟩

-- Ticks reach the timers and the glows only.
theorem ticks_eq (count : Nat) (m : Machine) :
    ∃ registers display, ticks count m = { m with registers, display } := by
  induction count generalizing m with
  | zero => exact ⟨m.registers, m.display, rfl⟩
  | succ count ih =>
    obtain ⟨registers, display, h⟩ := ih m.tick
    rw [ticks_succ, h]
    exact ⟨registers, display, rfl⟩

-- All that time reaches once the instruction is done.
theorem passTime_playTone_eq (m : Machine) (elapsed : Nat) :
    ∃ registers display beeper timerTime, (m.passTime elapsed).playTone =
      { m with registers, display, beeper, timerTime } := by
  obtain ⟨registers, display, h⟩ := ticks_eq ((m.timerTime + elapsed) / tickPeriod)
    { m with timerTime := (m.timerTime + elapsed) % tickPeriod }
  rw [passTime, h]
  unfold playTone
  split <;> exact ⟨_, _, _, _, rfl⟩

theorem mode_pass (m : Machine) (elapsed : Nat) :
    (m.passTime elapsed).playTone.mode = m.mode := by
  obtain ⟨registers, display, beeper, timerTime, h⟩ := m.passTime_playTone_eq elapsed
  rw [h]

-- The bytes that an instruction writes at the address register.
def storedBytes (m : Machine) : Instruction → List UInt8
  | .decimal x => decimalDigits (m.get x)
  | .saveRegisters x => m.firstRegisters x
  | _ => []

theorem length_firstRegisters (x : Register) : (m.firstRegisters x).length = x.val + 1 := by
  have hx := x.isLt
  simp only [firstRegisters, List.length_take, Vector.length_toList]
  omega

theorem length_storedBytes (i : Instruction) : (m.storedBytes i).length = i.storedCount := by
  cases i with
  | saveRegisters x => exact m.length_firstRegisters x
  | _ => rfl

theorem advanceAddress_eq (m : Machine) (count : Nat) :
    ∃ registers, m.advanceAddress count = { m with registers } := by
  unfold advanceAddress
  split
  · exact ⟨_, rfl⟩
  · exact ⟨m.registers, rfl⟩

theorem setFirst_eq (m : Machine) (values : List UInt8) :
    ∃ registers, m.setFirst values = { m with registers } :=
  ⟨_, rfl⟩

theorem get_setFirst (m : Machine) (values : List UInt8) (k : Register) :
    (m.setFirst values).get k = values.getD k (m.get k) := by
  simp only [get, setFirst, Registers.get, Fin.getElem_fin, Vector.getElem_ofFn]

-- All that `00FD` does.
theorem unload_eq (m : Machine) :
    m.unload =
      { m with
        memory := m.memory.install []
        programSize := 0
        registers := .powerOn
        keys := released
        awaited := none
        display := (m.display.setResolution .low).clear
        cycleTime := 0
        timerTime := 0
        mode := .empty
        previousMode := if m.mode = .empty then m.previousMode else m.mode } := by
  rw [unload, setMode_eq]
  rfl

-- All that an instruction but `00FD` reaches, and what it does to memory. Of the display it does
-- not reach the settings. The awaited key, the flags and the random bytes have an instruction each
-- that reaches them, and the display has seven.
theorem machine_perform_eq {i : Instruction} (hi : i ≠ .exit) :
    ∃ registers awaited display flags random, (m.perform i).machine =
      { m with
        registers, awaited, display, flags, random
        memory := m.memory.writeAll m.registers.address (m.storedBytes i) } ∧
      display.settings = m.display.settings ∧
      (i.kind ≠ .readKey → awaited = m.awaited) ∧
      (i.kind ≠ .saveFlags → flags = m.flags) ∧
      (i.kind ≠ .random → random = m.random) ∧
      (i.kind ∉ [.clearScreen, .draw, .scrollDown, .scrollRight, .scrollLeft, .lowResolution,
        .highResolution] → display = m.display) := by
  cases i with
  | exit => exact absurd rfl hi
  | clearScreen | scrollDown _ | scrollRight | scrollLeft | lowResolution | highResolution =>
    exact ⟨_, _, _, _, _, rfl, rfl, fun _ => rfl, fun _ => rfl, fun _ => rfl,
      fun h => absurd (of_decide_eq_true rfl) h⟩
  | draw x y height =>
    exact ⟨_, _, _, _, _, rfl, m.display.settings_draw _, fun _ => rfl, fun _ => rfl, fun _ => rfl,
      fun h => absurd (of_decide_eq_true rfl) h⟩
  | ret =>
    simp only [perform, ret]
    split <;>
      exact ⟨_, _, _, _, _, rfl, rfl, fun _ => rfl, fun _ => rfl, fun _ => rfl, fun _ => rfl⟩
  | call target =>
    simp only [perform, call]
    split <;>
      exact ⟨_, _, _, _, _, rfl, rfl, fun _ => rfl, fun _ => rfl, fun _ => rfl, fun _ => rfl⟩
  | or x y | and x y | xor x y =>
    simp only [perform, logic, machine_done]
    split <;>
      exact ⟨_, _, _, _, _, rfl, rfl, fun _ => rfl, fun _ => rfl, fun _ => rfl, fun _ => rfl⟩
  | random x mask =>
    exact ⟨_, _, _, _, _, rfl, rfl, fun _ => rfl, fun _ => rfl, fun h => absurd rfl h, fun _ => rfl⟩
  | readKey x =>
    have hreads (awaited : Option UInt8) :
        Instruction.Kind.readKey ≠ .readKey → awaited = m.awaited := fun h => absurd rfl h
    simp only [perform, readKey, machine_done]
    split
    · exact ⟨_, _, _, _, _, rfl, rfl, hreads _, fun _ => rfl, fun _ => rfl, fun _ => rfl⟩
    · split <;> exact ⟨_, _, _, _, _, rfl, rfl, hreads _, fun _ => rfl, fun _ => rfl, fun _ => rfl⟩
  | saveRegisters x =>
    obtain ⟨registers, h⟩ := (m.writeAtAddress (m.firstRegisters x)).advanceAddress_eq (x + 1)
    simp only [perform, saveRegisters, machine_done, h]
    exact ⟨_, _, _, _, _, rfl, rfl, fun _ => rfl, fun _ => rfl, fun _ => rfl, fun _ => rfl⟩
  | loadRegisters x =>
    let values := m.memory.readMany m.registers.address (x + 1)
    obtain ⟨first, hfirst⟩ := m.setFirst_eq values
    obtain ⟨registers, h⟩ := (m.setFirst values).advanceAddress_eq (x + 1)
    simp only [perform, loadRegisters, machine_done]
    rw [h, hfirst]
    exact ⟨_, _, _, _, _, rfl, rfl, fun _ => rfl, fun _ => rfl, fun _ => rfl, fun _ => rfl⟩
  | saveFlags x =>
    have hsaves (flags : Vector UInt8 8) :
        Instruction.Kind.saveFlags ≠ .saveFlags → flags = m.flags := fun h => absurd rfl h
    simp only [perform, saveFlags]
    split <;> exact ⟨_, _, _, _, _, rfl, rfl, fun _ => rfl, hsaves _, fun _ => rfl, fun _ => rfl⟩
  | loadFlags x =>
    obtain ⟨first, hfirst⟩ := m.setFirst_eq (m.flags.toList.take (x + 1))
    simp only [perform, loadFlags]
    split
    · rw [machine_done, hfirst]
      exact ⟨_, _, _, _, _, rfl, rfl, fun _ => rfl, fun _ => rfl, fun _ => rfl, fun _ => rfl⟩
    · exact ⟨_, _, _, _, _, rfl, rfl, fun _ => rfl, fun _ => rfl, fun _ => rfl, fun _ => rfl⟩
  | _ => exact ⟨_, _, _, _, _, rfl, rfl, fun _ => rfl, fun _ => rfl, fun _ => rfl, fun _ => rfl⟩

theorem memory_perform {i : Instruction} (hi : i ≠ .exit) :
    (m.perform i).machine.memory =
      m.memory.writeAll m.registers.address (m.storedBytes i) := by
  obtain ⟨registers, awaited, display, flags, random, h, -⟩ := machine_perform_eq (m := m) hi
  rw [h]

end Machine

end Chip8
