import Chip8.Proofs.Instruction.Encoding
import Chip8.Proofs.Machine.Executions
import Chip8.Proofs.Machine.Ticking

namespace Chip8

theorem Execution.exits_iff (e : Execution) :
    e.Exits ↔ e.opcode = 0x00FD ∧ e.machine.instructionSet = .superChip := by
  have hkind : Instruction.exit.kind ∈ Instruction.Kind.superChip := by decide
  rw [Exits, Machine.instruction?_eq_some_iff]
  constructor
  · rintro ⟨hdecode, hsupports⟩
    exact ⟨Opcode.eq_of_decode_exit hdecode, Machine.eq_superChip_of_supports hsupports hkind⟩
  · rintro ⟨hopcode, hset⟩
    rw [hopcode, hset]
    exact ⟨by decide, by decide⟩

-- All operations but those that set a mode.
def Operation.LeavesMode : Operation → Prop
  | .unload | .setMode _ | .resume | .control _ => False
  | _ => True

namespace Machine

-- The operation asks for a pause, or fails and pauses the machine for that.
def PausesAt (m : Machine) : Operation → Prop
  | .pause => True
  | .step => m.step.fault ≠ none
  | .advance elapsed => (m.advance elapsed).fault ≠ none
  | .update now => (m.update now).fault ≠ none
  | _ => False

-- The machine is paused, and was in the given mode before.
structure PausedFrom (m : Machine) (mode : Mode) : Prop where
  mode_eq : m.mode = .paused
  previousMode_eq : m.previousMode = mode

variable {m : Machine} {mode : Mode}

theorem pausedFrom_setMode (h : m.mode ≠ .paused) : (m.setMode .paused).PausedFrom m.mode := by
  rw [setMode_eq, if_neg h]
  exact ⟨rfl, rfl⟩

theorem pausedFrom_step (hm : m.mode ≠ .empty) (hp : m.mode ≠ .paused)
    (hfault : m.step.fault ≠ none) : m.step.machine.PausedFrom m.mode := by
  obtain ⟨fault, hfault⟩ := Option.ne_none_iff_exists'.mp hfault
  rw [machine_step_of_fault hm hfault]
  exact pausedFrom_setMode (m := m.fetched) hp

-- Of all that an update does only the instruction can fail.
theorem pausedFrom_advance {elapsed : Nat} (hfault : (m.advance elapsed).fault ≠ none) :
    (m.advance elapsed).machine.PausedFrom m.mode := by
  have hadvances := m.advances elapsed
  generalize m.advanceExecutions elapsed = executions at hadvances
  generalize m.advance elapsed = outcome at hfault hadvances
  cases hadvances with
  | failed hm _ _ _ =>
    exact pausedFrom_setMode (m := m.due.fetched) (ne_of_eq_of_ne hm (by decide))
  | _ => exact absurd rfl hfault

theorem pausedFrom_of_pausesAt (hm : m.mode = .run ∨ m.mode = .step) {operation : Operation}
    (h : m.PausesAt operation) : (m.apply operation).machine.PausedFrom m.mode := by
  have hne : m.mode ≠ .paused := by rcases hm with hm | hm <;> simp [hm]
  cases operation with
  | pause =>
    have hpause : m.pause = m.setMode .paused := by
      rcases hm with hm | hm <;> simp only [pause, hm]
    rw [apply, machine_done, hpause]
    exact pausedFrom_setMode hne
  | step => exact pausedFrom_step (by rcases hm with hm | hm <;> simp [hm]) hne h
  | advance elapsed => exact pausedFrom_advance h
  | update now => exact pausedFrom_advance (m := { m with updatedAt := some now }) h
  | _ => exact h.elim

namespace PausedFrom

theorem congr (h : m.PausedFrom mode) {m' : Machine} (hmode : m'.mode = m.mode)
    (hprevious : m'.previousMode = m.previousMode) : m'.PausedFrom mode :=
  ⟨hmode.trans h.mode_eq, hprevious.trans h.previousMode_eq⟩

-- A pause of a paused machine does not count as one.
theorem setMode (h : m.PausedFrom mode) : (m.setMode .paused).PausedFrom mode := by
  rw [Machine.setMode, if_pos h.mode_eq]
  exact h

theorem execute (h : m.PausedFrom mode) {opcode : UInt16}
    (hexit : ¬(Execution.mk m opcode).Exits) : (m.execute opcode).machine.PausedFrom mode := by
  rw [machine_execute_eq_within hexit]
  exact h.congr rfl rfl

theorem step (h : m.PausedFrom mode) (hexit : ∀ e ∈ m.stepExecutions, ¬e.Exits) :
    m.step.machine.PausedFrom mode := by
  have hm : m.mode ≠ .empty := by simp [h.mode_eq]
  have hfetched : m.fetched.PausedFrom mode := h.congr rfl rfl
  rcases step_cases_of_not_exits hm hexit with ⟨fault, hstep⟩ | ⟨after, hstep⟩
  · rw [hstep, machine_fail]
    exact hfetched.setMode
  · rw [hstep, machine_done]
    exact h.congr rfl rfl

theorem advance_eq (h : m.PausedFrom mode) (elapsed : Nat) :
    m.advance elapsed = (m.passTime elapsed).done :=
  advance_of_stopped (.inr h.mode_eq) elapsed

theorem advance (h : m.PausedFrom mode) (elapsed : Nat) :
    (m.advance elapsed).machine.PausedFrom mode := by
  obtain ⟨registers, display, hticks⟩ :=
    ticks_eq ((m.timerTime + elapsed) / tickPeriod) m
  rw [h.advance_eq, machine_done, passTime_eq, hticks]
  exact h.congr rfl rfl

theorem orKeep (h : m.PausedFrom mode) (program : List UInt8) :
    (m.orKeep (m.load program)).machine.PausedFrom mode := by
  unfold load
  split
  · exact h
  · exact h.congr rfl rfl

theorem apply (h : m.PausedFrom mode) {operation : Operation} (hleaves : operation.LeavesMode)
    (hexit : ∀ e ∈ m.executions operation, ¬e.Exits) :
    (m.apply operation).machine.PausedFrom mode := by
  cases operation with
  | load program => exact h.orKeep program
  | loadFile content =>
    cases content with
    | ok program => exact h.orKeep program
    | error cause => exact h
  | step => exact h.step hexit
  | advance elapsed => exact h.advance elapsed
  | update now =>
    have hnow : { m with updatedAt := some now }.PausedFrom mode := h.congr rfl rfl
    exact hnow.advance _
  | execute opcode => exact h.execute (hexit _ (List.mem_singleton_self _))
  | pause =>
    have hpause : m.pause = m := by simp only [pause, h.mode_eq]
    rwa [Machine.apply, machine_done, hpause]
  | reset | setInstructionSet _ | setDialect _ | setProcessor _ | setSound _ | setGraphics _
  | setKey _ _ | setBreakpoints _ => exact h.congr rfl rfl
  | unload | setMode _ | resume | control _ => exact hleaves.elim

theorem run (h : m.PausedFrom mode) {operations : List Operation}
    (hleaves : ∀ operation ∈ operations, operation.LeavesMode)
    (hexit : ∀ e ∈ m.history operations, ¬e.Exits) : (m.run operations).PausedFrom mode := by
  induction operations generalizing m with
  | nil => exact h
  | cons operation rest ih =>
    rw [List.forall_mem_cons] at hleaves
    rw [history, List.forall_mem_append] at hexit
    exact ih (h.apply hleaves.1 hexit.1) hleaves.2 hexit.2

theorem resume_eq (h : m.PausedFrom mode) (hne : mode ≠ .paused) :
    m.resume = { m with mode, previousMode := .paused } := by
  rw [resume, if_pos h.mode_eq, setMode_eq, h.previousMode_eq, h.mode_eq, if_neg hne.symm]

end PausedFrom

-- A machine that was paused, by request or by a fault, stays paused through whatever else is
-- asked of it, as long as no program ends. It executes nothing on its own, and when it resumes
-- it is in the mode that it was paused from.
theorem resumes_in_mode_of_pause (m : Machine) (hm : m.mode = .run ∨ m.mode = .step)
    {pausing : Operation} (hpauses : m.PausesAt pausing) {operations : List Operation}
    (hleaves : ∀ operation ∈ operations, operation.LeavesMode)
    (hexit : ∀ e ∈ (m.apply pausing).machine.history operations, ¬e.Exits) :
    let paused := (m.apply pausing).machine
    let after := paused.run operations
    paused.mode = .paused ∧ after.mode = .paused ∧
      after.resume = { after with mode := m.mode, previousMode := .paused } ∧
      ∀ before, before <+: operations → ∀ elapsed,
        (paused.run before).advanceExecutions elapsed = [] ∧
          (paused.run before).advance elapsed = ((paused.run before).passTime elapsed).done := by
  intro paused after
  have hpaused : paused.PausedFrom m.mode := pausedFrom_of_pausesAt hm hpauses
  have hafter : after.PausedFrom m.mode := hpaused.run hleaves hexit
  have hne : m.mode ≠ .paused := by rcases hm with hm | hm <;> simp [hm]
  refine ⟨hpaused.mode_eq, hafter.mode_eq, hafter.resume_eq hne, ?_⟩
  rintro before ⟨rest, rfl⟩ elapsed
  rw [history_append, List.forall_mem_append] at hexit
  have hbetween : (paused.run before).PausedFrom m.mode :=
    hpaused.run (fun operation hmem => hleaves operation (List.mem_append_left rest hmem)) hexit.1
  refine ⟨?_, hbetween.advance_eq elapsed⟩
  rw [advanceExecutions, if_neg (by simp [hbetween.mode_eq])]

-- A fault pauses a running machine. Meanwhile it is handed `00FD`, which it does not know, learns
-- SUPER-CHIP, gets another program and executes its first instruction.
theorem runs_again_after_pause :
    let m := (new (.standard 0)).run [.load [0xFF, 0xFF], .setMode .run]
    let operations : List Operation :=
      [.advance 20000000, .execute 0x00FD, .pause, .setInstructionSet .superChip,
        .load [0x60, 0x05], .step]
    (m.mode = .run ∨ m.mode = .step) ∧ m.PausesAt .step ∧
      (∀ operation ∈ operations, operation.LeavesMode) ∧
      (∀ e ∈ (m.apply .step).machine.history operations, ¬e.Exits) ∧
      ((m.apply .step).machine.run operations).mode = .paused ∧
      ((m.apply .step).machine.run operations).resume.mode = .run := by
  intro m operations
  have hm : m.mode = .run ∨ m.mode = .step := .inl rfl
  have hword (memory : Memory) (program : List UInt8) : (memory.install program).readWord 0x200 =
      (program.getD 0 0).toUInt16 <<< 8 ||| (program.getD 1 0).toUInt16 := by
    rw [Memory.readWord, Memory.read_install_of_le _ _ (by decide),
      Memory.read_install_of_le _ _ (by decide)]
    rfl
  have hfault : m.step.fault = some (.invalidOpcode 0xFFFF 0x200) := by
    refine (fault_step_iff (by decide) _).mpr ?_
    have hnext : m.memory.readWord m.registers.pc = 0xFFFF := hword Memory.powerOn [0xFF, 0xFF]
    have hoffset : (m.fetched.registers.pc - 2) % 4096 = 0x200 := by decide
    rw [hnext, ← hoffset]
    exact .unknown (by decide)
  have hpauses : m.PausesAt .step := by
    change m.step.fault ≠ none
    simp [hfault]
  have hleaves : ∀ operation ∈ operations, operation.LeavesMode := by
    simp [operations, Operation.LeavesMode]
  have hhistory : ((m.apply .step).machine.history operations).map
      (fun e => (e.opcode, e.machine.instructionSet)) =
        [(0x00FD, .chip8), (0x6005, .superChip)] := by
    have hfirst : (m.apply .step).machine = m.fetched.setMode .paused :=
      machine_step_of_fault (by decide) hfault
    have hsecond : (m.memory.install [0x60, 0x05]).readWord 0x200 = 0x6005 :=
      hword m.memory [0x60, 0x05]
    rw [hfirst, ← hsecond]
    simp only [m, operations]
    rfl
  have hexit : ∀ e ∈ (m.apply .step).machine.history operations, ¬e.Exits := by
    intro e he hexits
    obtain ⟨hopcode, hset⟩ := e.exits_iff.mp hexits
    have hmem := List.mem_map_of_mem (f := fun e => (e.opcode, e.machine.instructionSet)) he
    rw [hhistory, hopcode, hset] at hmem
    exact absurd hmem (by decide)
  obtain ⟨-, hmode, hresume, -⟩ := resumes_in_mode_of_pause m hm hpauses hleaves hexit
  exact ⟨hm, hpauses, hleaves, hexit, hmode, congrArg Machine.mode hresume⟩

end Machine

end Chip8
