import Chip8.Proofs.Machine.Executions
import Chip8.Proofs.Machine.Settings

namespace Chip8

-- The machine is put back to its start.
def Operation.restarts : Operation → Bool
  | .load program | .loadFile (.ok program) =>
    decide (program.length ≤ Memory.programCapacity)
  | .unload | .reset => true
  | .control pressed => decide ("Back" ∈ pressed)
  | _ => false

-- The cycle rate stays a limit, and the same one.
def Operation.KeepsRate (rate : UInt32) : Operation → Prop
  | .setProcessor processor => processor.uncapped = false ∧ processor.cyclesPerSecond = rate
  | _ => True

namespace Machine

-- The time that passes in an update.
def updateTime (m : Machine) : Operation → Option Nat
  | .advance elapsed => some elapsed
  | .update now => some (m.updatedAt.elim 0 (now - ·))
  | _ => none

-- The time in which the machine runs.
def runTime (m : Machine) (operation : Operation) : Nat :=
  if m.mode = .run then (m.updateTime operation).getD 0 else 0

-- An update executes an instruction or stops at a breakpoint.
def Attempts (m : Machine) (operation : Operation) : Prop :=
  (m.updateTime operation).isSome = true ∧
    (m.executions operation ≠ [] ∨ m.mode = .run ∧ (m.apply operation).machine.mode = .step)

instance (m : Machine) (operation : Operation) : Decidable (m.Attempts operation) :=
  inferInstanceAs (Decidable (_ ∧ _))

-- A restart was asked for, or the program ended.
def Restarts (m : Machine) (operation : Operation) : Prop :=
  operation.restarts = true ∨ ∃ e ∈ m.executions operation, e.Exits

instance (m : Machine) (operation : Operation) : Decidable (m.Restarts operation) :=
  inferInstanceAs (Decidable (_ ∨ _))

def attemptCount (m : Machine) : List Operation → Nat
  | [] => 0
  | operation :: rest =>
    (if m.Attempts operation then 1 else 0) + (m.apply operation).machine.attemptCount rest

def totalRunTime (m : Machine) : List Operation → Nat
  | [] => 0
  | operation :: rest => m.runTime operation + (m.apply operation).machine.totalRunTime rest

-- The time in which the machine ran since its last attempt or restart. If there was none, the
-- given time comes on top.
def waited (m : Machine) (time : Nat) : List Operation → Nat
  | [] => time
  | operation :: rest =>
    let again := m.Attempts operation ∨ m.Restarts operation
    (m.apply operation).machine.waited (if again then 0 else time + m.runTime operation) rest

-- No more than the given number of instructions a second.
structure RunsAt (m : Machine) (rate : UInt32) : Prop where
  uncapped_eq : m.config.processor.uncapped = false
  rate_eq : m.config.processor.cyclesPerSecond = rate

variable {m : Machine}

theorem RunsAt.apply {rate : UInt32} (h : m.RunsAt rate) {operation : Operation}
    (hkeeps : operation.KeepsRate rate) : (m.apply operation).machine.RunsAt rate := by
  have hconfig := m.config_apply operation
  cases operation with
  | setProcessor processor => exact ⟨hkeeps.1, hkeeps.2⟩
  | _ =>
    exact ⟨(congrArg (·.processor.uncapped) hconfig).trans h.uncapped_eq,
      (congrArg (·.processor.cyclesPerSecond) hconfig).trans h.rate_eq⟩

theorem RunsAt.isDueAfter_iff {rate : UInt32} (h : m.RunsAt rate) (elapsed : Nat) :
    m.IsDueAfter elapsed ↔ 1000000000 / max rate.toNat 1 ≤ m.cycleTime + elapsed := by
  rw [IsDueAfter, Processor.cyclePeriod, h.uncapped_eq, h.rate_eq]
  simp

-- Outside updates the time since the last cycle is lost where the machine restarts.

theorem cycleTime_unload : m.unload.cycleTime = 0 := by rw [unload_eq]

theorem cycleTime_execute (m : Machine) (opcode : UInt16) :
    (m.execute opcode).machine.cycleTime =
      if (Execution.mk m opcode).Exits then 0 else m.cycleTime := by
  split
  case isTrue h =>
    rw [execute_of_eq_some h]
    exact cycleTime_unload
  case isFalse h =>
    rw [machine_execute_eq_within h]
    rfl

theorem cycleTime_step (m : Machine) :
    m.step.machine.cycleTime = if ∃ e ∈ m.stepExecutions, e.Exits then 0 else m.cycleTime := by
  by_cases hm : m.mode = .empty
  · rw [step, if_pos hm, stepExecutions, if_pos hm]
    simp
  have hexecute := m.fetched.cycleTime_execute m.nextOpcode
  simp only [stepExecutions, if_neg hm, List.mem_singleton, exists_eq_left]
  obtain ⟨mode, previousMode, hstep⟩ := machine_step_eq hm
  rw [hstep]
  exact hexecute

theorem joined_cycleTime : Joined fun m executions after =>
    after.cycleTime = if ∃ e ∈ executions, e.Exits then 0 else m.cycleTime where
  mode _ _ _ := by simp
  step := cycleTime_step
  trans {m between after first second} hfirst hsecond := by
    have hor : (∃ e ∈ first ++ second, e.Exits) ↔
        (∃ e ∈ first, e.Exits) ∨ ∃ e ∈ second, e.Exits := by
      simp only [List.mem_append, or_and_right, exists_or]
    rw [hsecond, hfirst]
    by_cases h : ∃ e ∈ second, e.Exits
    · rw [if_pos h, if_pos (hor.mpr (.inr h))]
    · simp only [hor, or_iff_left h, if_neg h]

theorem cycleTime_load (m : Machine) (program : List UInt8) :
    (m.orKeep (m.load program)).machine.cycleTime =
      if program.length ≤ Memory.programCapacity then 0 else m.cycleTime := by
  unfold load
  split
  case isTrue h =>
    rw [if_neg (Nat.not_le.mpr h)]
    rfl
  case isFalse h =>
    rw [if_pos (Nat.le_of_not_lt h)]
    rfl

theorem cycleTime_apply_of_updateTime_eq_none {operation : Operation}
    (h : m.updateTime operation = none) :
    (m.apply operation).machine.cycleTime =
      if m.Restarts operation then 0 else m.cycleTime := by
  have hload (program : List UInt8)
      (hop : operation.restarts = decide (program.length ≤ Memory.programCapacity))
      (hexecutions : m.executions operation = []) :
      (m.orKeep (m.load program)).machine.cycleTime =
        if m.Restarts operation then 0 else m.cycleTime := by
    simp [Restarts, hop, hexecutions, cycleTime_load]
  have hkeeps (hop : operation.restarts = false) (hjoined : (m.apply operation).machine.cycleTime =
      if ∃ e ∈ m.executions operation, e.Exits then 0 else m.cycleTime) :
      (m.apply operation).machine.cycleTime =
        if m.Restarts operation then 0 else m.cycleTime := by
    simp only [Restarts, hop, Bool.false_eq_true, false_or]
    exact hjoined
  cases operation with
  | load program => exact hload program rfl rfl
  | loadFile content =>
    cases content with
    | ok program => exact hload program rfl rfl
    | error cause => exact hkeeps rfl (joined_cycleTime.mode m m.mode m.previousMode)
  | unload =>
    rw [if_pos (.inl rfl)]
    exact cycleTime_unload
  | reset => exact (if_pos (.inl rfl)).symm
  | step => exact hkeeps rfl m.cycleTime_step
  | execute opcode =>
    refine hkeeps rfl ?_
    simp only [executions, List.mem_singleton, exists_eq_left]
    exact m.cycleTime_execute opcode
  | setMode mode => exact hkeeps rfl (joined_cycleTime.setMode m mode)
  | pause => exact hkeeps rfl (joined_cycleTime.pause m)
  | resume => exact hkeeps rfl (joined_cycleTime.resume m)
  | setInstructionSet _ | setDialect _ | setProcessor _ | setSound _ | setGraphics _ | setKey _ _
  | setBreakpoints _ => exact hkeeps rfl (joined_cycleTime.mode m m.mode m.previousMode)
  | control pressed =>
    obtain ⟨after, hafter, hcontrol⟩ := joined_cycleTime.control m pressed
    by_cases hback : "Back" ∈ pressed
    · rw [if_pos (.inl (decide_eq_true hback)), apply, machine_done, hcontrol, if_pos hback]
      rfl
    · refine hkeeps (decide_eq_false hback) ?_
      rw [apply, machine_done, hcontrol, if_neg hback]
      exact hafter
  | advance _ | update _ => cases h

theorem cycleTime_pass (m : Machine) (elapsed : Nat) :
    (m.passTime elapsed).playTone.cycleTime = m.cycleTime := by
  obtain ⟨registers, display, beeper, timerTime, h⟩ := m.passTime_playTone_eq elapsed
  rw [h]

namespace Advances

variable {elapsed : Nat} {executions : List Execution} {outcome : Outcome}

theorem length_le_one (h : m.Advances elapsed executions outcome) : executions.length ≤ 1 := by
  cases h <;> simp

-- Only a breakpoint lets an update of a running machine end in steps.
theorem attempts_iff (h : m.Advances elapsed executions outcome) :
    (executions ≠ [] ∨ m.mode = .run ∧ outcome.machine.mode = .step) ↔
      m.mode = .run ∧ m.IsDueAfter elapsed := by
  cases h with
  | empty hm => simp [hm]
  | stopped hm => rcases hm with hm | hm <;> simp [hm]
  | early hm hdue => simp [hm, hdue, mode_pass]
  | breakpoint hm hdue hb => simp [hm, hdue, mode_pass, setMode_eq]
  | executed hm hdue hb hfault => simp [hm, hdue]
  | failed hm hdue hb hfault => simp [hm, hdue]

-- An attempt costs all of the time that is there, also what a period does not need.
theorem cycleTime_of_due (h : m.Advances elapsed executions outcome) (hm : m.mode = .run)
    (hdue : m.IsDueAfter elapsed) : outcome.machine.cycleTime = 0 := by
  cases h with
  | empty hempty => simp [hm] at hempty
  | stopped hstopped => simp [hm] at hstopped
  | early _ hearly => exact absurd hdue hearly
  | breakpoint _ _ _ =>
    rw [machine_done, cycleTime_pass, setMode_eq]
    rfl
  | executed _ _ _ _ =>
    rw [machine_done, cycleTime_pass, cycleTime_execute]
    exact ite_self 0
  | failed _ _ _ _ =>
    rw [machine_fail, setMode_eq]
    rfl

theorem cycleTime_of_not_due (h : m.Advances elapsed executions outcome)
    (hnot : ¬(m.mode = .run ∧ m.IsDueAfter elapsed)) :
    outcome.machine.cycleTime = m.cycleTime + if m.mode = .run then elapsed else 0 := by
  cases h with
  | empty hm =>
    rw [if_neg (by simp [hm])]
    rfl
  | stopped hm =>
    rw [if_neg (by rcases hm with hm | hm <;> simp [hm]), machine_done, cycleTime_pass]
    rfl
  | early hm _ => rw [if_pos hm, machine_done, cycleTime_pass]
  | breakpoint hm hdue _ | executed hm hdue _ _ | failed hm hdue _ _ =>
    exact absurd ⟨hm, hdue⟩ hnot

end Advances

theorem advances_of_updateTime {operation : Operation} {elapsed : Nat}
    (h : m.updateTime operation = some elapsed) :
    ∃ updatedAt, { m with updatedAt }.Advances elapsed (m.executions operation)
      (m.apply operation) := by
  cases operation with
  | advance time =>
    obtain rfl := Option.some.inj h
    exact ⟨m.updatedAt, m.advances _⟩
  | update now =>
    obtain rfl := Option.some.inj h
    exact ⟨some now, { m with updatedAt := some now }.advances _⟩
  | _ => cases h

theorem attempts_iff {operation : Operation} {elapsed : Nat}
    (h : m.updateTime operation = some elapsed) :
    m.Attempts operation ↔ m.mode = .run ∧ m.IsDueAfter elapsed := by
  obtain ⟨updatedAt, hadvances⟩ := advances_of_updateTime h
  rw [Attempts, h, Option.isSome_some, eq_self, true_and]
  exact hadvances.attempts_iff

-- An update restarts the machine with what it executes only.
theorem attempts_of_restarts {operation : Operation} {elapsed : Nat}
    (h : m.updateTime operation = some elapsed) (hrestarts : m.Restarts operation) :
    m.Attempts operation := by
  rcases hrestarts with hop | ⟨e, he, -⟩
  · cases operation with
    | advance _ | update _ => cases hop
    | _ => cases h
  · exact ⟨by rw [h]; rfl, .inl (List.ne_nil_of_mem he)⟩

theorem cycleTime_apply (m : Machine) (operation : Operation) :
    (m.apply operation).machine.cycleTime =
      if m.Attempts operation ∨ m.Restarts operation then 0
      else m.cycleTime + m.runTime operation := by
  cases htime : m.updateTime operation with
  | none =>
    have hattempts : ¬m.Attempts operation := by simp [Attempts, htime]
    have hrun : m.runTime operation = 0 := by simp [runTime, htime]
    simp only [hattempts, false_or, hrun, Nat.add_zero]
    exact cycleTime_apply_of_updateTime_eq_none htime
  | some elapsed =>
    obtain ⟨updatedAt, hadvances⟩ := advances_of_updateTime htime
    simp only [or_iff_left_of_imp (attempts_of_restarts htime), runTime, htime, Option.getD_some]
    split
    case isTrue hattempts =>
      obtain ⟨hm, hdue⟩ := (attempts_iff htime).mp hattempts
      exact hadvances.cycleTime_of_due hm hdue
    case isFalse hattempts =>
      exact hadvances.cycleTime_of_not_due (mt (attempts_iff htime).mpr hattempts)

theorem cycleTime_run (m : Machine) (operations : List Operation) :
    (m.run operations).cycleTime = m.waited m.cycleTime operations := by
  induction operations generalizing m with
  | nil => rfl
  | cons operation rest ih =>
    rw [waited, ← cycleTime_apply]
    exact ih _

-- An attempt is paid with a period of the time that is there.
theorem RunsAt.attempt_paid {rate : UInt32} (h : m.RunsAt rate) (operation : Operation) :
    (if m.Attempts operation then 1 else 0) * (1000000000 / max rate.toNat 1) +
        (m.apply operation).machine.cycleTime ≤
      m.cycleTime + m.runTime operation := by
  rw [cycleTime_apply]
  by_cases hattempts : m.Attempts operation
  · obtain ⟨elapsed, htime⟩ := Option.isSome_iff_exists.mp hattempts.1
    obtain ⟨hm, hdue⟩ := (attempts_iff htime).mp hattempts
    have hpaid := (h.isDueAfter_iff elapsed).mp hdue
    have hrun : m.runTime operation = elapsed := by rw [runTime, if_pos hm, htime, Option.getD_some]
    rwa [if_pos hattempts, if_pos (.inl hattempts), hrun, Nat.one_mul, Nat.add_zero]
  · rw [if_neg hattempts, Nat.zero_mul, Nat.zero_add]
    split <;> omega

theorem RunsAt.attempts_paid {rate : UInt32} (h : m.RunsAt rate) {operations : List Operation}
    (hkeeps : ∀ operation ∈ operations, operation.KeepsRate rate) :
    m.attemptCount operations * (1000000000 / max rate.toNat 1) +
        (m.run operations).cycleTime ≤
      m.cycleTime + m.totalRunTime operations := by
  induction operations generalizing m with
  | nil =>
    rw [attemptCount, Nat.zero_mul, Nat.zero_add]
    exact Nat.le_refl _
  | cons operation rest ih =>
    rw [List.forall_mem_cons] at hkeeps
    have hfirst := h.attempt_paid operation
    have hrest := ih (h.apply hkeeps.1) hkeeps.2
    have hrun : m.run (operation :: rest) = (m.apply operation).machine.run rest := rfl
    rw [attemptCount, totalRunTime, hrun, Nat.add_mul]
    omega

theorem RunsAt.run {rate : UInt32} (h : m.RunsAt rate) {operations : List Operation}
    (hkeeps : ∀ operation ∈ operations, operation.KeepsRate rate) :
    (m.run operations).RunsAt rate := by
  induction operations generalizing m with
  | nil => exact h
  | cons operation rest ih =>
    rw [List.forall_mem_cons] at hkeeps
    exact ih (h.apply hkeeps.1) hkeeps.2

-- An update executes at most one instruction, and not even that at a breakpoint. While the cycle
-- rate is limited and stays the same one, as many periods fit into the time in which the machine
-- ran as updates attempted an instruction. One that finds the machine running attempts it as soon
-- as the time since the last attempt or restart makes up a period, and not before.
theorem cycle_rate_kept :
    (∀ (m : Machine) (operation : Operation) (elapsed : Nat),
      m.updateTime operation = some elapsed → (m.executions operation).length ≤ 1 ∧
        ∃ updatedAt, { m with updatedAt }.Advances elapsed (m.executions operation)
          (m.apply operation)) ∧
      ∀ (m : Machine) (rate : UInt32) (operations : List Operation), m.RunsAt rate →
        (∀ operation ∈ operations, operation.KeepsRate rate) →
          let period := 1000000000 / max rate.toNat 1
          let after := m.run operations
          m.attemptCount operations * period ≤ m.cycleTime + m.totalRunTime operations ∧
            ∀ operation elapsed, after.mode = .run → after.updateTime operation = some elapsed →
              (after.Attempts operation ↔ period ≤ m.waited m.cycleTime operations + elapsed) := by
  refine ⟨fun m operation elapsed htime => ?_, fun m rate operations h hkeeps => ?_⟩
  · obtain ⟨updatedAt, hadvances⟩ := advances_of_updateTime htime
    exact ⟨hadvances.length_le_one, updatedAt, hadvances⟩
  intro period after
  refine ⟨?_, fun operation elapsed hmode htime => ?_⟩
  · exact Nat.le_trans (Nat.le_add_right _ _) (h.attempts_paid hkeeps)
  · rw [attempts_iff htime, (h.run hkeeps).isDueAfter_iff, cycleTime_run]
    exact and_iff_right hmode

-- The time of a pause does not count, and a breakpoint costs as much as the instruction under it.
theorem next_attempt_at_eight_milliseconds :
    let m := (new (.standard 0)).run [.setMode .run, .setBreakpoints (.add .empty ⟨"start", 0x200⟩)]
    let operations : List Operation :=
      [.advance 3000000, .pause, .advance 9000000, .resume, .advance 1000000, .setMode .run,
        .advance 3999999]
    m.RunsAt 250 ∧ (∀ operation ∈ operations, operation.KeepsRate 250) ∧
      m.attemptCount operations = 1 ∧ m.totalRunTime operations = 7999999 ∧
      m.attemptCount operations * 4000000 ≤ m.totalRunTime operations ∧
      (m.run operations).mode = .run ∧ ¬(m.run operations).Attempts (.advance 0) ∧
      (m.run operations).Attempts (.advance 1) := by
  intro m operations
  have h : m.RunsAt 250 := ⟨rfl, rfl⟩
  have hkeeps : ∀ operation ∈ operations, operation.KeepsRate 250 := by
    simp [operations, Operation.KeepsRate]
  have hmode : (m.run operations).mode = .run := by decide
  have hwaited : m.waited m.cycleTime operations = 3999999 := by decide
  have hperiod : 1000000000 / max (250 : UInt32).toNat 1 = 4000000 := by decide
  obtain ⟨hpaid, hattempts⟩ := cycle_rate_kept.2 m 250 operations h hkeeps
  have htime : m.cycleTime = 0 := rfl
  rw [hperiod, htime, Nat.zero_add] at hpaid
  rw [hperiod, hwaited] at hattempts
  refine ⟨h, hkeeps, by decide, by decide, hpaid, hmode, ?_, ?_⟩
  · exact mt (hattempts (.advance 0) 0 hmode rfl).mp (by decide)
  · exact (hattempts (.advance 1) 1 hmode rfl).mpr (by decide)

end Machine

end Chip8
