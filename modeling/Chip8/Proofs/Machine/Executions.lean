import Chip8.Machine.Operation
import Chip8.Proofs.Machine.Surroundings

namespace Chip8

-- An opcode that was executed, with the machine that it was executed on.
structure Execution where
  machine : Machine
  opcode : UInt16

-- `00FD` was executed, and is known to the machine.
def Execution.Exits (e : Execution) : Prop := e.machine.instruction? e.opcode = some .exit

instance (e : Execution) : Decidable e.Exits :=
  inferInstanceAs (Decidable (e.machine.instruction? e.opcode = some .exit))

namespace Machine

def stepExecutions (m : Machine) : List Execution :=
  if m.mode = .empty then [] else [⟨m.fetched, m.nextOpcode⟩]

def cycleExecutions (m : Machine) (elapsed : Nat) : List Execution :=
  if { m with cycleTime := m.cycleTime + elapsed }.isCycleDue
      ∧ ¬m.breakpoints.has m.registers.pc then { m with cycleTime := 0 }.stepExecutions
  else []

def advanceExecutions (m : Machine) (elapsed : Nat) : List Execution :=
  if m.mode = .run then m.cycleExecutions elapsed else []

def spaceExecutions (m : Machine) : List Execution :=
  if m.mode = .step then m.stepExecutions else []

def tabExecutions (m : Machine) : List Execution :=
  if m.mode = .step ∨ m.mode = .paused then m.stepExecutions else []

-- Space is answered before Tab.
def controlExecutions (m : Machine) (pressed : List HostKey) : List Execution :=
  let first := if "Space" ∈ pressed then m.spaceExecutions else []
  let m := if "Space" ∈ pressed then m.pressSpace else m
  first ++ if "Tab" ∈ pressed then m.tabExecutions else []

def executions (m : Machine) : Operation → List Execution
  | .step => m.stepExecutions
  | .advance elapsed => m.advanceExecutions elapsed
  | .update now =>
    let elapsed := m.updatedAt.elim 0 (now - ·)
    { m with updatedAt := some now }.advanceExecutions elapsed
  | .execute opcode => [⟨m, opcode⟩]
  | .control pressed => m.controlExecutions pressed
  | _ => []

-- The executions of a run, in their order.
def history (m : Machine) : List Operation → List Execution
  | [] => []
  | operation :: rest => m.executions operation ++ (m.apply operation).machine.history rest

-- What each operation of a run leaves behind.
def trace (m : Machine) : List Operation → List Outcome
  | [] => []
  | operation :: rest => m.apply operation :: (m.apply operation).machine.trace rest

-- An instruction is due once the given time has passed.
def IsDueAfter (m : Machine) (elapsed : Nat) : Prop :=
  m.config.processor.uncapped = true ∨ m.config.processor.cyclePeriod ≤ m.cycleTime + elapsed

-- The machine whose next instruction was just found to be due.
def due (m : Machine) : Machine := { m with cycleTime := 0 }

-- All the ways in which an update goes, with what it executes and what it leaves behind.
inductive Advances (m : Machine) (elapsed : Nat) : List Execution → Outcome → Prop
  | empty (hm : m.mode = .empty) : Advances m elapsed [] m.done
  | stopped (hm : m.mode = .step ∨ m.mode = .paused) :
    Advances m elapsed [] (m.passTime elapsed).playTone.done
  | early (hm : m.mode = .run) (hdue : ¬m.IsDueAfter elapsed) :
    Advances m elapsed []
      ({ m with cycleTime := m.cycleTime + elapsed }.passTime elapsed).playTone.done
  | breakpoint (hm : m.mode = .run) (hdue : m.IsDueAfter elapsed)
    (hb : m.breakpoints.has m.registers.pc = true) :
    Advances m elapsed [] ((m.due.setMode .step).passTime elapsed).playTone.done
  | executed (hm : m.mode = .run) (hdue : m.IsDueAfter elapsed)
    (hb : m.breakpoints.has m.registers.pc = false)
    (hfault : (m.due.fetched.execute m.nextOpcode).fault = none) :
    Advances m elapsed [⟨m.due.fetched, m.nextOpcode⟩]
      ((m.due.fetched.execute m.nextOpcode).machine.passTime elapsed).playTone.done
  | failed (hm : m.mode = .run) (hdue : m.IsDueAfter elapsed)
    (hb : m.breakpoints.has m.registers.pc = false) {fault : Fault}
    (hfault : (m.due.fetched.execute m.nextOpcode).fault = some fault) :
    Advances m elapsed [⟨m.due.fetched, m.nextOpcode⟩]
      ((m.due.fetched.setMode .paused).fail fault)

-- A relation between a machine, what is executed from there on and the machine after that. It
-- holds of modes that change and of steps, and of one stretch after another.
structure Joined (R : Machine → List Execution → Machine → Prop) : Prop where
  mode (m : Machine) (mode previousMode : Mode) : R m [] { m with mode, previousMode }
  step (m : Machine) : R m m.stepExecutions m.step.machine
  trans {m between after : Machine} {first second : List Execution} :
    R m first between → R between second after → R m (first ++ second) after

variable {m : Machine}

theorem run_append (m : Machine) (before rest : List Operation) :
    m.run (before ++ rest) = (m.run before).run rest :=
  List.foldl_append

theorem history_append (m : Machine) (before rest : List Operation) :
    m.history (before ++ rest) = m.history before ++ (m.run before).history rest := by
  induction before generalizing m with
  | nil => rfl
  | cons operation before ih =>
    have hrun : m.run (operation :: before) = (m.apply operation).machine.run before := rfl
    rw [List.cons_append, history, history, ih, hrun, List.append_assoc]

-- Every opcode but that of `00FD` leaves the surroundings of a program as they were.
theorem machine_execute_eq_within {opcode : UInt16} (h : ¬(Execution.mk m opcode).Exits) :
    (m.execute opcode).machine = (m.execute opcode).machine.within m :=
  congrArg Outcome.machine (m.execute_within m h)

theorem step_cases_of_not_exits (hm : m.mode ≠ .empty) (h : ∀ e ∈ m.stepExecutions, ¬e.Exits) :
    (∃ fault, m.step = (m.fetched.setMode .paused).fail fault) ∨
      ∃ after : Machine, m.step = (after.within m).done := by
  rw [stepExecutions, if_neg hm, List.forall_mem_singleton] at h
  cases hfault : (m.fetched.execute m.nextOpcode).fault with
  | some fault => exact .inl ⟨fault, step_of_fault_eq_some hm hfault⟩
  | none =>
    refine .inr ⟨(m.fetched.execute m.nextOpcode).machine, ?_⟩
    rw [step_of_fault_eq_none hm hfault]
    exact congr (congrArg Outcome.mk (machine_execute_eq_within h)) hfault

theorem isCycleDue_iff {elapsed : Nat} :
    { m with cycleTime := m.cycleTime + elapsed }.isCycleDue = true ↔ m.IsDueAfter elapsed := by
  rw [isCycleDue, Bool.or_eq_true, decide_eq_true_iff]
  rfl

theorem cycle_of_not_due {elapsed : Nat} (hdue : ¬m.IsDueAfter elapsed) :
    m.cycle elapsed = done { m with cycleTime := m.cycleTime + elapsed } :=
  if_neg (mt isCycleDue_iff.mp hdue)

theorem cycle_of_due {elapsed : Nat} (hdue : m.IsDueAfter elapsed) :
    m.cycle elapsed =
      if m.breakpoints.has m.registers.pc then (m.due.setMode .step).done else m.due.step :=
  if_pos (isCycleDue_iff.mpr hdue)

theorem advance_of_fault_eq_none (hm : m.mode = .run) {elapsed : Nat}
    (h : (m.cycle elapsed).fault = none) :
    m.advance elapsed = ((m.cycle elapsed).machine.passTime elapsed).playTone.done := by
  simp only [advance, hm, h]

theorem advance_of_fault_eq_some (hm : m.mode = .run) {elapsed : Nat} {fault : Fault}
    (h : (m.cycle elapsed).fault = some fault) : m.advance elapsed = m.cycle elapsed := by
  simp only [advance, hm, h]

theorem advanceExecutions_of_mode_ne (hm : m.mode ≠ .run) (elapsed : Nat) :
    m.advanceExecutions elapsed = [] :=
  if_neg hm

theorem advanceExecutions_of_not_due {elapsed : Nat} (hdue : ¬m.IsDueAfter elapsed) :
    m.advanceExecutions elapsed = [] := by
  have hcycle : m.cycleExecutions elapsed = [] := if_neg fun h => hdue (isCycleDue_iff.mp h.1)
  rw [advanceExecutions, hcycle, ite_self]

theorem advanceExecutions_of_has {elapsed : Nat} (hb : m.breakpoints.has m.registers.pc = true) :
    m.advanceExecutions elapsed = [] := by
  have hcycle : m.cycleExecutions elapsed = [] := if_neg fun h => h.2 hb
  rw [advanceExecutions, hcycle, ite_self]

theorem advanceExecutions_of_due (hm : m.mode = .run) {elapsed : Nat}
    (hdue : m.IsDueAfter elapsed) (hb : m.breakpoints.has m.registers.pc = false) :
    m.advanceExecutions elapsed = [⟨m.due.fetched, m.nextOpcode⟩] := by
  have hne : m.due.mode ≠ .empty := by simp [due, hm]
  have hcycle : m.cycleExecutions elapsed = m.due.stepExecutions :=
    if_pos ⟨isCycleDue_iff.mpr hdue, by simp [hb]⟩
  rw [advanceExecutions, if_pos hm, hcycle, stepExecutions, if_neg hne]
  rfl

theorem advances (m : Machine) (elapsed : Nat) :
    m.Advances elapsed (m.advanceExecutions elapsed) (m.advance elapsed) := by
  cases hm : m.mode with
  | empty =>
    rw [advanceExecutions_of_mode_ne (by simp [hm])]
    simp only [advance, hm]
    exact .empty hm
  | step =>
    rw [advanceExecutions_of_mode_ne (by simp [hm])]
    simp only [advance, hm]
    exact .stopped (.inl hm)
  | paused =>
    rw [advanceExecutions_of_mode_ne (by simp [hm])]
    simp only [advance, hm]
    exact .stopped (.inr hm)
  | run =>
    by_cases hdue : m.IsDueAfter elapsed
    case neg =>
      have hcycle := cycle_of_not_due hdue
      rw [advanceExecutions_of_not_due hdue, advance_of_fault_eq_none hm (by rw [hcycle]; rfl),
        hcycle]
      exact .early hm hdue
    have hcycle := cycle_of_due hdue
    cases hb : m.breakpoints.has m.registers.pc with
    | true =>
      rw [hb, if_pos rfl] at hcycle
      rw [advanceExecutions_of_has hb, advance_of_fault_eq_none hm (by rw [hcycle]; rfl), hcycle]
      exact .breakpoint hm hdue hb
    | false =>
      have hne : m.due.mode ≠ .empty := by simp [due, hm]
      rw [hb, if_neg Bool.false_ne_true] at hcycle
      rw [advanceExecutions_of_due hm hdue hb]
      cases hfault : (m.due.fetched.execute m.nextOpcode).fault with
      | none =>
        have hstep : m.due.step = _ := step_of_fault_eq_none hne hfault
        rw [advance_of_fault_eq_none hm (by rw [hcycle, hstep]; exact hfault), hcycle, hstep]
        exact .executed hm hdue hb hfault
      | some fault =>
        have hstep : m.due.step = _ := step_of_fault_eq_some hne hfault
        rw [advance_of_fault_eq_some hm (by rw [hcycle, hstep]; rfl), hcycle, hstep]
        exact .failed hm hdue hb hfault

namespace Joined

variable {R : Machine → List Execution → Machine → Prop} (hR : Joined R)

include hR

theorem setMode (m : Machine) (mode : Mode) : R m [] (m.setMode mode) := by
  rw [setMode_eq]
  exact hR.mode m mode _

theorem pause (m : Machine) : R m [] m.pause := by
  obtain ⟨mode, previousMode, h⟩ := m.pause_eq
  rw [h]
  exact hR.mode m mode previousMode

theorem resume (m : Machine) : R m [] m.resume := by
  obtain ⟨mode, previousMode, h⟩ := m.resume_eq
  rw [h]
  exact hR.mode m mode previousMode

theorem continueRunning (m : Machine) : R m m.stepExecutions m.continueRunning := by
  have hstep := hR.step m
  unfold Machine.continueRunning
  simp only
  split
  · split
    · have hmode := hR.trans hstep (hR.setMode m.step.machine .run)
      rwa [List.append_nil] at hmode
    · exact hstep
  · exact hstep

theorem pressSpace (m : Machine) : R m m.spaceExecutions m.pressSpace := by
  unfold spaceExecutions Machine.pressSpace
  cases hm : m.mode with
  | empty => exact hR.mode m m.mode m.previousMode
  | run => exact hR.pause m
  | paused => exact hR.resume m
  | step => exact hR.continueRunning m

theorem pressTab (m : Machine) : R m m.tabExecutions m.pressTab := by
  unfold tabExecutions Machine.pressTab
  cases hm : m.mode with
  | empty => exact hR.mode m m.mode m.previousMode
  | run => exact hR.mode m m.mode m.previousMode
  | paused => exact hR.step m
  | step => exact hR.step m

-- An update is a step at most, with the clocks moved before it and the time passed after it.
theorem advance (hcycle : ∀ (m : Machine) cycleTime, R m [] { m with cycleTime })
    (hpass : ∀ (m : Machine) elapsed, R m [] (m.passTime elapsed).playTone) (m : Machine)
    (elapsed : Nat) : R m (m.advanceExecutions elapsed) (m.advance elapsed).machine := by
  have hdue : R m [] m.due := hcycle m 0
  have hadvances := m.advances elapsed
  generalize m.advanceExecutions elapsed = executions at hadvances ⊢
  generalize m.advance elapsed = outcome at hadvances ⊢
  cases hadvances with
  | empty _ => exact hR.mode m m.mode m.previousMode
  | stopped _ => exact hpass m elapsed
  | early _ _ => exact hR.trans (hcycle m _) (hpass _ elapsed)
  | breakpoint _ _ _ =>
    exact hR.trans hdue (hR.trans (hR.setMode m.due .step) (hpass _ elapsed))
  | executed hm _ _ hfault =>
    have hne : m.due.mode ≠ .empty := by simp [due, hm]
    have hstep := hR.step m.due
    rw [stepExecutions, if_neg hne, step_of_fault_eq_none hne hfault] at hstep
    exact hR.trans hdue (hR.trans hstep (hpass _ elapsed))
  | failed hm _ _ hfault =>
    have hne : m.due.mode ≠ .empty := by simp [due, hm]
    have hstep := hR.step m.due
    rw [stepExecutions, if_neg hne, step_of_fault_eq_some hne hfault] at hstep
    exact hR.trans hdue hstep

-- Back comes last and resets whatever the other keys left.
theorem control (m : Machine) (pressed : List HostKey) :
    ∃ after, R m (m.controlExecutions pressed) after ∧
      m.control pressed = if "Back" ∈ pressed then after.reset else after := by
  have hspace : R m (if "Space" ∈ pressed then m.spaceExecutions else [])
      (if "Space" ∈ pressed then m.pressSpace else m) := by
    split
    · exact hR.pressSpace m
    · exact hR.mode m m.mode m.previousMode
  have htab (m : Machine) : R m (if "Tab" ∈ pressed then m.tabExecutions else [])
      (if "Tab" ∈ pressed then m.pressTab else m) := by
    split
    · exact hR.pressTab m
    · exact hR.mode m m.mode m.previousMode
  exact ⟨_, hR.trans hspace (htab _), rfl⟩

end Joined

end Machine

end Chip8
