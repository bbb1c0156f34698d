import Chip8.Proofs.Machine.Executions

namespace Chip8

-- Outcomes that leave related machines behind and fail for the same reason, if they fail.
structure Outcome.Related (R : Machine → Machine → Prop) (o o' : Outcome) : Prop where
  machine : R o.machine o'.machine
  fault : o'.fault = o.fault

namespace Machine

theorem done_related {R : Machine → Machine → Prop} {m m' : Machine} (h : R m m') :
    m.done.Related R m'.done :=
  ⟨h, rfl⟩

-- All that decides which way a step or an update goes.
structure SamePace (m m' : Machine) : Prop where
  nextOpcode : m'.nextOpcode = m.nextOpcode
  mode : m'.mode = m.mode
  previousMode : m'.previousMode = m.previousMode
  processor : m'.config.processor = m.config.processor
  breakpoint : m'.breakpoints.has m'.registers.pc = m.breakpoints.has m.registers.pc
  cycleTime : m'.cycleTime = m.cycleTime
  timerTime : m'.timerTime = m.timerTime

-- Kept by all that steps, updates and control keys are made of.
structure Bisimulation (R : Machine → Machine → Prop) : Prop where
  samePace {m m' : Machine} : R m m' → m.SamePace m'
  mode {m m' : Machine} (mode previousMode : Mode) :
    R m m' → R { m with mode, previousMode } { m' with mode, previousMode }
  fetched {m m' : Machine} : R m m' → R m.fetched m'.fetched
  execute {m m' : Machine} (opcode : UInt16) :
    R m m' → (m.execute opcode).Related R (m'.execute opcode)
  tick {m m' : Machine} : R m m' → R m.tick m'.tick
  playTone {m m' : Machine} : R m m' → R m.playTone m'.playTone
  reset {m m' : Machine} : R m m' → R m.reset m'.reset
  cycleTime {m m' : Machine} (cycleTime : Nat) :
    R m m' → R { m with cycleTime } { m' with cycleTime }
  timerTime {m m' : Machine} (timerTime : Nat) :
    R m m' → R { m with timerTime } { m' with timerTime }
  updatedAt {m m' : Machine} (updatedAt : Option Nat) :
    R m m' → R { m with updatedAt } { m' with updatedAt }

namespace Bisimulation

variable {R : Machine → Machine → Prop} (hR : Bisimulation R) {m m' : Machine}

include hR

theorem setMode (h : R m m') (mode : Mode) : R (m.setMode mode) (m'.setMode mode) := by
  have hpace := hR.samePace h
  rw [setMode_eq, setMode_eq, hpace.mode, hpace.previousMode]
  exact hR.mode mode _ h

theorem step (h : R m m') : m.step.Related R m'.step := by
  have hpace := hR.samePace h
  by_cases hm : m.mode = .empty
  · rw [Machine.step, Machine.step, if_pos hm, if_pos (hpace.mode.trans hm)]
    exact ⟨h, rfl⟩
  · have hm' : m'.mode ≠ .empty := hpace.mode ▸ hm
    have hexecute := hR.execute m.nextOpcode (hR.fetched h)
    have hfault : (m'.fetched.execute m'.nextOpcode).fault =
        (m.fetched.execute m.nextOpcode).fault := by
      rw [hpace.nextOpcode]
      exact hexecute.fault
    cases hreason : (m.fetched.execute m.nextOpcode).fault with
    | none =>
      rw [step_of_fault_eq_none hm hreason, step_of_fault_eq_none hm' (hfault.trans hreason),
        hpace.nextOpcode]
      exact hexecute
    | some fault =>
      rw [step_of_fault_eq_some hm hreason, step_of_fault_eq_some hm' (hfault.trans hreason)]
      exact ⟨hR.setMode (hR.fetched h) .paused, rfl⟩

theorem pause (h : R m m') : R m.pause m'.pause := by
  unfold Machine.pause
  rw [(hR.samePace h).mode]
  cases m.mode with
  | run | step => exact hR.setMode h .paused
  | empty | paused => exact h

theorem resume (h : R m m') : R m.resume m'.resume := by
  have hpace := hR.samePace h
  unfold Machine.resume
  rw [hpace.mode, hpace.previousMode]
  split
  · exact hR.setMode h m.previousMode
  · exact h

theorem isDueAfter_iff (h : R m m') (elapsed : Nat) :
    m'.IsDueAfter elapsed ↔ m.IsDueAfter elapsed := by
  have hpace := hR.samePace h
  rw [IsDueAfter, IsDueAfter, hpace.processor, hpace.cycleTime]

theorem cycle (h : R m m') (elapsed : Nat) :
    (m.cycle elapsed).Related R (m'.cycle elapsed) := by
  have hpace := hR.samePace h
  have hzero : R m.due m'.due := hR.cycleTime 0 h
  by_cases hdue : m.IsDueAfter elapsed
  · have hdue' := (hR.isDueAfter_iff h elapsed).mpr hdue
    rw [cycle_of_due hdue, cycle_of_due hdue', hpace.breakpoint]
    split
    · exact ⟨hR.setMode hzero .step, rfl⟩
    · exact hR.step hzero
  · have hdue' := mt (hR.isDueAfter_iff h elapsed).mp hdue
    rw [cycle_of_not_due hdue, cycle_of_not_due hdue', hpace.cycleTime]
    exact ⟨hR.cycleTime _ h, rfl⟩

theorem ticks (h : R m m') (count : Nat) :
    R (Machine.ticks count m) (Machine.ticks count m') := by
  induction count generalizing m m' with
  | zero => exact h
  | succ count ih =>
    rw [ticks_succ, ticks_succ]
    exact ih (hR.tick h)

-- The time that passes once the instruction is done.
theorem pass (h : R m m') (elapsed : Nat) :
    R (m.passTime elapsed).playTone (m'.passTime elapsed).playTone := by
  unfold passTime
  rw [(hR.samePace h).timerTime]
  exact hR.playTone (hR.ticks (hR.timerTime _ h) _)

theorem advance (h : R m m') (elapsed : Nat) :
    (m.advance elapsed).Related R (m'.advance elapsed) := by
  have hmode := (hR.samePace h).mode
  cases hm : m.mode with
  | empty =>
    simp only [Machine.advance, hmode, hm]
    exact ⟨h, rfl⟩
  | step | paused =>
    simp only [Machine.advance, hmode, hm]
    exact ⟨hR.pass h elapsed, rfl⟩
  | run =>
    have hcycle := hR.cycle h elapsed
    rw [hm] at hmode
    cases hfault : (m.cycle elapsed).fault with
    | none =>
      rw [advance_of_fault_eq_none hm hfault,
        advance_of_fault_eq_none hmode (hcycle.fault.trans hfault)]
      exact ⟨hR.pass hcycle.machine elapsed, rfl⟩
    | some fault =>
      rw [advance_of_fault_eq_some hm hfault,
        advance_of_fault_eq_some hmode (hcycle.fault.trans hfault)]
      exact hcycle

theorem update (h : R m m') (hclock : m'.updatedAt = m.updatedAt) (now : Nat) :
    (m.update now).Related R (m'.update now) := by
  unfold Machine.update
  rw [hclock]
  exact hR.advance (hR.updatedAt (some now) h) _

theorem continueRunning (h : R m m') : R m.continueRunning m'.continueRunning := by
  have hstep := hR.step h
  unfold Machine.continueRunning
  simp only [hstep.fault]
  cases m.step.fault with
  | some fault => exact hstep.machine
  | none =>
    simp only [(hR.samePace hstep.machine).mode]
    split
    · exact hR.setMode hstep.machine .run
    · exact hstep.machine

theorem pressSpace (h : R m m') : R m.pressSpace m'.pressSpace := by
  unfold Machine.pressSpace
  rw [(hR.samePace h).mode]
  cases m.mode with
  | empty => exact h
  | run => exact hR.pause h
  | paused => exact hR.resume h
  | step => exact hR.continueRunning h

theorem pressTab (h : R m m') : R m.pressTab m'.pressTab := by
  unfold Machine.pressTab
  rw [(hR.samePace h).mode]
  cases m.mode with
  | empty | run => exact h
  | paused | step => exact (hR.step h).machine

theorem control (h : R m m') (pressed : List HostKey) :
    R (m.control pressed) (m'.control pressed) := by
  have hspace : R (if "Space" ∈ pressed then m.pressSpace else m)
      (if "Space" ∈ pressed then m'.pressSpace else m') := by
    split
    · exact hR.pressSpace h
    · exact h
  have htab {m m' : Machine} (h : R m m') : R (if "Tab" ∈ pressed then m.pressTab else m)
      (if "Tab" ∈ pressed then m'.pressTab else m') := by
    split
    · exact hR.pressTab h
    · exact h
  unfold Machine.control
  simp only
  split
  · exact hR.reset (htab hspace)
  · exact htab hspace

end Bisimulation

end Machine

end Chip8
