import Chip8.Proofs.Machine.Executions

namespace Chip8.Machine

theorem zero_lt_second : 0 < 1000000000 := by decide

theorem zero_lt_tickPeriod : 0 < tickPeriod := by decide

-- Kept by all that updates and control keys are made of. No clock that is kept past an update
-- reads a second or, for the timers, a period.
structure Stable (P : Machine → Prop) : Prop where
  mode {m : Machine} (mode previousMode : Mode) : P m → P { m with mode, previousMode }
  step {m : Machine} : P m → P m.step.machine
  tick {m : Machine} : P m → P m.tick
  playTone {m : Machine} : P m → P m.playTone
  reset {m : Machine} : P m → P m.reset
  cycleTime {m : Machine} {time : Nat} (h : time < 1000000000) :
    P m → P { m with cycleTime := time }
  timerTime {m : Machine} {time : Nat} (h : time < tickPeriod) :
    P m → P { m with timerTime := time }
  updatedAt {m : Machine} (now : Nat) : P m → P { m with updatedAt := some now }

namespace Stable

variable {P : Machine → Prop} (hP : Stable P) {m : Machine}

include hP

theorem joined : Joined fun m _ after => P m → P after where
  mode _ mode previousMode := hP.mode mode previousMode
  step _ := hP.step
  trans hfirst hsecond h := hsecond (hfirst h)

-- No period is longer than a second, so that what is left of one is shorter.
theorem cycle (h : P m) (elapsed : Nat) : P (m.cycle elapsed).machine := by
  have hzero : P m.due := hP.cycleTime zero_lt_second h
  by_cases hdue : m.IsDueAfter elapsed
  · rw [cycle_of_due hdue]
    split
    · exact hP.joined.setMode m.due .step hzero
    · exact hP.step hzero
  · have hlt : m.cycleTime + elapsed < m.config.processor.cyclePeriod :=
      Nat.lt_of_not_le fun hle => hdue (.inr hle)
    rw [cycle_of_not_due hdue]
    exact hP.cycleTime (Nat.lt_of_lt_of_le hlt (Nat.div_le_self _ _)) h

theorem ticks (h : P m) (count : Nat) : P (Machine.ticks count m) := by
  induction count generalizing m with
  | zero => exact h
  | succ count ih =>
    rw [ticks_succ]
    exact ih (hP.tick h)

theorem passTime (h : P m) (elapsed : Nat) : P (m.passTime elapsed) :=
  hP.ticks (hP.timerTime (Nat.mod_lt _ zero_lt_tickPeriod) h) _

theorem advance (h : P m) (elapsed : Nat) : P (m.advance elapsed).machine := by
  unfold Machine.advance
  split
  · exact h
  · simp only
    split
    · exact hP.playTone (hP.passTime (hP.cycle h elapsed) elapsed)
    · exact hP.cycle h elapsed
  · exact hP.playTone (hP.passTime h elapsed)

theorem update (h : P m) (now : Nat) : P (m.update now).machine :=
  hP.advance (hP.updatedAt now h) _

theorem pause (h : P m) : P m.pause := hP.joined.pause m h

theorem resume (h : P m) : P m.resume := hP.joined.resume m h

theorem control (h : P m) (pressed : List HostKey) : P (m.control pressed) := by
  obtain ⟨after, hafter, hcontrol⟩ := hP.joined.control m pressed
  rw [hcontrol]
  split
  · exact hP.reset (hafter h)
  · exact hafter h

end Stable

-- A part of a machine that no instruction reaches, and no program that comes or goes.
structure Untouched {α : Type} (part : Machine → α) : Prop where
  perform (m : Machine) (i : Instruction) : part (m.perform i).machine = part m
  fetched (m : Machine) : part m.fetched = part m
  mode (m : Machine) (mode previousMode : Mode) : part { m with mode, previousMode } = part m
  restarted (m : Machine) (memory : Memory) (programSize : Nat) :
    part { m with memory, programSize }.reset = part m

namespace Untouched

variable {α : Type} {part : Machine → α} (hpart : Untouched part) (m : Machine)

include hpart

theorem setMode (mode : Mode) : part (m.setMode mode) = part m := by
  rw [setMode_eq, hpart.mode]

theorem execute (opcode : UInt16) : part (m.execute opcode).machine = part m := by
  cases hi : m.instruction? opcode with
  | none => rw [execute_of_eq_none hi, machine_fail]
  | some i => rw [execute_of_eq_some hi, hpart.perform]

theorem step : part m.step.machine = part m := by
  by_cases hm : m.mode = .empty
  · rw [Machine.step, if_pos hm, machine_done]
  · obtain ⟨mode, previousMode, hstep⟩ := machine_step_eq hm
    calc part m.step.machine
        = part (m.fetched.execute m.nextOpcode).machine := by rw [hstep, hpart.mode]
      _ = part m.fetched := hpart.execute m.fetched m.nextOpcode
      _ = part m := hpart.fetched m

theorem unload : part m.unload = part m := by
  rw [Machine.unload, hpart.setMode, hpart.restarted]

theorem load (program : List UInt8) : part (m.orKeep (m.load program)).machine = part m := by
  unfold Machine.load
  split
  · rfl
  · exact hpart.restarted m _ _

theorem loadFile (content : Except Files.Error (List UInt8)) :
    part (m.orKeep (m.loadFile content)).machine = part m := by
  cases content with
  | ok program => exact hpart.load m program
  | error cause => rfl

end Untouched

end Chip8.Machine
