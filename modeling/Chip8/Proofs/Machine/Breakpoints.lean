import Chip8.Proofs.Machine.Executions
import Chip8.Proofs.Machine.Settings

namespace Chip8

theorem Beeper.play_eq (b : Beeper) : ∃ position queue, b.play = { b with position, queue } :=
  ⟨_, _, rfl⟩

namespace Machine

-- Advances by no time and, where that stopped at a breakpoint, continues.
def round (m : Machine) : Machine :=
  let after := (m.advance 0).machine
  if after.mode = .step then after.continueRunning else after

-- The first machine is the second one but for its breakpoints, the mode that it was in before
-- this one and how much of the tone it has synthesised.
def Alike (breakpoints : Breakpoints) (stopping m : Machine) : Prop :=
  ∃ previousMode position queue, stopping =
    { m with breakpoints, previousMode, beeper := { m.beeper with position, queue } }

-- What a machine without breakpoints keeps while it is driven by updates that take no time.
structure Driven (m : Machine) : Prop where
  breakpoints : m.breakpoints = .empty
  uncapped : m.config.processor.uncapped = true
  timerTime_lt : m.timerTime < tickPeriod
  mode_ne : m.mode ≠ .step

variable {breakpoints : Breakpoints} {stopping m : Machine}

theorem passTime_zero (h : m.timerTime < tickPeriod) : m.passTime 0 = m := by
  have hticks : (m.timerTime + 0) / tickPeriod = 0 := Nat.div_eq_of_lt h
  have htime : (m.timerTime + 0) % tickPeriod = m.timerTime := Nat.mod_eq_of_lt h
  simp only [passTime, hticks, htime]
  rfl

theorem playTone_eq (m : Machine) : ∃ position queue,
    m.playTone = { m with beeper := { m.beeper with position, queue } } := by
  unfold playTone
  split
  · obtain ⟨position, queue, h⟩ := Beeper.play_eq m.beeper
    exact ⟨position, queue, by rw [h]⟩
  · exact ⟨m.beeper.position, m.beeper.queue, rfl⟩

-- A machine that does not run stays as it is while no time passes.
theorem advance_zero_of_mode_ne (ht : m.timerTime < tickPeriod) (hm : m.mode ≠ .run) :
    m.advance 0 = m.done := by
  unfold advance
  split
  · rfl
  · exact absurd ‹m.mode = .run› hm
  · rw [passTime_zero ht, playTone_of_mode_ne hm]

theorem advance_zero_of_run (hm : m.mode = .run) (hu : m.config.processor.uncapped = true) :
    m.advance 0 =
      let after :=
        if m.breakpoints.has m.registers.pc then (m.due.setMode .step).done else m.due.step
      match after.fault with
      | none => (after.machine.passTime 0).playTone.done
      | some _ => after := by
  have hdue : m.IsDueAfter 0 := .inl hu
  rw [← cycle_of_due hdue]
  cases hfault : (m.cycle 0).fault with
  | none => simp only [advance_of_fault_eq_none hm hfault, hfault]
  | some fault => simp only [advance_of_fault_eq_some hm hfault, hfault]

-- A breakpoint stops the machine before the instruction under it.
theorem advance_zero_of_has (hm : m.mode = .run) (hu : m.config.processor.uncapped = true)
    (ht : m.timerTime < tickPeriod) (hb : m.breakpoints.has m.registers.pc = true) :
    m.advance 0 = (m.due.setMode .step).done := by
  have hmode : (m.due.setMode .step).mode = .step := by rw [setMode_eq]
  have htime : (m.due.setMode .step).timerTime < tickPeriod := by
    rw [setMode_eq]
    exact ht
  rw [advance_zero_of_run hm hu]
  simp only [hb, if_true, fault_done, machine_done]
  rw [passTime_zero htime, playTone_of_mode_ne (by rw [hmode]; decide)]

namespace Alike

theorem refl (m : Machine) : Alike m.breakpoints m m :=
  ⟨m.previousMode, m.beeper.position, m.beeper.queue, rfl⟩

theorem trans {first second : Breakpoints} {third : Machine}
    (h : Alike first stopping m) (h' : Alike second m third) : Alike first stopping third := by
  obtain ⟨previousMode, position, queue, rfl⟩ := h
  obtain ⟨_, _, _, rfl⟩ := h'
  exact ⟨previousMode, position, queue, rfl⟩

theorem symm (h : Alike breakpoints stopping m) : Alike m.breakpoints m stopping := by
  obtain ⟨_, _, _, rfl⟩ := h
  exact ⟨m.previousMode, m.beeper.position, m.beeper.queue, rfl⟩

theorem mode_eq (h : Alike breakpoints stopping m) : stopping.mode = m.mode := by
  obtain ⟨_, _, _, rfl⟩ := h
  rfl

theorem playTone (m : Machine) : Alike m.breakpoints m.playTone m := by
  obtain ⟨position, queue, h⟩ := m.playTone_eq
  exact ⟨m.previousMode, position, queue, h⟩

theorem setMode (h : Alike breakpoints stopping m) (mode : Mode) :
    Alike breakpoints (stopping.setMode mode) (m.setMode mode) := by
  obtain ⟨_, position, queue, rfl⟩ := h
  simp only [setMode_eq]
  exact ⟨_, position, queue, rfl⟩

theorem unload (h : Alike breakpoints stopping m) :
    Alike breakpoints stopping.unload m.unload := by
  apply setMode
  obtain ⟨previousMode, position, queue, rfl⟩ := h
  exact ⟨previousMode, position, queue, rfl⟩

theorem fetched (h : Alike breakpoints stopping m) :
    Alike breakpoints stopping.fetched m.fetched := by
  obtain ⟨previousMode, position, queue, rfl⟩ := h
  exact ⟨previousMode, position, queue, rfl⟩

-- Neither breakpoints nor the mode before this one nor the tone matter to a step.
theorem step (h : Alike breakpoints stopping m) (hm : m.mode ≠ .empty) :
    Alike breakpoints stopping.step.machine m.step.machine := by
  have hmode : stopping.mode ≠ .empty := by rwa [h.mode_eq]
  have hwithin : stopping = m.within stopping := by
    obtain ⟨_, _, _, rfl⟩ := h
    rfl
  have hfetched : m.fetched.within stopping = stopping.fetched :=
    (congrArg Machine.fetched hwithin).symm
  have hstopping := congrArg Machine.step hwithin
  rcases m.step_within_cases with ⟨fault, hstep⟩ | hstep | ⟨after, hstep⟩
  · have hfree : m.step = (m.fetched.setMode .paused).fail fault := hstep m hm
    rw [hstopping, hstep stopping hmode, hfree, hfetched]
    exact h.fetched.setMode .paused
  · have hfree : m.step = m.fetched.unload.done := hstep m hm
    rw [hstopping, hstep stopping hmode, hfree, hfetched]
    exact h.fetched.unload
  · have hfree : m.step = (after.within m).done := hstep m hm
    rw [hstopping, hstep stopping hmode, hfree]
    obtain ⟨previousMode, position, queue, rfl⟩ := h
    exact ⟨previousMode, position, queue, rfl⟩

end Alike

-- A running machine that is stopped and continued ends as a step would leave it.
theorem alike_continueRunning (hm : m.mode = .run) :
    Alike m.breakpoints (m.setMode .step).continueRunning m.step.machine := by
  let stopped : Machine := { m with mode := .step, previousMode := .run }
  have hstopped : m.setMode .step = stopped := by
    rw [setMode_eq]
    simp [stopped, hm]
  have hne : stopped.mode ≠ .empty := by simp [stopped]
  have hne' : m.mode ≠ .empty := by simp [hm]
  rw [hstopped, continueRunning]
  rcases m.step_within_cases with ⟨fault, hstep⟩ | hstep | ⟨after, hstep⟩
  · have hfree : m.step = (m.fetched.setMode .paused).fail fault := hstep m hne'
    have hstep : stopped.step = ((m.fetched.within stopped).setMode .paused).fail fault :=
      hstep stopped hne
    simp only [hfree, hstep, fault_fail, machine_fail, setMode_eq]
    exact ⟨_, _, _, rfl⟩
  · have hfree : m.step = m.fetched.unload.done := hstep m hne'
    have hstep : stopped.step = (m.fetched.within stopped).unload.done := hstep stopped hne
    simp only [hfree, hstep, fault_done, machine_done, unload, setMode_eq]
    exact ⟨_, _, _, rfl⟩
  · have hfree : m.step = (after.within m).done := hstep m hne'
    have hstep : stopped.step = (after.within stopped).done := hstep stopped hne
    have hrunning : (after.within stopped).setMode .run =
        { after.within m with previousMode := .step } := by
      rw [setMode_eq, ← hm]
      simp [within, stopped, hm]
    simp only [hfree, hstep, fault_done, machine_done, hrunning]
    exact ⟨.step, _, _, rfl⟩

theorem timerTime_step_lt (h : m.timerTime < tickPeriod) :
    m.step.machine.timerTime < tickPeriod := by
  rcases m.surroundings_step.2 with ⟨-, htime⟩ | ⟨-, htime⟩
  · rw [htime]
    decide
  · rwa [htime]

theorem mode_step_ne (h : m.mode ≠ .step) : m.step.machine.mode ≠ .step := by
  rcases m.surroundings_step.2 with ⟨hmode, -⟩ | ⟨hmode | hmode, -⟩ <;> simp [hmode, h]

section

variable (hm : m.mode = .run) (hu : m.config.processor.uncapped = true)
  (ht : m.timerTime < tickPeriod)

include hm hu ht

theorem alike_advance_zero (hb : m.breakpoints.has m.registers.pc = false) :
    Alike m.breakpoints (m.advance 0).machine m.due.step.machine := by
  have hbreakpoints : m.due.step.machine.breakpoints = m.breakpoints := m.due.surroundings_step.1
  have htime : m.due.step.machine.timerTime < tickPeriod := timerTime_step_lt (m := m.due) ht
  rw [advance_zero_of_run hm hu, ← hbreakpoints]
  simp only [hbreakpoints, hb]
  cases hfault : m.due.step.fault with
  | none =>
    simp only [Bool.false_eq_true, if_false, hfault, machine_done, passTime_zero htime]
    rw [← hbreakpoints]
    exact Alike.playTone _
  | some fault =>
    simp only [Bool.false_eq_true, if_false, hfault]
    rw [← hbreakpoints]
    exact Alike.refl _

theorem round_of_not_has (hb : m.breakpoints.has m.registers.pc = false) :
    m.round = (m.advance 0).machine := by
  have hmode : (m.advance 0).machine.mode ≠ .step := by
    rw [(alike_advance_zero hm hu ht hb).mode_eq]
    exact mode_step_ne (m := m.due) (by simp [due, hm])
  rw [round, if_neg hmode]

-- However a round goes, it executes one instruction.
theorem alike_round : Alike m.breakpoints m.round m.due.step.machine := by
  cases hb : m.breakpoints.has m.registers.pc with
  | false =>
    rw [round_of_not_has hm hu ht hb]
    exact alike_advance_zero hm hu ht hb
  | true =>
    have hmode : (m.due.setMode .step).mode = .step := by rw [setMode_eq]
    rw [round, advance_zero_of_has hm hu ht hb, machine_done, if_pos hmode]
    exact alike_continueRunning (m := m.due) hm

end

theorem round_of_mode_ne (ht : m.timerTime < tickPeriod) (hm : m.mode ≠ .run)
    (hm' : m.mode ≠ .step) : m.round = m := by
  rw [round, advance_zero_of_mode_ne ht hm, machine_done, if_neg hm']

namespace Driven

theorem round_eq (h : m.Driven) : m.round = (m.advance 0).machine := by
  by_cases hm : m.mode = .run
  · have hb : m.breakpoints.has m.registers.pc = false := by
      rw [h.breakpoints]
      rfl
    exact round_of_not_has hm h.uncapped h.timerTime_lt hb
  · rw [round_of_mode_ne h.timerTime_lt hm h.mode_ne,
      advance_zero_of_mode_ne h.timerTime_lt hm, machine_done]

theorem round (h : m.Driven) : m.round.Driven := by
  by_cases hm : m.mode = .run
  · have hne : m.due.mode ≠ .step := by simp [due, hm]
    obtain ⟨previousMode, position, queue, hround⟩ :=
      alike_round hm h.uncapped h.timerTime_lt
    rw [hround]
    refine ⟨h.breakpoints, ?_, timerTime_step_lt (m := m.due) h.timerTime_lt, mode_step_ne hne⟩
    simp only [config_step]
    exact h.uncapped
  · rwa [round_of_mode_ne h.timerTime_lt hm h.mode_ne]

end Driven

-- One round of a machine with breakpoints against one without.
theorem Alike.round (h : Alike breakpoints stopping m) (hd : m.Driven) :
    Alike breakpoints stopping.round m.round := by
  have hmode := h.mode_eq
  have htime : stopping.timerTime < tickPeriod := by
    obtain ⟨_, _, _, rfl⟩ := h
    exact hd.timerTime_lt
  have hbreakpoints : stopping.breakpoints = breakpoints := by
    obtain ⟨_, _, _, rfl⟩ := h
    rfl
  by_cases hm : m.mode = .run
  · have hu : stopping.config.processor.uncapped = true := by
      obtain ⟨_, _, _, rfl⟩ := h
      exact hd.uncapped
    have hdue : Alike breakpoints stopping.due m.due := by
      obtain ⟨previousMode, position, queue, rfl⟩ := h
      exact ⟨previousMode, position, queue, rfl⟩
    have hfirst := alike_round (hmode.trans hm) hu htime
    have hsecond := (alike_round hm hd.uncapped hd.timerTime_lt).symm
    rw [hbreakpoints] at hfirst
    exact (hfirst.trans (hdue.step (by simp [due, hm]))).trans hsecond
  · rw [round_of_mode_ne htime (by rwa [hmode]) (by rw [hmode]; exact hd.mode_ne),
      round_of_mode_ne hd.timerTime_lt hm hd.mode_ne]
    exact h

-- After any number of rounds a machine with breakpoints is where one without them is. Where one
-- of the two was stopped, by a fault or by `00FD`, so was the other.
theorem alike_repeat_round (m : Machine) (breakpoints : Breakpoints) (hm : m.mode = .run)
    (hu : m.config.processor.uncapped = true) (ht : m.timerTime < tickPeriod) (rounds : Nat) :
    let stopping := Nat.repeat round rounds { m with breakpoints }
    let free := Nat.repeat (fun m => (m.advance 0).machine) rounds { m with breakpoints := .empty }
    Alike breakpoints stopping free ∧
      (free.mode = .run ∨ free.mode = .paused ∨ free.mode = .empty) := by
  intro stopping free
  have hrounds : Alike breakpoints stopping free ∧ free.Driven := by
    induction rounds with
    | zero =>
      refine ⟨⟨m.previousMode, m.beeper.position, m.beeper.queue, rfl⟩, ⟨rfl, hu, ht, ?_⟩⟩
      simp [free, Nat.repeat, hm]
    | succ rounds ih =>
      obtain ⟨halike, hdriven⟩ := ih
      have hround := halike.round hdriven
      have hdriven' := hdriven.round
      rw [hdriven.round_eq] at hround hdriven'
      exact ⟨hround, hdriven'⟩
  refine ⟨hrounds.1, ?_⟩
  have hmode := hrounds.2.mode_ne
  cases h : free.mode <;> simp_all

-- A breakpoint on a jump to itself, met in every round.
theorem alike_of_breakpoint_on_loop :
    let m := (new (.standard 0)).run
      [.load [0x12, 0x00], .setProcessor { Processor.standard 0 with uncapped := true },
        .setMode .run]
    let loop : Breakpoints := .add .empty ⟨"loop", 0x200⟩
    m.mode = .run ∧ m.config.processor.uncapped = true ∧ m.timerTime < tickPeriod ∧
      loop.has m.registers.pc = true ∧
      Alike loop (Nat.repeat round 3 { m with breakpoints := loop })
        (Nat.repeat (fun m => (m.advance 0).machine) 3 { m with breakpoints := .empty }) := by
  intro m loop
  have hm : m.mode = .run := by decide
  have hu : m.config.processor.uncapped = true := by decide
  have ht : m.timerTime < tickPeriod := by decide
  exact ⟨hm, hu, ht, by decide, (alike_repeat_round m loop hm hu ht 3).1⟩

end Machine

end Chip8
