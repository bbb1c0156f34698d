import Chip8.Proofs.Machine.Surroundings
import Chip8.Proofs.Machine.WellFormed

namespace Chip8

-- The time that an operation lets pass.
def Operation.elapsed : Operation → Nat
  | .advance elapsed => elapsed
  | _ => 0

-- The time that a run lets pass.
def Operation.totalElapsed (operations : List Operation) : Nat :=
  operations.foldr (·.elapsed + ·) 0

-- Nothing here sets the clock of the timers back or reads another clock.
def Operation.LeavesClock : Operation → Prop
  | .load _ | .loadFile _ | .unload | .reset | .update _ | .control _ => False
  | _ => True

namespace Machine

-- Ticks for as long as a whole period is pending. The number of ticks comes with the machine.
def tickWhileDue {period : Nat} (hp : 0 < period) (m : Machine) : Nat × Machine :=
  if period ≤ m.timerTime then
    let (count, after) := tickWhileDue hp { m.tick with timerTime := m.timerTime - period }
    (count + 1, after)
  else (0, m)
termination_by m.timerTime

-- An update with the number of its ticks.
def advanceCounting (m : Machine) (elapsed : Nat) : Nat × Outcome :=
  let passTime (m : Machine) : Nat × Outcome :=
    let (count, after) :=
      tickWhileDue zero_lt_tickPeriod { m with timerTime := m.timerTime + elapsed }
    (count, after.playTone.done)
  match m.mode with
  | .empty => (0, m.done)
  | .run =>
    let after := m.cycle elapsed
    match after.fault with
    | none => passTime after.machine
    | some _ => (0, after)
  | _ => passTime m

def applyCounting (m : Machine) : Operation → Nat × Outcome
  | .advance elapsed => m.advanceCounting elapsed
  | .update now =>
    let elapsed := m.updatedAt.elim 0 (now - ·)
    { m with updatedAt := some now }.advanceCounting elapsed
  | operation => (0, m.apply operation)

-- A run with the number of its ticks.
def runCounting (m : Machine) : List Operation → Nat × Machine
  | [] => (0, m)
  | operation :: rest =>
    let (count, after) := m.applyCounting operation
    let (total, last) := after.machine.runCounting rest
    (count + total, last)

-- A run through which a program stays loaded, its clock is left alone and nothing fails.
def Timely (m : Machine) : List Operation → Prop
  | [] => m.mode ≠ .empty
  | operation :: rest =>
    m.mode ≠ .empty ∧ operation.LeavesClock ∧ (m.apply operation).fault = none ∧
      (m.apply operation).machine.Timely rest

variable {m : Machine}

-- Ticks do not read the clock that brings them.
theorem ticks_withTimerTime (count time : Nat) (m : Machine) :
    ticks count { m with timerTime := time } = { ticks count m with timerTime := time } := by
  induction count generalizing m with
  | zero => rfl
  | succ count ih =>
    rw [ticks_succ, ticks_succ]
    exact ih m.tick

theorem ticks_add (first second : Nat) (m : Machine) :
    ticks (first + second) m = ticks second (ticks first m) := by
  induction first generalizing m with
  | zero => rw [Nat.zero_add, ticks]
  | succ first ih => rw [Nat.succ_add, ticks_succ, ticks_succ, ih]

theorem mode_ticks (count : Nat) (m : Machine) : (ticks count m).mode = m.mode := by
  obtain ⟨registers, display, h⟩ := ticks_eq count m
  rw [h]

theorem toNat_countdown (timer : UInt8) :
    (if timer = 0 then 0 else timer - 1).toNat = timer.toNat - 1 := by
  split
  case isTrue h => simp [h]
  case isFalse h =>
    have hpos : 1 ≤ timer := by
      rw [UInt8.le_iff_toNat_le]
      exact Nat.one_le_iff_ne_zero.mpr fun hzero => h (UInt8.toNat.inj hzero)
    exact UInt8.toNat_sub_of_le _ _ hpos

-- The timers count down to zero and stop there.
theorem timers_ticks (count : Nat) (m : Machine) :
    (ticks count m).registers.delay.toNat = m.registers.delay.toNat - count ∧
      (ticks count m).registers.sound.toNat = m.registers.sound.toNat - count := by
  induction count generalizing m with
  | zero => exact ⟨rfl, rfl⟩
  | succ count ih =>
    have hdelay : m.tick.registers.delay.toNat = m.registers.delay.toNat - 1 :=
      toNat_countdown m.registers.delay
    have hsound : m.tick.registers.sound.toNat = m.registers.sound.toNat - 1 :=
      toNat_countdown m.registers.sound
    rw [ticks_succ, (ih m.tick).1, (ih m.tick).2, hdelay, hsound]
    omega

theorem tickWhileDue_eq {period : Nat} (hp : 0 < period) (m : Machine) :
    tickWhileDue hp m = (m.timerTime / period,
      ticks (m.timerTime / period) { m with timerTime := m.timerTime % period }) := by
  fun_induction tickWhileDue hp m with
  | case1 m hdue count after hrest ih =>
    rw [hrest] at ih
    obtain ⟨rfl, rfl⟩ := Prod.mk.inj ih
    rw [Nat.div_eq_sub_div hp hdue, ticks_succ, Nat.mod_eq_sub_mod hdue]
    rfl
  | case2 m hdue =>
    have hlt : m.timerTime < period := Nat.lt_of_not_le hdue
    rw [Nat.div_eq_of_lt hlt, Nat.mod_eq_of_lt hlt]
    rfl

theorem tickWhileDue_passTime (m : Machine) (elapsed : Nat) :
    tickWhileDue zero_lt_tickPeriod { m with timerTime := m.timerTime + elapsed } =
      ((m.timerTime + elapsed) / tickPeriod, m.passTime elapsed) :=
  tickWhileDue_eq zero_lt_tickPeriod { m with timerTime := m.timerTime + elapsed }

theorem passTime_eq (m : Machine) (elapsed : Nat) :
    m.passTime elapsed =
      { ticks ((m.timerTime + elapsed) / tickPeriod) m with
        timerTime := (m.timerTime + elapsed) % tickPeriod } :=
  ticks_withTimerTime _ _ m

theorem timerTime_playTone (m : Machine) : m.playTone.timerTime = m.timerTime := by
  unfold playTone
  split <;> rfl

-- Counting changes nothing.

theorem snd_advanceCounting (m : Machine) (elapsed : Nat) :
    (m.advanceCounting elapsed).2 = m.advance elapsed := by
  unfold advanceCounting advance
  simp only [tickWhileDue_passTime]
  cases m.mode with
  | run => cases (m.cycle elapsed).fault <;> rfl
  | empty | step | paused => rfl

theorem snd_applyCounting (m : Machine) (operation : Operation) :
    (m.applyCounting operation).2 = m.apply operation := by
  cases operation with
  | advance elapsed => exact m.snd_advanceCounting elapsed
  | update now => exact snd_advanceCounting { m with updatedAt := some now } _
  | _ => rfl

theorem snd_runCounting (m : Machine) (operations : List Operation) :
    (m.runCounting operations).2 = m.run operations := by
  induction operations generalizing m with
  | nil => rfl
  | cons operation rest ih =>
    simp only [runCounting, snd_applyCounting, ih]
    rfl

-- The instruction of an update leaves the clock of the timers alone or empties the machine.
theorem timerTime_cycle (m : Machine) (elapsed : Nat) :
    (m.cycle elapsed).machine.mode = .empty ∨
      (m.cycle elapsed).machine.timerTime = m.timerTime := by
  unfold cycle
  simp only
  split
  · split
    · rw [machine_done, setMode_eq]
      exact .inr rfl
    · rcases (surroundings_step { m with cycleTime := 0 }).2 with ⟨hmode, -⟩ | ⟨-, htime⟩
      · exact .inl hmode
      · exact .inr htime
  · exact .inr rfl

theorem timerTime_execute (m : Machine) (opcode : UInt16) :
    (m.execute opcode).machine.mode = .empty ∨
      (m.execute opcode).machine.timerTime = m.timerTime := by
  by_cases hexit : m.instruction? opcode = some .exit
  · rw [execute_of_eq_some hexit]
    refine .inl ?_
    rw [perform, machine_done, unload, setMode_eq]
  · have hwithin : (m.execute opcode).machine = (m.execute opcode).machine.within m :=
      congrArg Outcome.machine (m.execute_within m hexit)
    have htime := congrArg Machine.timerTime hwithin
    exact .inr htime

theorem timerTime_setMode (m : Machine) (mode : Mode) :
    (m.setMode mode).timerTime = m.timerTime := by
  rw [setMode_eq]

-- The time that has passed is that of the ticks and what is still pending.
def Balanced (m : Machine) (elapsed count : Nat) (after : Machine) : Prop :=
  m.timerTime + elapsed = count * tickPeriod + after.timerTime ∧
    (m.timerTime < tickPeriod → after.timerTime < tickPeriod)

theorem Balanced.refl {after : Machine} (h : after.timerTime = m.timerTime) :
    m.Balanced 0 0 after := by
  refine ⟨by omega, fun hlt => ?_⟩
  rwa [h]

theorem Balanced.trans {between after : Machine} {elapsed elapsed' count count' : Nat}
    (h : m.Balanced elapsed count between) (h' : between.Balanced elapsed' count' after) :
    m.Balanced (elapsed + elapsed') (count + count') after := by
  refine ⟨?_, fun hlt => h'.2 (h.2 hlt)⟩
  have hfirst := h.1
  have hsecond := h'.1
  rw [Nat.add_mul]
  omega

theorem balanced_passTime {between after : Machine} (elapsed : Nat)
    (hbetween : between.timerTime = m.timerTime)
    (hafter : after.timerTime = (between.passTime elapsed).timerTime) :
    m.Balanced elapsed ((between.timerTime + elapsed) / tickPeriod) after := by
  have hmod : after.timerTime = (m.timerTime + elapsed) % tickPeriod := by
    rw [hafter, passTime_eq, hbetween]
  have hdiv := Nat.div_add_mod' (m.timerTime + elapsed) tickPeriod
  refine ⟨?_, fun _ => ?_⟩
  · rw [hmod, hbetween, hdiv]
  · rw [hmod]
    exact Nat.mod_lt _ zero_lt_tickPeriod

theorem balanced_advance {elapsed : Nat} (hm : m.mode ≠ .empty)
    (hfault : (m.advance elapsed).fault = none)
    (hafter : (m.advance elapsed).machine.mode ≠ .empty) :
    m.Balanced elapsed (m.advanceCounting elapsed).1 (m.advance elapsed).machine := by
  unfold advance at hfault hafter ⊢
  unfold advanceCounting
  simp only [tickWhileDue_passTime]
  cases hmode : m.mode with
  | empty => exact absurd hmode hm
  | step | paused => exact balanced_passTime elapsed rfl (timerTime_playTone _)
  | run =>
    simp only [hmode] at hfault hafter ⊢
    cases hcycle : (m.cycle elapsed).fault with
    | some fault => simp [hcycle] at hfault
    | none =>
      simp only [hcycle, machine_done, mode_pass] at hafter
      have htime := (m.timerTime_cycle elapsed).resolve_left hafter
      exact balanced_passTime elapsed htime (timerTime_playTone _)

theorem balanced_apply {operation : Operation} (hm : m.mode ≠ .empty)
    (hclock : operation.LeavesClock) (hfault : (m.apply operation).fault = none)
    (hafter : (m.apply operation).machine.mode ≠ .empty) :
    m.Balanced operation.elapsed (m.applyCounting operation).1
      (m.apply operation).machine := by
  cases operation with
  | advance elapsed => exact balanced_advance hm hfault hafter
  | step =>
    rcases m.surroundings_step.2 with ⟨hmode, -⟩ | ⟨-, htime⟩
    · exact absurd hmode hafter
    · exact .refl htime
  | execute opcode => exact .refl ((m.timerTime_execute opcode).resolve_left hafter)
  | setMode mode => exact .refl (m.timerTime_setMode mode)
  | pause =>
    obtain ⟨mode, previousMode, hpause⟩ := m.pause_eq
    exact .refl (by rw [apply, machine_done, hpause])
  | resume =>
    obtain ⟨mode, previousMode, hresume⟩ := m.resume_eq
    exact .refl (by rw [apply, machine_done, hresume])
  | setInstructionSet _ | setDialect _ | setProcessor _ | setSound _ | setGraphics _ | setKey _ _
  | setBreakpoints _ => exact .refl rfl
  | load _ | loadFile _ | unload | reset | update _ | control _ => exact hclock.elim

theorem Timely.mode_ne {operations : List Operation} (h : m.Timely operations) :
    m.mode ≠ .empty := by
  cases operations with
  | nil => exact h
  | cons _ _ => exact h.1

theorem balanced_run {operations : List Operation} (h : m.Timely operations) :
    m.Balanced (Operation.totalElapsed operations) (m.runCounting operations).1
      (m.run operations) := by
  induction operations generalizing m with
  | nil => exact .refl rfl
  | cons operation rest ih =>
    obtain ⟨hm, hclock, hfault, hrest⟩ := h
    have happly := balanced_apply hm hclock hfault hrest.mode_ne
    have hcons := happly.trans (ih hrest)
    have hrun : m.run (operation :: rest) = (m.apply operation).machine.run rest := rfl
    simpa only [Operation.totalElapsed, List.foldr_cons, runCounting, snd_applyCounting, hrun]
      using hcons

theorem advance_of_stopped (hm : m.mode = .step ∨ m.mode = .paused) (elapsed : Nat) :
    m.advance elapsed = (m.passTime elapsed).done := by
  have hmode : (m.passTime elapsed).mode ≠ .run := by
    rw [passTime_eq]
    simp only [mode_ticks]
    rcases hm with hm | hm <;> simp [hm]
  unfold advance
  rw [playTone_of_mode_ne hmode]
  rcases hm with hm | hm <;> simp only [hm]

theorem passTime_passTime (first second : Nat) :
    (m.passTime first).passTime second = m.passTime (first + second) := by
  have hcount : (m.timerTime + first) / tickPeriod +
      ((m.timerTime + first) % tickPeriod + second) / tickPeriod =
        (m.timerTime + (first + second)) / tickPeriod := by
    simp only [tickPeriod]
    omega
  have htime : ((m.timerTime + first) % tickPeriod + second) % tickPeriod =
      (m.timerTime + (first + second)) % tickPeriod := by
    simp only [tickPeriod]
    omega
  rw [passTime_eq, passTime_eq, passTime_eq, ticks_withTimerTime, ← ticks_add]
  simp only [hcount, htime]

-- The ticks of a run are those that fit into the time pending at its start and the time of its
-- updates. Less than a period is ever pending. A machine that is stopped cannot tell one update
-- from two.
theorem ticks_of_elapsed :
    (∀ (m : Machine) (operations : List Operation), m.timerTime < tickPeriod →
      m.Timely operations →
        let time := m.timerTime + Operation.totalElapsed operations
        m.runCounting operations = (time / tickPeriod, m.run operations) ∧
          (m.run operations).timerTime = time % tickPeriod) ∧
      (∀ (config : Config) (operations : List Operation),
        ((new config).run operations).timerTime < tickPeriod) ∧
      ∀ (m : Machine) (first second : Nat), m.mode = .step ∨ m.mode = .paused →
        (m.advance first).fault = none ∧
          (m.advance first).machine.advance second = m.advance (first + second) ∧
          let after := (m.advance (first + second)).machine
          let count := (m.timerTime + (first + second)) / tickPeriod
          after.registers.delay.toNat = m.registers.delay.toNat - count ∧
            after.registers.sound.toNat = m.registers.sound.toNat - count := by
  refine ⟨?_, fun config operations => ((wellFormed_new config).run operations).timerTime_lt, ?_⟩
  · intro m operations htime h time
    obtain ⟨hsum, hlt⟩ := balanced_run h
    have hrest := hlt htime
    have hdiv : time / tickPeriod = (m.runCounting operations).1 := by
      simp only [tickPeriod] at hsum hrest ⊢
      omega
    have hmod : time % tickPeriod = (m.run operations).timerTime := by
      simp only [tickPeriod] at hsum hrest ⊢
      omega
    exact ⟨Prod.ext hdiv.symm (m.snd_runCounting operations), hmod.symm⟩
  · intro m first second hm
    have hafter : (m.passTime first).mode = m.mode := by
      rw [passTime_eq]
      exact mode_ticks _ m
    refine ⟨by rw [advance_of_stopped hm, fault_done], ?_, ?_⟩
    · rw [advance_of_stopped hm, machine_done, advance_of_stopped (by rwa [hafter]),
        passTime_passTime, advance_of_stopped hm]
    · rw [advance_of_stopped hm, machine_done, passTime_eq]
      exact timers_ticks _ m

-- Time that passes while a machine runs, where a breakpoint stops it and while it is paused.
theorem two_ticks_around_breakpoint :
    let m := (new (.standard 0)).run [.setMode .run, .setBreakpoints (.add .empty ⟨"start", 0x200⟩)]
    let operations : List Operation :=
      [.advance 3000000, .advance 17000000, .pause, .advance 20000000, .resume, .setMode .run]
    m.timerTime < tickPeriod ∧ m.Timely operations ∧ (m.runCounting operations).1 = 2 ∧
      (m.run operations).timerTime = 6666668 := by
  intro m operations
  have htime : m.timerTime < tickPeriod := by decide
  have h : m.Timely operations := by
    simp only [Timely, operations]
    exact ⟨by decide, trivial, by decide, by decide, trivial, by decide, by decide, trivial,
      by decide, by decide, trivial, by decide, by decide, trivial, by decide, by decide, trivial,
      by decide, by decide⟩
  obtain ⟨hcount, hpending⟩ := ticks_of_elapsed.1 m operations htime h
  have hsum : m.timerTime + Operation.totalElapsed operations = 40000000 := by decide
  have hticks : 40000000 / tickPeriod = 2 := by decide
  have hrest : 40000000 % tickPeriod = 6666668 := by decide
  rw [hsum] at hcount hpending
  rw [hticks] at hcount
  rw [hrest] at hpending
  exact ⟨htime, h, congrArg Prod.fst hcount, hpending⟩

end Machine

end Chip8
