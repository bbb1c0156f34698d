import Chip8.Proofs.Display.FadeOut
import Chip8.Proofs.Machine.Executions
import Chip8.Proofs.Machine.Ticking

namespace Chip8

namespace Registers

theorem iterate_tick_powerOn (count : Nat) :
    tick^[count] powerOn = { powerOn with delay := UInt8.ofNat (255 - count) } := by
  induction count with
  | zero => rfl
  | succ count ih =>
    have hdelay : (if UInt8.ofNat (255 - count) = 0 then 0 else UInt8.ofNat (255 - count) - 1) =
        UInt8.ofNat (255 - (count + 1)) := by
      apply UInt8.toNat.inj
      rw [Machine.toNat_countdown, UInt8.toNat_ofNat', UInt8.toNat_ofNat']
      omega
    rw [Function.iterate_succ_apply', ih, tick, hdelay]
    rfl

end Registers

namespace Display

variable {d : Display}

-- Without glows nothing is left for a tick to change.
theorem WellFormed.iterate_animate (h : d.WellFormed) (hfade : d.settings.graphics.fade = false)
    (count : Nat) : Display.animate^[count] d = d := by
  have hfading : d.isFading = false := by
    simp [isFading, h.fading_eq_empty hfade]
  refine Function.iterate_fixed ?_ count
  rw [Display.animate, hfading, if_neg Bool.false_ne_true]

end Display

namespace Machine

-- What an update finds before time passes for the timers: what its instruction left.
def attempted (m : Machine) (elapsed : Nat) : Machine :=
  if m.mode = .run then (m.cycle elapsed).machine else m

-- Time has passed for the timers.
structure Ticked (before : Machine) (elapsed : Nat) (after : Machine) : Prop where
  delay_eq : after.registers.delay.toNat =
    before.registers.delay.toNat - (before.timerTime + elapsed) / tickPeriod
  sound_eq : after.registers.sound.toNat =
    before.registers.sound.toNat - (before.timerTime + elapsed) / tickPeriod
  timerTime_eq : after.timerTime = (before.timerTime + elapsed) % tickPeriod

-- The time that an operation lets pass if it does not fail.
def seenElapsed (m : Machine) (operation : Operation) : Nat :=
  match (m.apply operation).fault with
  | none => operation.elapsed
  | some _ => 0

-- The time of those updates of a run that do not fail.
def seenTime (m : Machine) : List Operation → Nat
  | [] => 0
  | operation :: rest =>
    m.seenElapsed operation + (m.apply operation).machine.seenTime rest

-- A run through which a program stays loaded and its clock is left alone, whatever fails.
def StaysLoaded (m : Machine) : List Operation → Prop
  | [] => m.mode ≠ .empty
  | operation :: rest =>
    m.mode ≠ .empty ∧ operation.LeavesClock ∧ (m.apply operation).machine.StaysLoaded rest

-- The update executes an instruction, which is `00FD`.
structure ExitsIn (m : Machine) (elapsed : Nat) : Prop where
  mode_eq : m.mode = .run
  instructionSet_eq : m.instructionSet = .superChip
  nextOpcode_eq : m.nextOpcode = 0x00FD
  has_eq : m.breakpoints.has m.registers.pc = false
  isDueAfter : m.IsDueAfter elapsed

variable {m : Machine} {elapsed : Nat}

theorem registers_playTone (m : Machine) : m.playTone.registers = m.registers := by
  unfold playTone
  split <;> rfl

theorem ticked_pass (m : Machine) (elapsed : Nat) :
    Ticked m elapsed (m.passTime elapsed).playTone := by
  have hregisters := (m.passTime elapsed).registers_playTone
  have htimers := timers_ticks ((m.timerTime + elapsed) / tickPeriod) m
  rw [passTime_eq] at hregisters
  refine ⟨?_, ?_, ?_⟩
  · rw [passTime_eq, hregisters]
    exact htimers.1
  · rw [passTime_eq, hregisters]
    exact htimers.2
  · rw [timerTime_playTone, passTime_eq]

-- No time passes for a machine that stays as it is, unless there is nothing to count.
theorem ticked_self_iff (htime : m.timerTime < tickPeriod) :
    Ticked m elapsed m ↔
      elapsed = 0 ∨ tickPeriod ∣ elapsed ∧ m.registers.delay = 0 ∧ m.registers.sound = 0 := by
  have hzero (timer : UInt8) : timer = 0 ↔ timer.toNat = 0 := (UInt8.toNat_inj (b := 0)).symm
  rw [Nat.dvd_iff_mod_eq_zero, hzero, hzero]
  constructor
  · intro h
    have hdelay := h.delay_eq
    have hsound := h.sound_eq
    have hpending := h.timerTime_eq
    simp only [tickPeriod] at htime hdelay hsound hpending ⊢
    omega
  · intro h
    refine ⟨?_, ?_, ?_⟩ <;> simp only [tickPeriod] at htime h ⊢ <;> omega

-- Updates with an instruction that fails.

theorem fault_advance_of_run (hm : m.mode = .run) :
    (m.advance elapsed).fault = (m.cycle elapsed).fault := by
  cases h : (m.cycle elapsed).fault with
  | none => rw [advance_of_fault_eq_none hm h, fault_done]
  | some fault => rw [advance_of_fault_eq_some hm h, h]

theorem mode_of_fault_advance {fault : Fault} (h : (m.advance elapsed).fault = some fault) :
    m.mode = .run := by
  cases hm : m.mode with
  | run => rfl
  | empty => simp [advance, hm] at h
  | step | paused => simp [advance, hm] at h

theorem advance_eq_passTime (hm : m.mode ≠ .empty)
    (h : (m.advance elapsed).fault = none) :
    m.advance elapsed = ((m.attempted elapsed).passTime elapsed).playTone.done := by
  unfold attempted
  cases hmode : m.mode with
  | empty => exact absurd hmode hm
  | step | paused => simp [advance, hmode]
  | run =>
    rw [fault_advance_of_run hmode] at h
    rw [if_pos rfl]
    exact advance_of_fault_eq_none hmode h

theorem fault_advance_iff (hm : m.mode = .run) (hdue : m.IsDueAfter elapsed)
    (hb : m.breakpoints.has m.registers.pc = false) (fault : Fault) :
    (m.advance elapsed).fault = some fault ↔ m.due.fetched.Fails m.nextOpcode fault := by
  have hne : m.due.mode ≠ .empty := by simp [due, hm]
  rw [fault_advance_of_run hm, cycle_of_due hdue, hb, if_neg Bool.false_ne_true]
  exact fault_step_iff hne fault

theorem fault_advance_of_unknown (hm : m.mode = .run) (hdue : m.IsDueAfter elapsed)
    (hb : m.breakpoints.has m.registers.pc = false) (h : Opcode.decode m.nextOpcode = none) :
    (m.advance elapsed).fault =
      some (.invalidOpcode m.nextOpcode (m.registers.pc % 4096)) := by
  rw [fault_advance_iff hm hdue hb, ← Registers.preceding_following, Registers.preceding_eq_mod]
  exact .unknown h

theorem attempted_of_fault {fault : Fault} (h : (m.advance elapsed).fault = some fault) :
    m.attempted elapsed = (m.advance elapsed).machine := by
  have hm := mode_of_fault_advance h
  rw [fault_advance_of_run hm] at h
  rw [attempted, if_pos hm, advance_of_fault_eq_some hm h]

-- The update leaves the machine paused behind the instruction, and its timers where they were.
theorem machine_advance_of_fault {fault : Fault} (h : (m.advance elapsed).fault = some fault) :
    (m.advance elapsed).machine =
      { m with
        registers := { m.registers with pc := Registers.following m.registers.pc }
        mode := .paused
        previousMode := .run
        cycleTime := 0 } := by
  have hm := mode_of_fault_advance h
  have hadvances := m.advances elapsed
  generalize m.advanceExecutions elapsed = executions at hadvances
  generalize m.advance elapsed = outcome at h hadvances
  cases hadvances with
  | failed _ _ _ _ =>
    have hmode : m.due.fetched.mode = .run := hm
    rw [machine_fail, setMode, hmode]
    rfl
  | empty _ | stopped _ | early _ _ | breakpoint _ _ _ | executed _ _ _ _ =>
    rw [fault_done] at h
    cases h

theorem fst_advanceCounting_of_fault {fault : Fault}
    (h : (m.advance elapsed).fault = some fault) : (m.advanceCounting elapsed).1 = 0 := by
  have hm := mode_of_fault_advance h
  rw [fault_advance_of_run hm] at h
  simp only [advanceCounting, hm, h]

-- An operation that fails lets no time pass.
theorem balanced_apply_of_fault {operation : Operation} {fault : Fault}
    (hclock : operation.LeavesClock) (hfault : (m.apply operation).fault = some fault)
    (hafter : (m.apply operation).machine.mode ≠ .empty) :
    m.Balanced 0 (m.applyCounting operation).1 (m.apply operation).machine := by
  cases operation with
  | advance elapsed =>
    have hcount : (m.applyCounting (.advance elapsed)).1 = 0 :=
      fst_advanceCounting_of_fault hfault
    rw [hcount, apply, machine_advance_of_fault hfault]
    exact .refl rfl
  | step =>
    rcases m.surroundings_step.2 with ⟨hmode, -⟩ | ⟨-, htime⟩
    · exact absurd hmode hafter
    · exact .refl htime
  | execute opcode => exact .refl ((m.timerTime_execute opcode).resolve_left hafter)
  | load _ | loadFile _ | unload | reset | update _ | control _ => exact hclock.elim
  | _ => cases hfault

theorem StaysLoaded.mode_ne {operations : List Operation} (h : m.StaysLoaded operations) :
    m.mode ≠ .empty := by
  cases operations with
  | nil => exact h
  | cons _ _ => exact h.1

theorem balanced_run_of_staysLoaded {operations : List Operation}
    (h : m.StaysLoaded operations) :
    m.Balanced (m.seenTime operations) (m.runCounting operations).1 (m.run operations) := by
  induction operations generalizing m with
  | nil => exact .refl rfl
  | cons operation rest ih =>
    obtain ⟨hm, hclock, hrest⟩ := h
    have happly : m.Balanced (m.seenElapsed operation) (m.applyCounting operation).1
        (m.apply operation).machine := by
      unfold seenElapsed
      cases hfault : (m.apply operation).fault with
      | none => exact balanced_apply hm hclock hfault hrest.mode_ne
      | some fault => exact balanced_apply_of_fault hclock hfault hrest.mode_ne
    have hcons := happly.trans (ih hrest)
    have hrun : m.run (operation :: rest) = (m.apply operation).machine.run rest := rfl
    simpa only [seenTime, runCounting, snd_applyCounting, hrun] using hcons

-- An update lets its time pass just where it does not fail or has nothing to count. One that fails
-- leaves the timers and what is pending of them as they were. The ticks of a run are those that fit
-- into the time of its updates that do not fail.
theorem ticked_iff_not_failed (m : Machine) (htime : m.timerTime < tickPeriod) :
    (∀ elapsed, m.mode ≠ .empty →
      (Ticked (m.attempted elapsed) elapsed (m.advance elapsed).machine ↔
        (m.advance elapsed).fault = none ∨ elapsed = 0 ∨
          tickPeriod ∣ elapsed ∧ m.registers.delay = 0 ∧ m.registers.sound = 0)) ∧
    (∀ elapsed fault, (m.advance elapsed).fault = some fault →
      (m.advance elapsed).machine =
        { m with
          registers := { m.registers with pc := Registers.following m.registers.pc }
          mode := .paused
          previousMode := .run
          cycleTime := 0 }) ∧
    ∀ operations, m.StaysLoaded operations →
      let time := m.timerTime + m.seenTime operations
      m.runCounting operations = (time / tickPeriod, m.run operations) ∧
        (m.run operations).timerTime = time % tickPeriod := by
  refine ⟨?_, fun elapsed fault => machine_advance_of_fault, ?_⟩
  · intro elapsed hm
    cases hfault : (m.advance elapsed).fault with
    | none =>
      rw [advance_eq_passTime hm hfault]
      exact iff_of_true (ticked_pass _ elapsed) (.inl rfl)
    | some fault =>
      have hafter := machine_advance_of_fault hfault
      have hkept : (m.advance elapsed).machine.timerTime < tickPeriod := by rwa [hafter]
      rw [attempted_of_fault hfault, ticked_self_iff hkept, hafter]
      simp
  · intro operations h time
    obtain ⟨hsum, hlt⟩ := balanced_run_of_staysLoaded h
    have hrest := hlt htime
    have hdiv : time / tickPeriod = (m.runCounting operations).1 := by
      simp only [tickPeriod] at hsum hrest ⊢
      omega
    have hmod : time % tickPeriod = (m.run operations).timerTime := by
      simp only [tickPeriod] at hsum hrest ⊢
      omega
    exact ⟨Prod.ext hdiv.symm (m.snd_runCounting operations), hmod.symm⟩

-- Of two updates of which the first one fails only the second one counts.
theorem seenTime_of_fault {fault : Fault} (h : (m.advance elapsed).fault = some fault)
    (next : Nat) :
    m.StaysLoaded [.advance elapsed, .advance next] ∧
      m.seenTime [.advance elapsed, .advance next] = next := by
  have hm := mode_of_fault_advance h
  have hafter : m.apply (.advance elapsed) = m.advance elapsed := rfl
  have hmode : (m.advance elapsed).machine.mode = .paused := by
    rw [machine_advance_of_fault h]
  have hnext := advance_of_stopped (.inr hmode) next
  have hlast : ((m.advance elapsed).machine.passTime next).mode = .paused := by
    rw [passTime_eq]
    exact (mode_ticks _ _).trans hmode
  constructor
  · refine ⟨by simp [hm], trivial, ?_, trivial, ?_⟩
    · rw [hafter, hmode]
      decide
    · rw [hafter, apply, hnext, machine_done, StaysLoaded, hlast]
      decide
  · simp only [seenTime, seenElapsed, hafter, h]
    simp [apply, hnext, Operation.elapsed]

-- A fresh machine finds zeros.
theorem nextOpcode_new (config : Config) (mode : Mode) :
    ((new config).setMode mode).nextOpcode = 0 := by
  have hmemory : ((new config).setMode mode).memory = Memory.powerOn := by
    rw [setMode_eq]
    rfl
  have hpc : ((new config).setMode mode).registers.pc = 0x200 := by
    rw [setMode_eq]
    rfl
  rw [nextOpcode, hmemory, hpc, Memory.readWord, Memory.read_powerOn, Memory.read_powerOn]
  decide

theorem fault_advance_new :
    (((new (.standard 0)).setMode .run).advance 17000000).fault =
      some (.invalidOpcode 0 0x200) := by
  have hword : ((new (.standard 0)).setMode .run).nextOpcode = 0 := nextOpcode_new _ _
  have hunknown : Opcode.decode ((new (.standard 0)).setMode .run).nextOpcode = none := by
    rw [hword]
    decide
  have hdue : ((new (.standard 0)).setMode .run).IsDueAfter 17000000 := .inr (by decide)
  have hfails := fault_advance_of_unknown rfl hdue (by decide) hunknown
  rwa [hword] at hfails

-- Two updates with time for a tick each. The instruction of the first one fails.
theorem one_tick_of_two_updates :
    let m := (new (.standard 0)).setMode .run
    let paused := (m.advance 17000000).machine
    let operations : List Operation := [.advance 17000000, .advance 17000000]
    (m.advance 17000000).fault = some (.invalidOpcode 0 0x200) ∧ paused.mode = .paused ∧
      paused.timerTime < tickPeriod ∧
      Ticked (paused.attempted 17000000) 17000000 (paused.advance 17000000).machine ∧
      m.timerTime < tickPeriod ∧ m.StaysLoaded operations ∧
      (m.runCounting operations).1 = 1 ∧ (m.run operations).timerTime = 333334 := by
  intro m paused operations
  have hfault : (m.advance 17000000).fault = some (.invalidOpcode 0 0x200) := fault_advance_new
  have htime : m.timerTime < tickPeriod := by decide
  obtain ⟨-, hfailed, hrun⟩ := ticked_iff_not_failed m htime
  have hafter : paused = _ := hfailed 17000000 _ hfault
  have hmode : paused.mode = .paused := by rw [hafter]
  have hpending : paused.timerTime < tickPeriod := by
    rw [hafter]
    decide
  have hnextFault : (paused.advance 17000000).fault = none := by
    rw [advance_of_stopped (.inr hmode), fault_done]
  have hticked := ((ticked_iff_not_failed paused hpending).1 17000000 (by simp [hmode])).mpr
    (.inl hnextFault)
  obtain ⟨hloaded, hseen⟩ := seenTime_of_fault hfault 17000000
  obtain ⟨hcount, hlast⟩ := hrun operations hloaded
  have hstart : m.timerTime = 0 := by decide
  have hticks : (0 + 17000000) / tickPeriod = 1 := by decide
  have hrest : (0 + 17000000) % tickPeriod = 333334 := by decide
  rw [hstart, hseen, hticks] at hcount
  rw [hstart, hseen, hrest] at hlast
  exact ⟨hfault, hmode, hpending, hticked, htime, hloaded, congrArg Prod.fst hcount, hlast⟩

-- The time for one tick passes while the instruction fails, and no tick comes of it.
theorem tick_lost_to_unknown_opcode :
    let m := (new (.standard 0)).setMode .run
    m.mode = .run ∧ (m.advance 17000000).fault = some (.invalidOpcode 0 0x200) ∧
      (m.timerTime + 17000000) / tickPeriod = 1 ∧ m.registers.delay = 255 ∧
      (m.advance 17000000).machine.registers.delay = 255 ∧
      (m.advance 17000000).machine.timerTime = 0 ∧
      ¬Ticked m 17000000 (m.advance 17000000).machine := by
  intro m
  have hafter := machine_advance_of_fault fault_advance_new
  have hdelay : (m.advance 17000000).machine.registers.delay = 255 := by
    rw [hafter]
    decide
  have htime : (m.advance 17000000).machine.timerTime = 0 := by
    rw [hafter]
    decide
  refine ⟨by decide, fault_advance_new, by decide, by decide, hdelay, htime, fun h => ?_⟩
  have hpending := h.timerTime_eq
  rw [htime] at hpending
  exact absurd hpending (by decide)

-- Updates with an instruction that ends the program.

theorem ticks_eq_iterate (count : Nat) (m : Machine) :
    ticks count m =
      { m with
        registers := Registers.tick^[count] m.registers
        display := Display.animate^[count] m.display } := by
  induction count generalizing m with
  | zero => rfl
  | succ count ih =>
    rw [ticks_succ, ih]
    rfl

theorem execute_exit (hset : m.instructionSet = .superChip) : m.execute 0x00FD = m.unload.done := by
  refine execute_of_eq_some (i := .exit) ((m.instruction?_eq_some_iff 0x00FD .exit).mpr ⟨?_, ?_⟩)
  · decide
  · rw [hset]
    decide

-- A step ends in the emptied machine.
theorem step_of_exit (hm : m.mode ≠ .empty) (hset : m.instructionSet = .superChip)
    (hword : m.nextOpcode = 0x00FD) : m.step = m.unload.done := by
  have hexecute : m.fetched.execute m.nextOpcode = m.fetched.unload.done := by
    rw [hword]
    exact execute_exit hset
  have hunload : m.fetched.unload = m.unload := by
    rw [unload_eq, unload_eq]
    rfl
  rw [step_of_fault_eq_none hm (by rw [hexecute, fault_done]), hexecute, hunload]

-- An update goes on with the emptied machine and lets its time pass there.
theorem ExitsIn.advance_eq (h : m.ExitsIn elapsed) :
    m.advance elapsed = (m.unload.passTime elapsed).done := by
  have hne : m.due.mode ≠ .empty := by simp [due, h.mode_eq]
  have hstep : m.due.step = m.due.unload.done :=
    step_of_exit hne h.instructionSet_eq h.nextOpcode_eq
  have hunload : m.due.unload = m.unload := by
    rw [unload_eq, unload_eq]
    rfl
  have hcycle : m.cycle elapsed = m.unload.done := by
    rw [cycle_of_due h.isDueAfter, h.has_eq, if_neg Bool.false_ne_true, hstep, hunload]
  have hmode : (m.unload.passTime elapsed).mode ≠ .run := by
    rw [passTime_eq, unload_eq]
    simp [mode_ticks]
  rw [advance_of_fault_eq_none h.mode_eq (by rw [hcycle, fault_done]), hcycle, machine_done,
    playTone_of_mode_ne hmode]

theorem passTime_unload (m : Machine) (elapsed : Nat) :
    m.unload.passTime elapsed =
      { m.unload with
        registers :=
          { Registers.powerOn with delay := UInt8.ofNat (255 - elapsed / tickPeriod) }
        display := Display.animate^[elapsed / tickPeriod] m.unload.display
        timerTime := elapsed % tickPeriod } := by
  have htime : m.unload.timerTime = 0 := by rw [unload_eq]
  have hregisters : m.unload.registers = .powerOn := by rw [unload_eq]
  rw [passTime_eq, ticks_eq_iterate, htime, Nat.zero_add, hregisters,
    Registers.iterate_tick_powerOn]

theorem lit_unload (m : Machine) (p : Point) : m.unload.display.lit p = false := by
  rw [unload_eq]
  exact Display.lit_clear _ p

theorem passTime_unload_zero (m : Machine) : m.unload.passTime 0 = m.unload := by
  rw [passTime_unload, unload_eq]
  rfl

theorem powerOn_withDelay_iff (count : Nat) :
    { Registers.powerOn with delay := UInt8.ofNat (255 - count) } = Registers.powerOn ↔
      count = 0 := by
  constructor
  · intro h
    have hdelay : UInt8.ofNat (255 - count) = 255 := congrArg Registers.delay h
    have hnat := congrArg UInt8.toNat hdelay
    simp only [UInt8.toNat_ofNat', UInt8.reduceToNat] at hnat
    omega
  · rintro rfl
    rfl

-- A step and an update that lets no time pass leave what unloading leaves. The time of an update
-- passes on the emptied machine: its delay timer leaves the power-on value and glows fade.
theorem advance_of_exit_eq_unload_iff (m : Machine) (elapsed : Nat) (h : m.ExitsIn elapsed) :
    let after := m.advance elapsed
    (after = m.unload.done ↔ elapsed = 0) ∧
      m.step = m.unload.done ∧ m.unload.registers = .powerOn ∧
      (after.machine.registers = .powerOn ↔ elapsed < tickPeriod) ∧
      (∀ p, after.machine.display.lit p = false) ∧
      (m.WellFormed → m.display.settings.graphics.fade = false →
        after.machine.display = m.unload.display) ∧
      after = done
        { m.unload with
          registers :=
            { Registers.powerOn with delay := UInt8.ofNat (255 - elapsed / tickPeriod) }
          display := Display.animate^[elapsed / tickPeriod] m.unload.display
          timerTime := elapsed % tickPeriod } := by
  intro after
  have hpass : after = (m.unload.passTime elapsed).done := h.advance_eq
  have hempty : m.unload.registers = .powerOn := by rw [unload_eq]
  have hregisters : after.machine.registers = .powerOn ↔ elapsed < tickPeriod := by
    rw [hpass, machine_done, passTime_unload]
    refine (powerOn_withDelay_iff _).trans ?_
    rw [Nat.div_eq_zero_iff_lt zero_lt_tickPeriod]
  have hstep : m.step = m.unload.done :=
    step_of_exit (by simp [h.mode_eq]) h.instructionSet_eq h.nextOpcode_eq
  refine ⟨⟨?_, ?_⟩, hstep, hempty, hregisters, ?_, ?_, ?_⟩
  · intro heq
    have hlt : elapsed < tickPeriod := hregisters.mp (by rw [heq, machine_done, hempty])
    have htime := congrArg (·.machine.timerTime) (hpass.symm.trans heq)
    rw [← Nat.mod_eq_of_lt hlt]
    simp only [machine_done, passTime_unload] at htime
    rw [htime, unload_eq]
  · rintro rfl
    rw [hpass, passTime_unload_zero]
  · intro p
    rw [hpass, machine_done, passTime_unload, Display.lit_iterate_animate, lit_unload]
  · intro hwell hfade
    have hsettings : m.unload.display.settings.graphics.fade = false := by
      rw [unload_eq]
      exact hfade
    rw [hpass, machine_done, passTime_unload]
    exact hwell.unload.display.iterate_animate hsettings _
  · rw [hpass, passTime_unload]

theorem exitsIn_program :
    ((new (.standard 0)).run
      [.setInstructionSet .superChip, .load [0x00, 0xFD], .setMode .run]).ExitsIn 17000000 where
  mode_eq := by decide
  instructionSet_eq := by decide
  nextOpcode_eq := by
    let m := (new (.standard 0)).run
      [.setInstructionSet .superChip, .load [0x00, 0xFD], .setMode .run]
    have hmemory : m.memory = Memory.powerOn.install [0x00, 0xFD] := rfl
    have hstart : m.registers.pc = 0x200 := rfl
    change m.nextOpcode = 0x00FD
    rw [nextOpcode, hmemory, hstart, Memory.readWord, Memory.read_install_of_le _ _ (by decide),
      Memory.read_install_of_le _ _ (by decide)]
    decide
  has_eq := by decide
  isDueAfter := .inr (by decide)

-- An update in which `00FD` comes with the time for a tick.
theorem tick_after_unload :
    let m := (new (.standard 0)).run
      [.setInstructionSet .superChip, .load [0x00, 0xFD], .setMode .run]
    m.ExitsIn 17000000 ∧ m.WellFormed ∧ m.display.settings.graphics.fade = false ∧
      m.step = m.unload.done ∧
      (m.advance 17000000).machine.registers = { Registers.powerOn with delay := 254 } ∧
      (m.advance 17000000).machine.timerTime = 333334 ∧
      (m.advance 17000000).machine.display = m.unload.display := by
  intro m
  have hexits : m.ExitsIn 17000000 := exitsIn_program
  have hwell : m.WellFormed := (wellFormed_new _).run _
  have hfade : m.display.settings.graphics.fade = false := by decide
  obtain ⟨-, hstep, -, -, -, hdisplay, hafter⟩ :=
    advance_of_exit_eq_unload_iff m 17000000 hexits
  refine ⟨hexits, hwell, hfade, hstep, ?_, ?_, hdisplay hwell hfade⟩
  · rw [hafter, machine_done]
    have hdelay : UInt8.ofNat (255 - 17000000 / tickPeriod) = 254 := by decide
    rw [hdelay]
  · rw [hafter, machine_done]
    decide

-- The machine that the update empties does not keep its power-on values.
theorem delay_of_emptied_machine :
    let m := (new (.standard 0)).run
      [.setInstructionSet .superChip, .load [0x00, 0xFD], .setMode .run]
    m.ExitsIn 17000000 ∧ (m.advance 17000000).machine.mode = .empty ∧
      (m.advance 17000000).machine.registers.delay = 254 ∧ m.unload.registers.delay = 255 ∧
      (m.advance 17000000).machine.timerTime = 333334 ∧ m.unload.timerTime = 0 := by
  intro m
  have hafter := exitsIn_program.advance_eq
  rw [passTime_unload] at hafter
  refine ⟨exitsIn_program, ?_, ?_, ?_, ?_, ?_⟩
  · rw [hafter, machine_done, unload_eq]
  · rw [hafter, machine_done]
    decide
  · rw [unload_eq]
    decide
  · rw [hafter, machine_done]
    decide
  · rw [unload_eq]

end Machine

end Chip8
