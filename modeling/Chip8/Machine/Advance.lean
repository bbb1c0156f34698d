import Chip8.Machine.Execute

namespace Chip8.Machine

-- Nanoseconds between two ticks of the timers.
def tickPeriod : Nat := 1000000000 / 60

-- Fetches and executes one instruction. One that fails pauses the machine.
def step (m : Machine) : Outcome :=
  if m.mode = .empty then m.done
  else
    let opcode := m.memory.readWord m.registers.pc
    let fetched := m.jump (Registers.following m.registers.pc)
    let after := fetched.execute opcode
    match after.fault with
    | none => after
    | some fault => (after.machine.setMode .paused).fail fault

-- Both timers count down and glowing pixels fade.
def tick (m : Machine) : Machine :=
  { m with registers := m.registers.tick, display := m.display.animate }

-- Nothing is left for a tick to change.
def isQuiet (m : Machine) : Bool :=
  m.registers.delay == 0 && m.registers.sound == 0 && !m.display.isFading

def ticks : Nat → Machine → Machine
  | 0, m => m
  | count + 1, m => if m.isQuiet then m else ticks count m.tick

-- Lets time pass for the timers. What does not fill a period stays pending.
def passTime (m : Machine) (elapsed : Nat) : Machine :=
  let time := m.timerTime + elapsed
  ticks (time / tickPeriod) { m with timerTime := time % tickPeriod }

-- The tone sounds while a running machine's sound timer does.
def playTone (m : Machine) : Machine :=
  if m.config.sound.enabled && m.mode == .run && m.registers.sound != 0 then
    { m with beeper := m.beeper.play }
  else m

def isCycleDue (m : Machine) : Bool :=
  m.config.processor.uncapped || decide (m.config.processor.cyclePeriod ≤ m.cycleTime)

-- Executes the next instruction if it is due. A breakpoint there stops the machine before it.
def cycle (m : Machine) (elapsed : Nat) : Outcome :=
  let m := { m with cycleTime := m.cycleTime + elapsed }
  if m.isCycleDue then
    let m := { m with cycleTime := 0 }
    if m.breakpoints.has m.registers.pc then (m.setMode .step).done else m.step
  else m.done

-- Advances the machine by a number of nanoseconds, with one instruction at most. The timers tick
-- whatever it does, but where it fails the time is not counted for them.
def advance (m : Machine) (elapsed : Nat) : Outcome :=
  match m.mode with
  | .empty => m.done
  | .run =>
    let after := m.cycle elapsed
    match after.fault with
    | none => (after.machine.passTime elapsed).playTone.done
    | some _ => after
  | _ => (m.passTime elapsed).playTone.done

-- Advances by the time since the last update, of which the first has none.
def update (m : Machine) (now : Nat) : Outcome :=
  let elapsed := m.updatedAt.elim 0 (now - ·)
  { m with updatedAt := some now }.advance elapsed

theorem tick_of_isQuiet {m : Machine} (h : m.isQuiet = true) : m.tick = m := by
  simp only [isQuiet, Bool.and_eq_true, beq_iff_eq, Bool.not_eq_true'] at h
  obtain ⟨⟨hd, hs⟩, hf⟩ := h
  simp [tick, Registers.tick, hd, hs, Display.animate, hf]
  cases m with
  | mk registers =>
    cases registers
    simp_all

theorem ticks_succ (count : Nat) (m : Machine) : ticks (count + 1) m = ticks count m.tick := by
  rw [ticks]
  split
  case isTrue h =>
    rw [tick_of_isQuiet h]
    cases count with
    | zero => rfl
    | succ count => rw [ticks, if_pos h]
  case isFalse => rfl

theorem playTone_of_mode_ne {m : Machine} (h : m.mode ≠ .run) : m.playTone = m := by
  have hmode : (m.mode == .run) = false := beq_eq_false_iff_ne.mpr h
  simp [playTone, hmode]

end Chip8.Machine
