import Chip8.Proofs.Machine.Bisimulation
import Chip8.Proofs.Machine.Footprint
import Chip8.Proofs.Machine.Stability

namespace Chip8

namespace Operation

-- The clock that an operation leaves. Only updates read and set it.
def clockAfter (clock : Option Nat) : Operation → Option Nat
  | .update now => some now
  | _ => clock

-- The operation with the time that it lets pass in place of the clock.
def timed (clock : Option Nat) : Operation → Operation
  | .update now => .advance (clock.elim 0 (now - ·))
  | operation => operation

def timedAll (clock : Option Nat) : List Operation → List Operation
  | [] => []
  | operation :: rest => operation.timed clock :: timedAll (operation.clockAfter clock) rest

theorem clockAfter_timed (operation : Operation) (clock clock' : Option Nat) :
    (operation.timed clock).clockAfter clock' = clock' := by
  cases operation <;> rfl

end Operation

def Machine.withClock (m : Machine) (clock : Option Nat) : Machine :=
  { m with updatedAt := clock }

def Outcome.withClock (o : Outcome) (clock : Option Nat) : Outcome :=
  { o with machine := o.machine.withClock clock }

namespace Machine

-- The machines are one but for their clocks.
def SameButClock (m m' : Machine) : Prop := ∃ clock, m' = m.withClock clock

theorem unload_withClock (m : Machine) (clock : Option Nat) :
    (m.withClock clock).unload = m.unload.withClock clock := by
  rw [unload_eq, unload_eq]
  rfl

theorem execute_withClock (m : Machine) (clock : Option Nat) (opcode : UInt16) :
    (m.withClock clock).execute opcode = (m.execute opcode).withClock clock := by
  by_cases hexit : m.instruction? opcode = some .exit
  · have hexit' : (m.withClock clock).instruction? opcode = some .exit := hexit
    rw [execute_of_eq_some hexit, execute_of_eq_some hexit']
    exact congrArg done (m.unload_withClock clock)
  · have hwithin : m.execute opcode = (m.execute opcode).within m := m.execute_within m hexit
    have hclock : (m.withClock clock).execute opcode =
        (m.execute opcode).within (m.withClock clock) :=
      m.execute_within (m.withClock clock) hexit
    rw [hclock, hwithin]
    rfl

theorem playTone_withClock (m : Machine) (clock : Option Nat) :
    (m.withClock clock).playTone = m.playTone.withClock clock := by
  unfold playTone
  rw [apply_ite (withClock · clock)]
  rfl

theorem bisimulation_sameButClock : Bisimulation SameButClock where
  samePace := by
    rintro m _ ⟨clock, rfl⟩
    exact ⟨rfl, rfl, rfl, rfl, rfl, rfl, rfl⟩
  mode := by
    rintro m _ mode previousMode ⟨clock, rfl⟩
    exact ⟨clock, rfl⟩
  fetched := by
    rintro m _ ⟨clock, rfl⟩
    exact ⟨clock, rfl⟩
  execute := by
    rintro m _ opcode ⟨clock, rfl⟩
    rw [execute_withClock]
    exact ⟨⟨clock, rfl⟩, rfl⟩
  tick := by
    rintro m _ ⟨clock, rfl⟩
    exact ⟨clock, rfl⟩
  playTone := by
    rintro m _ ⟨clock, rfl⟩
    exact ⟨clock, m.playTone_withClock clock⟩
  reset := by
    rintro m _ ⟨clock, rfl⟩
    exact ⟨clock, rfl⟩
  cycleTime := by
    rintro m _ cycleTime ⟨clock, rfl⟩
    exact ⟨clock, rfl⟩
  timerTime := by
    rintro m _ timerTime ⟨clock, rfl⟩
    exact ⟨clock, rfl⟩
  updatedAt := by
    rintro m _ updatedAt ⟨clock, rfl⟩
    exact ⟨updatedAt, rfl⟩

theorem eq_withClock_of_related {o o' : Outcome} (h : o.Related SameButClock o') :
    o' = o.withClock o'.machine.updatedAt := by
  obtain ⟨clock, hmachine⟩ := h.machine
  have hclock : o'.machine.updatedAt = clock := congrArg Machine.updatedAt hmachine
  rw [hclock]
  exact congr (congrArg Outcome.mk hmachine) h.fault

theorem untouched_updatedAt : Untouched Machine.updatedAt where
  perform m i := (m.footprint_perform i).updatedAt
  fetched _ := rfl
  mode _ _ _ := rfl
  restarted _ _ _ := rfl

theorem joined_updatedAt : Joined fun m _ after => after.updatedAt = m.updatedAt where
  mode _ _ _ := rfl
  step := untouched_updatedAt.step
  trans hfirst hsecond := hsecond.trans hfirst

theorem updatedAt_pass (m : Machine) (elapsed : Nat) :
    (m.passTime elapsed).playTone.updatedAt = m.updatedAt := by
  obtain ⟨registers, display, beeper, timerTime, h⟩ := m.passTime_playTone_eq elapsed
  rw [h]

theorem updatedAt_advance (m : Machine) (elapsed : Nat) :
    (m.advance elapsed).machine.updatedAt = m.updatedAt :=
  joined_updatedAt.advance (fun _ _ => rfl) updatedAt_pass m elapsed

theorem updatedAt_apply (m : Machine) (operation : Operation) :
    (m.apply operation).machine.updatedAt = operation.clockAfter m.updatedAt := by
  cases operation with
  | load program => exact untouched_updatedAt.load m program
  | loadFile content => exact untouched_updatedAt.loadFile m content
  | unload => exact untouched_updatedAt.unload m
  | step => exact untouched_updatedAt.step m
  | advance elapsed => exact m.updatedAt_advance elapsed
  | update now => exact updatedAt_advance _ _
  | execute opcode => exact untouched_updatedAt.execute m opcode
  | setMode mode => exact untouched_updatedAt.setMode m mode
  | pause => exact joined_updatedAt.pause m
  | resume => exact joined_updatedAt.resume m
  | control pressed =>
    obtain ⟨after, hafter, hcontrol⟩ := joined_updatedAt.control m pressed
    have hback : (m.control pressed).updatedAt = after.updatedAt := by
      rw [hcontrol]
      split <;> rfl
    exact hback.trans hafter
  | reset | setInstructionSet | setDialect | setProcessor | setSound | setGraphics | setKey
  | setBreakpoints => rfl

theorem related_load (m : Machine) (clock : Option Nat) (program : List UInt8) :
    (m.orKeep (m.load program)).Related SameButClock
      ((m.withClock clock).orKeep ((m.withClock clock).load program)) := by
  unfold load
  split <;> exact ⟨⟨clock, rfl⟩, rfl⟩

-- Any clock will do, once the time that passes is given.
theorem related_apply_timed (m : Machine) (clock : Option Nat) (operation : Operation) :
    (m.apply operation).Related SameButClock
      ((m.withClock clock).apply (operation.timed m.updatedAt)) := by
  have hR := bisimulation_sameButClock
  have hself : m.SameButClock (m.withClock clock) := ⟨clock, rfl⟩
  cases operation with
  | load program => exact m.related_load clock program
  | loadFile content =>
    cases content with
    | ok program => exact m.related_load clock program
    | error cause => exact ⟨hself, rfl⟩
  | unload => exact done_related ⟨clock, m.unload_withClock clock⟩
  | step => exact hR.step hself
  | advance elapsed => exact hR.advance hself elapsed
  | update now =>
    have hnow : { m with updatedAt := some now }.SameButClock (m.withClock clock) := ⟨clock, rfl⟩
    exact hR.advance hnow _
  | execute opcode => exact hR.execute opcode hself
  | setMode mode => exact done_related (hR.setMode hself mode)
  | pause => exact done_related (hR.pause hself)
  | resume => exact done_related (hR.resume hself)
  | control pressed => exact done_related (hR.control hself pressed)
  | reset | setInstructionSet | setDialect | setProcessor | setSound | setGraphics | setKey
  | setBreakpoints => exact done_related ⟨clock, rfl⟩

theorem apply_timed (m : Machine) (clock : Option Nat) (operation : Operation) :
    (m.withClock clock).apply (operation.timed m.updatedAt) =
      (m.apply operation).withClock clock := by
  have h := eq_withClock_of_related (m.related_apply_timed clock operation)
  rwa [updatedAt_apply, Operation.clockAfter_timed] at h

-- Whatever its clock is made to be, a machine does the same in the same time.
theorem trace_timedAll (m : Machine) (clock : Option Nat) (operations : List Operation) :
    (m.withClock clock).trace (Operation.timedAll m.updatedAt operations) =
      (m.trace operations).map (·.withClock clock) := by
  induction operations generalizing m with
  | nil => rfl
  | cons operation rest ih =>
    rw [Operation.timedAll, trace, trace, List.map_cons, apply_timed, ← updatedAt_apply]
    exact congrArg (_ :: ·) (ih _)

end Machine

end Chip8
