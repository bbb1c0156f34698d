import Chip8.Proofs.Machine.Footprint
import Chip8.Proofs.Machine.Stability

namespace Chip8

namespace Generator

variable {α : Type} {g : Generator α}

-- Nobody has listened yet. Then the queue was filled once, if at all, and holds every sample that
-- the position counts.
structure Undrained (g : Generator α) : Prop where
  position_le : g.position ≤ g.queue.length
  length_queue : g.queue.length = 0 ∨ g.queue.length = wanted

namespace Undrained

theorem new (voice : Voice) : (Generator.new voice : Generator α).Undrained :=
  ⟨Nat.le_refl 0, .inl rfl⟩

theorem position_le_wanted (h : g.Undrained) : g.position ≤ wanted := by
  have hposition := h.position_le
  rcases h.length_queue with hempty | hfull
  · rw [hempty] at hposition
    exact Nat.le_trans hposition (Nat.zero_le wanted)
  · rwa [hfull] at hposition

-- Two buffers fill an empty queue, and nothing is added to a full one.
theorem refill (h : g.Undrained) (synthesise : Voice → Nat → α) :
    (g.refill synthesise).Undrained := by
  have hlength := g.length_queue_refill synthesise
  constructor
  · rw [hlength]
    exact Nat.add_le_add_right h.position_le _
  · right
    rcases h.length_queue with hempty | hfull
    · rw [hlength, hempty]
      rfl
    · rw [hlength, hfull]
      rfl

theorem setLevel (h : g.Undrained) (level : Float) : (g.setLevel level).Undrained :=
  ⟨h.position_le, h.length_queue⟩

theorem setFrequency (h : g.Undrained) (frequency : UInt32) :
    (g.setFrequency frequency).Undrained :=
  ⟨h.position_le, h.length_queue⟩

theorem changeWaveform (h : g.Undrained) (waveform : Waveform) :
    (g.changeWaveform waveform).Undrained :=
  ⟨Nat.zero_le _, h.length_queue⟩

end Undrained

end Generator

namespace Machine

variable {m : Machine}

theorem untouched_beeper : Untouched Machine.beeper where
  perform m i := (m.footprint_perform i).beeper
  fetched _ := rfl
  mode _ _ _ := rfl
  restarted _ _ _ := rfl

theorem undrained_playTone (h : m.beeper.Undrained) : m.playTone.beeper.Undrained := by
  unfold playTone
  split
  · exact h.refill Voice.sample
  · exact h

theorem undrained_setSound (h : m.beeper.Undrained) (sound : Sound) :
    (m.setSound sound).beeper.Undrained := by
  have htuned := (h.setLevel sound.voice.level).setFrequency sound.voice.frequency
  unfold setSound
  simp only
  split
  · exact htuned
  · exact htuned.changeWaveform sound.voice.waveform

theorem stable_undrained : Stable (·.beeper.Undrained) where
  mode _ _ h := h
  step {m} h := (untouched_beeper.step m).symm ▸ h
  tick h := h
  playTone h := undrained_playTone h
  reset h := h
  cycleTime _ h := h
  timerTime _ h := h
  updatedAt _ h := h

theorem undrained_apply (h : m.beeper.Undrained) (operation : Operation) :
    (m.apply operation).machine.beeper.Undrained := by
  cases operation with
  | load program => exact (untouched_beeper.load m program).symm ▸ h
  | loadFile content => exact (untouched_beeper.loadFile m content).symm ▸ h
  | unload => exact (untouched_beeper.unload m).symm ▸ h
  | step => exact stable_undrained.step h
  | advance elapsed => exact stable_undrained.advance h elapsed
  | update now => exact stable_undrained.update h now
  | execute opcode => exact (untouched_beeper.execute m opcode).symm ▸ h
  | setMode mode => exact (untouched_beeper.setMode m mode).symm ▸ h
  | pause => exact stable_undrained.pause h
  | resume => exact stable_undrained.resume h
  | setSound sound => exact undrained_setSound h sound
  | control pressed => exact stable_undrained.control h pressed
  | reset | setInstructionSet _ | setDialect _ | setProcessor _ | setGraphics _ | setKey _ _
  | setBreakpoints _ => exact h

theorem undrained_run (h : m.beeper.Undrained) (operations : List Operation) :
    (m.run operations).beeper.Undrained :=
  List.foldlRecOn (motive := fun m : Machine => m.beeper.Undrained) operations _ h
    (fun _ hm operation _ => undrained_apply hm operation)

end Machine

end Chip8
