import Chip8.Sound.Voice

namespace Chip8

-- A queue of samples that a listener drains at its own pace. What a sample is does not matter, only
-- the voice and the position that it is taken at.
structure Generator (α : Type) where
  voice : Voice
  -- samples synthesised since the waveform last changed
  position : Nat
  -- oldest first
  queue : List α

namespace Generator

variable {α : Type}

-- Samples synthesised together.
def bufferSize : Nat := 256

-- A refill ends when this many samples are queued.
def wanted : Nat := 2 * bufferSize

def new (voice : Voice) : Generator α := ⟨voice, 0, []⟩

-- A changed waveform starts from its beginning, also where it is the same one.
def changeWaveform (g : Generator α) (waveform : Waveform) : Generator α :=
  { g with voice := { g.voice with waveform }, position := 0 }

def setLevel (g : Generator α) (level : Float) : Generator α :=
  { g with voice := { g.voice with level } }

def setFrequency (g : Generator α) (frequency : UInt32) : Generator α :=
  { g with voice := { g.voice with frequency } }

-- Whole buffers that a queue of the given length lacks.
def missing (queued : Nat) : Nat := (wanted - queued + (bufferSize - 1)) / bufferSize

-- Tops the queue up with whole buffers.
def refill (synthesise : Voice → Nat → α) (g : Generator α) : Generator α :=
  let count := missing g.queue.length * bufferSize
  { g with
    position := g.position + count
    queue := g.queue ++ (List.range' g.position count).map (synthesise g.voice) }

-- Takes up to `n` samples from the front of the queue.
def drain (g : Generator α) (n : Nat) : List α × Generator α :=
  (g.queue.take n, { g with queue := g.queue.drop n })

theorem missing_eq_zero_iff (queued : Nat) : missing queued = 0 ↔ wanted ≤ queued := by
  simp only [missing, wanted, bufferSize]
  omega

theorem length_queue_refill (synthesise : Voice → Nat → α) (g : Generator α) :
    (g.refill synthesise).queue.length = g.queue.length + missing g.queue.length * bufferSize := by
  simp [refill]

theorem drain_append (g : Generator α) (n : Nat) :
    (g.drain n).1 ++ (g.drain n).2.queue = g.queue := by
  simp [drain]

end Generator

-- The generator of a machine.
abbrev Beeper := Generator Int16

def Beeper.play (b : Beeper) : Beeper := b.refill Voice.sample

end Chip8
