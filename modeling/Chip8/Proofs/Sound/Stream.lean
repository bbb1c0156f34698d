import Mathlib.Data.List.Basic
import Chip8.Sound.Generator

namespace Chip8

namespace Generator

inductive Event
  | play
  | drain (n : Nat)
  | setLevel (level : Float)
  | setFrequency (frequency : UInt32)
  | changeWaveform (waveform : Waveform)

-- What an event makes of the voice.
def Event.edit (voice : Voice) : Event → Voice
  | .play | .drain _ => voice
  | .setLevel level => { voice with level }
  | .setFrequency frequency => { voice with frequency }
  | .changeWaveform waveform => { voice with waveform }

-- The waveform goes on from where it is.
def Event.KeepsPhase : Event → Prop
  | .changeWaveform _ => False
  | _ => True

-- The waveform starts from its beginning behind these events.
def StartsPhase (events : List Event) : Prop :=
  events = [] ∨ ∃ earlier waveform, events = earlier ++ [.changeWaveform waveform]

-- What a sample is synthesised from.
structure Source where
  voice : Voice
  position : Nat

variable {α : Type} (synthesise : Voice → Nat → α)

def Source.sample (source : Source) : α := synthesise source.voice source.position

def apply (g : Generator α) : Event → Generator α
  | .play => g.refill synthesise
  | .drain n => (g.drain n).2
  | .setLevel level => g.setLevel level
  | .setFrequency frequency => g.setFrequency frequency
  | .changeWaveform waveform => g.changeWaveform waveform

def run (g : Generator α) (events : List Event) : Generator α := events.foldl (apply synthesise) g

-- Synthesises one sample behind those that are queued.
def push (g : Generator α) : Generator α :=
  { g with
    position := g.position + 1
    queue := g.queue ++ [synthesise g.voice g.position] }

-- Synthesises samples one by one. What they come from is noted with them.
def pushMany : Nat → Generator α → List Source × Generator α
  | 0, g => ([], g)
  | count + 1, g =>
    let pushed := pushMany count (g.push synthesise)
    (⟨g.voice, g.position⟩ :: pushed.1, pushed.2)

theorem pushMany_eq (count : Nat) (g : Generator α) :
    g.pushMany synthesise count =
      ((List.range' g.position count).map (Source.mk g.voice),
        { g with
          position := g.position + count
          queue := g.queue ++ (List.range' g.position count).map (synthesise g.voice) }) := by
  induction count generalizing g with
  | zero => simp [pushMany]
  | succ count ih =>
    have hposition : g.position + 1 + count = g.position + (count + 1) := by omega
    simp only [pushMany, ih, push, List.range'_succ, List.map_cons, hposition, List.append_assoc,
      List.singleton_append]

-- Adds whole buffers, sample by sample, for as long as samples are lacking.
def topUp (g : Generator α) : List Source × Generator α :=
  if g.queue.length < wanted then
    let buffer := g.pushMany synthesise bufferSize
    let rest := topUp buffer.2
    (buffer.1 ++ rest.1, rest.2)
  else ([], g)
termination_by wanted - g.queue.length
decreasing_by
  rw [pushMany_eq]
  simp only [List.length_append, List.length_map, List.length_range', bufferSize, wanted] at *
  omega

theorem missing_of_lt {queued : Nat} (h : queued < wanted) :
    missing queued = missing (queued + bufferSize) + 1 := by
  simp only [missing, wanted, bufferSize] at *
  omega

-- A refill is what the samples added one by one come to.
theorem topUp_eq (g : Generator α) :
    g.topUp synthesise =
      ((List.range' g.position (missing g.queue.length * bufferSize)).map (Source.mk g.voice),
        g.refill synthesise) := by
  fun_induction topUp synthesise g with
  | case1 g hlow buffer rest ih =>
    have hbuffer : buffer = _ := pushMany_eq synthesise bufferSize g
    have hlength : buffer.2.queue.length = g.queue.length + bufferSize := by simp [hbuffer]
    have hcount : missing g.queue.length * bufferSize =
        bufferSize + missing (g.queue.length + bufferSize) * bufferSize := by
      rw [missing_of_lt hlow, Nat.succ_mul, Nat.add_comm]
    have hrange : List.range' g.position (missing g.queue.length * bufferSize) =
        List.range' g.position bufferSize ++ List.range' (g.position + bufferSize)
          (missing (g.queue.length + bufferSize) * bufferSize) := by
      rw [hcount, ← List.range'_append, Nat.one_mul]
    have hrest : rest = _ := ih
    rw [hlength] at hrest
    rw [hrest, hbuffer, refill, refill, hrange, hcount]
    simp only [List.length_append, List.length_map, List.length_range', List.map_append,
      List.append_assoc, Nat.add_assoc]
  | case2 g hfull =>
    have hzero := (missing_eq_zero_iff g.queue.length).mpr (Nat.le_of_not_lt hfull)
    simp [refill, hzero]

theorem length_queue_refill_bounds (g : Generator α) (h : g.queue.length < wanted + bufferSize) :
    wanted ≤ (g.refill synthesise).queue.length ∧
      (g.refill synthesise).queue.length < wanted + bufferSize := by
  rw [length_queue_refill]
  simp only [missing, wanted, bufferSize] at *
  omega

end Generator

-- A generator with all that ever came out of it, and what its samples came from.
structure Recording (α : Type) where
  generator : Generator α
  drained : List α
  sources : List Generator.Source

namespace Recording

open Generator

variable {α : Type} (synthesise : Voice → Nat → α)

def start (voice : Voice) : Recording α := ⟨.new voice, [], []⟩

def apply (r : Recording α) : Event → Recording α
  | .play =>
    let filled := r.generator.topUp synthesise
    { r with generator := filled.2, sources := r.sources ++ filled.1 }
  | .drain n =>
    let taken := r.generator.drain n
    { r with generator := taken.2, drained := r.drained ++ taken.1 }
  | .setLevel level => { r with generator := r.generator.setLevel level }
  | .setFrequency frequency => { r with generator := r.generator.setFrequency frequency }
  | .changeWaveform waveform => { r with generator := r.generator.changeWaveform waveform }

def run (r : Recording α) (events : List Event) : Recording α := events.foldl (apply synthesise) r

-- Nothing is lost, doubled or out of order, and less than three buffers wait.
structure Complete (r : Recording α) : Prop where
  samples_eq : r.drained ++ r.generator.queue = r.sources.map (Source.sample synthesise)
  length_queue_lt : r.generator.queue.length < wanted + bufferSize

-- The later recording goes on in the waveform of the earlier one, where that was left.
structure GoesOn (r later : Recording α) (added : List Source) : Prop where
  sources_eq : later.sources = r.sources ++ added
  positions_eq : added.map (·.position) = List.range' r.generator.position added.length
  waveform_eq : ∀ source ∈ added, source.voice.waveform = r.generator.voice.waveform
  waveform_later : later.generator.voice.waveform = r.generator.voice.waveform
  position_later : later.generator.position = r.generator.position + added.length

variable {synthesise} {r between later : Recording α}

-- Keeping the record changes nothing.
theorem generator_apply (r : Recording α) (event : Event) :
    (r.apply synthesise event).generator = r.generator.apply synthesise event := by
  cases event with
  | play => exact congrArg Prod.snd (topUp_eq synthesise r.generator)
  | drain _ | setLevel _ | setFrequency _ | changeWaveform _ => rfl

theorem generator_run (r : Recording α) (events : List Event) :
    (r.run synthesise events).generator = r.generator.run synthesise events := by
  induction events generalizing r with
  | nil => rfl
  | cons event rest ih =>
    have hrun := ih (r.apply synthesise event)
    rw [generator_apply] at hrun
    exact hrun

theorem voice_apply (g : Generator α) (event : Event) :
    (g.apply synthesise event).voice = event.edit g.voice := by
  cases event <;> rfl

theorem voice_run (g : Generator α) (events : List Event) :
    (g.run synthesise events).voice = events.foldl Event.edit g.voice := by
  induction events generalizing g with
  | nil => rfl
  | cons event rest ih =>
    have hrun := ih (g.apply synthesise event)
    rw [voice_apply] at hrun
    exact hrun

theorem Complete.apply (h : r.Complete synthesise) (event : Event) :
    (r.apply synthesise event).Complete synthesise := by
  cases event with
  | play =>
    have hplayed := topUp_eq synthesise r.generator
    constructor
    · simp only [Recording.apply, hplayed, List.map_append, ← h.samples_eq, refill,
        List.append_assoc, List.map_map]
      rfl
    · simp only [Recording.apply, hplayed]
      exact (length_queue_refill_bounds synthesise r.generator h.length_queue_lt).2
  | drain n =>
    constructor
    · simp only [Recording.apply, List.append_assoc, drain_append]
      exact h.samples_eq
    · simp only [Recording.apply, Generator.drain, List.length_drop]
      exact Nat.lt_of_le_of_lt (Nat.sub_le _ _) h.length_queue_lt
  | setLevel _ | setFrequency _ | changeWaveform _ => exact ⟨h.samples_eq, h.length_queue_lt⟩

theorem Complete.run (h : r.Complete synthesise) (events : List Event) :
    (r.run synthesise events).Complete synthesise :=
  List.foldlRecOn (motive := Complete synthesise) events (Recording.apply synthesise) h
    (fun _ hr event _ => hr.apply event)

theorem complete_start (voice : Voice) : (start voice : Recording α).Complete synthesise :=
  ⟨rfl, Nat.zero_lt_succ _⟩

theorem GoesOn.of_kept (hsources : later.sources = r.sources)
    (hwaveform : later.generator.voice.waveform = r.generator.voice.waveform)
    (hposition : later.generator.position = r.generator.position) : r.GoesOn later [] :=
  ⟨hsources.trans (List.append_nil _).symm, rfl, List.forall_mem_nil _, hwaveform, hposition⟩

theorem GoesOn.trans {first second : List Source} (h : r.GoesOn between first)
    (h' : between.GoesOn later second) : r.GoesOn later (first ++ second) := by
  refine ⟨?_, ?_, ?_, h'.waveform_later.trans h.waveform_later, ?_⟩
  · rw [h'.sources_eq, h.sources_eq, List.append_assoc]
  · rw [List.map_append, h.positions_eq, h'.positions_eq, h.position_later, List.length_append,
      ← List.range'_append, Nat.one_mul]
  · intro source hsource
    rcases List.mem_append.mp hsource with hmem | hmem
    · exact h.waveform_eq source hmem
    · exact (h'.waveform_eq source hmem).trans h.waveform_later
  · rw [h'.position_later, h.position_later, List.length_append, Nat.add_assoc]

theorem goesOn_apply (synthesise : Voice → Nat → α) (r : Recording α) {event : Event}
    (h : event.KeepsPhase) :
    ∃ added, r.GoesOn (r.apply synthesise event) added := by
  cases event with
  | play =>
    have hplayed := topUp_eq synthesise r.generator
    refine ⟨(r.generator.topUp synthesise).1, rfl, ?_, ?_, ?_, ?_⟩
    · simp [hplayed, Function.comp_def]
    · intro source hsource
      rw [hplayed] at hsource
      obtain ⟨position, -, rfl⟩ := List.mem_map.mp hsource
      rfl
    · simp only [Recording.apply, hplayed, refill]
    · simp only [Recording.apply, hplayed, refill, List.length_map, List.length_range']
  | drain _ | setLevel _ | setFrequency _ => exact ⟨[], .of_kept rfl rfl rfl⟩
  | changeWaveform _ => exact h.elim

theorem goesOn_run (synthesise : Voice → Nat → α) (r : Recording α) {events : List Event}
    (h : ∀ event ∈ events, event.KeepsPhase) :
    ∃ added, r.GoesOn (r.run synthesise events) added := by
  induction events generalizing r with
  | nil => exact ⟨[], .of_kept rfl rfl rfl⟩
  | cons event rest ih =>
    rw [List.forall_mem_cons] at h
    obtain ⟨first, hfirst⟩ := r.goesOn_apply synthesise h.1
    obtain ⟨second, hsecond⟩ := ih (r.apply synthesise event) h.2
    exact ⟨first ++ second, hfirst.trans hsecond⟩

theorem run_append (r : Recording α) (before after : List Event) :
    r.run synthesise (before ++ after) = (r.run synthesise before).run synthesise after :=
  List.foldl_append

theorem position_of_startsPhase (voice : Voice) {events : List Event} (h : StartsPhase events) :
    ((start voice).run synthesise events).generator.position = 0 := by
  rcases h with rfl | ⟨earlier, waveform, rfl⟩
  · rfl
  · rw [run_append]
    rfl

-- After any events on a new generator less than three buffers are queued, and what was handed out
-- and what is queued are the samples synthesised so far. A refill adds the whole buffers that are
-- lacking and a drain takes what it asks for, if that much is there. From where a waveform starts,
-- its samples are taken one position after the other.
theorem stream_of_run (synthesise : Voice → Nat → α) (voice : Voice) (events : List Event) :
    let r := (start voice).run synthesise events
    let g := r.generator
    g = (new voice).run synthesise events ∧
      g.voice = events.foldl Event.edit voice ∧
      r.drained ++ g.queue = r.sources.map (Source.sample synthesise) ∧
      g.queue.length ≤ 767 ∧
      512 ≤ (g.refill synthesise).queue.length ∧ (g.refill synthesise).queue.length ≤ 767 ∧
      (∃ buffers, (buffers = 0 ↔ 512 ≤ g.queue.length) ∧
        let added := (List.range' g.position (buffers * 256)).map (Source.mk g.voice)
        (r.apply synthesise .play).sources = r.sources ++ added ∧
          g.refill synthesise =
            { g with
              position := g.position + buffers * 256
              queue := g.queue ++ added.map (Source.sample synthesise) }) ∧
      (∀ n, (g.drain n).1.length = min n g.queue.length ∧
        (g.drain n).1 ++ (g.drain n).2.queue = g.queue) ∧
      ∀ before after, events = before ++ after → StartsPhase before →
        (∀ event ∈ after, event.KeepsPhase) →
          ∃ added, r.sources = ((start voice).run synthesise before).sources ++ added ∧
            added.map (·.position) = List.range added.length ∧ g.position = added.length ∧
            ∀ source ∈ added, source.voice.waveform = g.voice.waveform := by
  intro r g
  have hg : g = (new voice).run synthesise events := (start voice).generator_run events
  have hr : r.Complete synthesise := (complete_start voice).run events
  obtain ⟨hlow, hhigh⟩ := length_queue_refill_bounds synthesise g hr.length_queue_lt
  refine ⟨hg, ?_, hr.samples_eq, Nat.le_of_lt_succ hr.length_queue_lt, hlow,
    Nat.le_of_lt_succ hhigh, ?_, fun n => ⟨List.length_take, g.drain_append n⟩, ?_⟩
  · rw [hg]
    exact voice_run (new voice) events
  · refine ⟨missing g.queue.length, missing_eq_zero_iff g.queue.length, ?_, ?_⟩
    · rw [Recording.apply, topUp_eq]
      rfl
    · rw [refill, List.map_map]
      rfl
  · rintro before after rfl hstarts hkeeps
    let between := (start voice).run synthesise before
    obtain ⟨added, hadded⟩ := between.goesOn_run synthesise hkeeps
    have hr : r = between.run synthesise after := run_append (start voice) before after
    rw [← hr] at hadded
    have hzero : between.generator.position = 0 := position_of_startsPhase voice hstarts
    refine ⟨added, hadded.sources_eq, ?_, ?_, fun source hsource => ?_⟩
    · rw [hadded.positions_eq, hzero, List.range_eq_range']
    · rw [hadded.position_later, hzero, Nat.zero_add]
    · exact (hadded.waveform_eq source hsource).trans hadded.waveform_later.symm

-- One sample less than three buffers are queued where a refill finds one sample missing. A new
-- waveform starts while samples of the old one are still queued.
theorem longest_queue_before_new_waveform :
    let synthesise : Voice → Nat → Waveform × Nat := fun voice position =>
      (voice.waveform, position)
    let voice : Voice := ⟨.square, 3.0, 440⟩
    let before : List Event := [.play, .drain 1, .play, .changeWaveform .saw]
    let after : List Event := [.play, .drain 700, .setFrequency 220, .play]
    let earlier := (start voice).run synthesise before
    let r := (start voice).run synthesise (before ++ after)
    StartsPhase before ∧ (∀ event ∈ after, event.KeepsPhase) ∧
      earlier.generator.queue.length = 767 ∧ r.generator.queue.length = 579 ∧
      ∃ added, r.sources = earlier.sources ++ added ∧
        added.map (·.position) = List.range added.length ∧ 512 = added.length := by
  intro synthesise voice before after earlier r
  have hstarts : StartsPhase before := .inr ⟨[.play, .drain 1, .play], .saw, rfl⟩
  have hkeeps : ∀ event ∈ after, event.KeepsPhase := by simp [after, Event.KeepsPhase]
  obtain ⟨hearlier, -⟩ := stream_of_run synthesise voice before
  obtain ⟨hr, -, -, -, -, -, -, -, hphase⟩ := stream_of_run synthesise voice (before ++ after)
  obtain ⟨added, hsources, hpositions, hcount, -⟩ := hphase before after rfl hstarts hkeeps
  refine ⟨hstarts, hkeeps, ?_, ?_, added, hsources, hpositions, ?_⟩
  · simp only [earlier, hearlier, synthesise, voice, before]
    decide +kernel
  · simp only [r, hr, synthesise, voice, before, after]
    decide +kernel
  · simp only [← hcount, hr, synthesise, voice, before, after]
    decide +kernel

end Recording

end Chip8
