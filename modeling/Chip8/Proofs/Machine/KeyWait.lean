import Mathlib.Data.Fintype.Card
import Mathlib.Order.WellFounded
import Chip8.Proofs.Machine.Footprint
import Chip8.Proofs.Machine.Leftovers
import Chip8.Proofs.Machine.WellFormed

namespace Chip8

namespace Opcode

-- `Fx0A`
def ofReadKey (x : Register) : UInt16 := UInt16.ofNat (0xF00A + 0x100 * x.val)

theorem decode_ofReadKey : ∀ x : Register, decode (ofReadKey x) = some (.readKey x) := by decide

theorem eq_ofReadKey_of_decode {opcode : UInt16} {x : Register}
    (h : decode opcode = some (.readKey x)) : opcode = ofReadKey x := by
  have hx := x.isLt
  apply UInt16.toNat.inj
  rw [toNat_of_decode h, ofReadKey, UInt16.toNat_ofNat_of_lt' (by simp only [UInt16.size]; omega)]
  rfl

end Opcode

theorem Registers.preceding_following_of_le {pc : UInt16} (h : pc ≤ 0xFFF) :
    preceding (following pc) = pc := by
  rw [preceding_following]
  apply UInt16.toNat.inj
  rw [UInt16.le_iff_toNat_le] at h
  simp only [UInt16.toNat_mod, UInt16.reduceToNat] at h ⊢
  omega

-- All operations but the one that brings an opcode from outside.
def Operation.Fetches : Operation → Prop
  | .execute _ => False
  | _ => True

-- Which keys are held.
abbrev KeyTable := Vector Bool 16

namespace KeyTable

-- The first of the tables in which a key is held, and the lowest key held there.
structure FirstPress (tables : Nat → KeyTable) (i : Nat) (key : Key) : Prop where
  before : ∀ n < i, ∀ other : Key, (tables n).get other = false
  held : (tables i).get key = true
  lowest : ∀ other < key, (tables i).get other = false

-- The first table after that one in which the key is no longer held.
structure FirstRelease (tables : Nat → KeyTable) (i : Nat) (key : Key) (j : Nat) : Prop where
  later : i < j
  held : ∀ n, i ≤ n → n < j → (tables n).get key = true
  released : (tables j).get key = false

variable {tables : Nat → KeyTable} {i n : Nat} {key : Key}

theorem exists_firstPress (h : (tables n).get key = true) : ∃ i key, FirstPress tables i key := by
  obtain ⟨i, ⟨other, hother⟩, hfirst⟩ :=
    wellFounded_lt.has_min {n | ∃ other : Key, (tables n).get other = true} ⟨n, key, h⟩
  obtain ⟨lowest, hheld, hlowest⟩ :=
    wellFounded_lt.has_min {key : Key | (tables i).get key = true} ⟨other, hother⟩
  refine ⟨i, lowest, fun n hn other => ?_, hheld, fun other hlt => ?_⟩
  · exact Bool.eq_false_iff.mpr fun hother => hfirst n ⟨other, hother⟩ hn
  · exact Bool.eq_false_iff.mpr fun hother => hlowest other hother hlt

theorem FirstPress.exists_firstRelease (h : FirstPress tables i key) (hn : i ≤ n)
    (hreleased : (tables n).get key = false) : ∃ j, FirstRelease tables i key j := by
  obtain ⟨j, ⟨hj, hfree⟩, hfirst⟩ :=
    wellFounded_lt.has_min {n | i ≤ n ∧ (tables n).get key = false} ⟨n, hn, hreleased⟩
  refine ⟨j, Nat.lt_of_le_of_ne hj fun heq => ?_, fun k hi hk => ?_, hfree⟩
  · rw [← heq, h.held] at hfree
    cases hfree
  · by_contra hk'
    exact hfirst k ⟨hi, Bool.eq_false_iff.mpr hk'⟩ hk

end KeyTable

namespace Machine

open KeyTable

-- What step `n` leaves behind, where each step finds a key table of its own.
def stepUnder (m : Machine) (tables : Nat → KeyTable) : Nat → Outcome
  | 0 => { m with keys := tables 0 }.step
  | n + 1 => { (m.stepUnder tables n).machine with keys := tables (n + 1) }.step

variable {m : Machine} {x : Register} {keys : KeyTable} {key : Key} {tables : Nat → KeyTable}
  {i j : Nat}

theorem firstHeld_eq_some (hheld : m.isHeld key = true)
    (hlowest : ∀ other < key, m.isHeld other = false) : m.firstHeld = some key := by
  refine List.find?_eq_some_iff_getElem.mpr ⟨hheld, key.val, by simp, by simp, fun k hk => ?_⟩
  have hother := hlowest ⟨k, Nat.lt_trans hk key.isLt⟩ hk
  simp only [List.getElem_finRange, Fin.cast_mk, hother, Bool.not_false]

theorem firstHeld_eq_none (h : ∀ other, m.isHeld other = false) : m.firstHeld = none :=
  List.find?_eq_none.mpr fun other _ => by simp [h other]

theorem isNumberHeld_ofNat (m : Machine) (key : Key) :
    m.isNumberHeld (UInt8.ofNat key.val) = m.isHeld key := by
  have hkey := key.isLt
  have hnumber : (UInt8.ofNat key.val).toNat = key.val :=
    UInt8.toNat_ofNat_of_lt' (by simp only [UInt8.size]; omega)
  simp only [isNumberHeld, isHeld, hnumber]
  rw [Vector.getElem?_eq_getElem hkey]
  rfl

-- A machine that is about to execute `Fx0A`.
structure AtReadKey (m : Machine) (x : Register) : Prop where
  mode_ne : m.mode ≠ .empty
  pc_le : m.registers.pc ≤ 0xFFF
  nextOpcode_eq : m.nextOpcode = Opcode.ofReadKey x

namespace AtReadKey

theorem step_eq (h : m.AtReadKey x) : m.step = (m.fetched.readKey x).done := by
  have hkind : Instruction.Kind.readKey ∈ Instruction.Kind.chip8 := by decide
  have hexecute : m.fetched.execute m.nextOpcode = (m.fetched.readKey x).done := by
    rw [h.nextOpcode_eq]
    exact execute_of_chip8 (Opcode.decode_ofReadKey x) hkind
  rw [step_of_fault_eq_none h.mode_ne (by rw [hexecute, fault_done]), hexecute]

theorem jump_eq (h : m.AtReadKey x) :
    m.fetched.jump (Registers.preceding m.fetched.registers.pc) = m := by
  have hpc : Registers.preceding m.fetched.registers.pc = m.registers.pc :=
    Registers.preceding_following_of_le h.pc_le
  rw [hpc]
  rfl

-- Nothing of this depends on the keys or the wait.
theorem congr (h : m.AtReadKey x) (keys : KeyTable) (awaited : Option UInt8) :
    { m with keys, awaited }.AtReadKey x :=
  ⟨h.mode_ne, h.pc_le, h.nextOpcode_eq⟩

-- A step starts the wait, stays in it or ends it.

theorem step_of_awaited_none (h : m.AtReadKey x) (hawaited : m.awaited = none) :
    m.step = done { m with awaited := m.firstHeld.map fun key : Key => UInt8.ofNat key.val } := by
  have hfetched : m.fetched.awaited = none := hawaited
  rw [h.step_eq, readKey]
  simp only [hfetched, h.jump_eq]
  rfl

theorem step_of_held (h : m.AtReadKey x) {number : UInt8} (hawaited : m.awaited = some number)
    (hheld : m.isNumberHeld number = true) : m.step = m.done := by
  have hfetched : m.fetched.awaited = some number := hawaited
  have hstill : m.fetched.isNumberHeld number = true := hheld
  rw [h.step_eq, readKey]
  simp only [hfetched, h.jump_eq, hstill, if_true]

theorem step_of_released (h : m.AtReadKey x) {number : UInt8} (hawaited : m.awaited = some number)
    (hreleased : m.isNumberHeld number = false) :
    m.step = done { m.fetched.setRegister x number with awaited := none } := by
  have hfetched : m.fetched.awaited = some number := hawaited
  have hfree : m.fetched.isNumberHeld number = false := hreleased
  rw [h.step_eq, readKey]
  simp only [hfetched, hfree, Bool.false_eq_true, if_false]

-- The same steps of a machine that finds the keys in a table.

variable (h : m.AtReadKey x)

include h

theorem step_with_none_held (hnone : ∀ other : Key, keys.get other = false) :
    { m with keys, awaited := none }.step = done { m with keys, awaited := none } := by
  have hfirst : { m with keys, awaited := none }.firstHeld = none := firstHeld_eq_none hnone
  rw [(h.congr keys none).step_of_awaited_none rfl]
  simp only [hfirst, Option.map_none]

theorem step_with_press (hheld : keys.get key = true)
    (hlowest : ∀ other < key, keys.get other = false) :
    { m with keys, awaited := none }.step =
      done { m with keys, awaited := some (UInt8.ofNat key.val) } := by
  have hfirst : { m with keys, awaited := none }.firstHeld = some key :=
    firstHeld_eq_some hheld hlowest
  rw [(h.congr keys none).step_of_awaited_none rfl]
  simp only [hfirst, Option.map_some]

theorem step_with_held (hheld : keys.get key = true) :
    { m with keys, awaited := some (UInt8.ofNat key.val) }.step =
      done { m with keys, awaited := some (UInt8.ofNat key.val) } := by
  refine (h.congr keys _).step_of_held rfl ?_
  rw [isNumberHeld_ofNat]
  exact hheld

theorem step_with_released (hreleased : keys.get key = false) :
    { m with keys, awaited := some (UInt8.ofNat key.val) }.step =
      done { m.fetched.setRegister x (UInt8.ofNat key.val) with keys, awaited := none } := by
  refine (h.congr keys _).step_of_released rfl ?_
  rw [isNumberHeld_ofNat]
  exact hreleased

-- Runs of steps

theorem stepUnder_before_press (hawaited : m.awaited = none) {n : Nat}
    (hnone : ∀ k ≤ n, ∀ other : Key, (tables k).get other = false) :
    m.stepUnder tables n = done { m with keys := tables n, awaited := none } := by
  induction n with
  | zero =>
    have hstart : { m with keys := tables 0 } = { m with keys := tables 0, awaited := none } := by
      rw [← hawaited]
    rw [stepUnder, hstart]
    exact h.step_with_none_held (hnone 0 (Nat.le_refl 0))
  | succ n ih =>
    rw [stepUnder, ih fun k hk => hnone k (Nat.le_succ_of_le hk)]
    exact h.step_with_none_held (hnone (n + 1) (Nat.le_refl _))

theorem stepUnder_press (hawaited : m.awaited = none) (hpress : FirstPress tables i key) :
    m.stepUnder tables i =
      done { m with keys := tables i, awaited := some (UInt8.ofNat key.val) } := by
  cases i with
  | zero =>
    have hstart : { m with keys := tables 0 } = { m with keys := tables 0, awaited := none } := by
      rw [← hawaited]
    rw [stepUnder, hstart]
    exact h.step_with_press hpress.held hpress.lowest
  | succ i =>
    rw [stepUnder, h.stepUnder_before_press hawaited fun k hk =>
      hpress.before k (Nat.lt_succ_of_le hk)]
    exact h.step_with_press hpress.held hpress.lowest

theorem stepUnder_held (hawaited : m.awaited = none) (hpress : FirstPress tables i key) {n : Nat}
    (hn : i ≤ n) (hheld : ∀ k, i ≤ k → k ≤ n → (tables k).get key = true) :
    m.stepUnder tables n =
      done { m with keys := tables n, awaited := some (UInt8.ofNat key.val) } := by
  induction n, hn using Nat.le_induction with
  | base => exact h.stepUnder_press hawaited hpress
  | succ n hn ih =>
    rw [stepUnder, ih fun k hi hk => hheld k hi (Nat.le_succ_of_le hk)]
    exact h.step_with_held (hheld (n + 1) (Nat.le_succ_of_le hn) (Nat.le_refl _))

theorem stepUnder_of_lt (hawaited : m.awaited = none) (hpress : FirstPress tables i key)
    (hrelease : FirstRelease tables i key j) {n : Nat} (hn : n < j) :
    m.stepUnder tables n = done { m with
      keys := tables n
      awaited := if n < i then none else some (UInt8.ofNat key.val) } := by
  by_cases hi : n < i
  · rw [if_pos hi]
    exact h.stepUnder_before_press hawaited fun k hk =>
      hpress.before k (Nat.lt_of_le_of_lt hk hi)
  · rw [if_neg hi]
    exact h.stepUnder_held hawaited hpress (Nat.le_of_not_lt hi) fun k hk hkn =>
      hrelease.held k hk (Nat.lt_of_le_of_lt hkn hn)

theorem stepUnder_release (hawaited : m.awaited = none) (hpress : FirstPress tables i key)
    (hrelease : FirstRelease tables i key j) :
    m.stepUnder tables j = done { m with
      keys := tables j
      awaited := none
      registers := { m.registers.set x (UInt8.ofNat key.val) with
        pc := (m.registers.pc + 2) &&& 0xFFF } } := by
  obtain ⟨n, rfl⟩ := Nat.exists_eq_succ_of_ne_zero (Nat.ne_zero_of_lt hrelease.later)
  have hn : i ≤ n := Nat.le_of_lt_succ hrelease.later
  rw [stepUnder, h.stepUnder_held hawaited hpress hn fun k hk hkn =>
    hrelease.held k hk (Nat.lt_succ_of_le hkn)]
  exact h.step_with_released hrelease.released

-- Without a press and its release the machine stays where it is.
theorem stepUnder_never (hawaited : m.awaited = none)
    (hnever : ¬∃ i key j, FirstPress tables i key ∧ FirstRelease tables i key j) (n : Nat) :
    ∃ awaited, m.stepUnder tables n = done { m with keys := tables n, awaited } := by
  by_cases hpressed : ∃ k ≤ n, ∃ other : Key, (tables k).get other = true
  · obtain ⟨k, hk, other, hother⟩ := hpressed
    obtain ⟨i, key, hpress⟩ := exists_firstPress hother
    have hi : i ≤ k := by
      by_contra hlt
      rw [hpress.before k (Nat.lt_of_not_le hlt) other] at hother
      cases hother
    refine ⟨_, h.stepUnder_held hawaited hpress (Nat.le_trans hi hk) fun l hl _ => ?_⟩
    by_contra hfree
    obtain ⟨j, hrelease⟩ := hpress.exists_firstRelease hl (Bool.eq_false_iff.mpr hfree)
    exact hnever ⟨i, key, j, hpress, hrelease⟩
  · refine ⟨none, h.stepUnder_before_press hawaited fun k hk other => ?_⟩
    exact Bool.eq_false_iff.mpr fun hother => hpressed ⟨k, hk, other, hother⟩

end AtReadKey

-- A machine that waits for a key is about to execute `Fx0A`.
def WaitsAtReadKey (m : Machine) : Prop :=
  m.awaited ≠ none → ∃ x, m.nextOpcode = Opcode.ofReadKey x

theorem awaited_perform {i : Instruction} (hi : i ≠ .exit) (hread : ∀ x, i ≠ .readKey x) :
    (m.perform i).machine.awaited = m.awaited := by
  apply (m.footprint_perform i).awaited
  cases i with
  | exit => exact absurd rfl hi
  | readKey x => exact absurd rfl (hread x)
  | _ => exact of_decide_eq_true rfl

theorem awaited_unload (m : Machine) : m.unload.awaited = none := by rw [unload_eq]

-- Only `Fx0A` starts a wait.
theorem awaited_execute {opcode : UInt16} (h : m.awaited = none)
    (hread : ∀ x, opcode ≠ Opcode.ofReadKey x) : (m.execute opcode).machine.awaited = none := by
  cases hi : m.instruction? opcode with
  | none =>
    rw [execute_of_eq_none hi, machine_fail]
    exact h
  | some i =>
    have hdecode := ((m.instruction?_eq_some_iff opcode i).mp hi).1
    rw [execute_of_eq_some hi]
    by_cases hexit : i = .exit
    · rw [hexit]
      exact m.awaited_unload
    · refine (awaited_perform hexit fun x hx => ?_).trans h
      subst hx
      exact hread x (Opcode.eq_ofReadKey_of_decode hdecode)

theorem awaited_step (h : m.awaited = none) (hread : ∀ x, m.nextOpcode ≠ Opcode.ofReadKey x) :
    m.step.machine.awaited = none := by
  by_cases hm : m.mode = .empty
  · rw [step, if_pos hm]
    exact h
  · obtain ⟨mode, previousMode, hstep⟩ := machine_step_eq hm
    rw [hstep]
    exact awaited_execute (m := m.fetched) h hread

namespace WaitsAtReadKey

theorem of_awaited_eq_none (h : m.awaited = none) : m.WaitsAtReadKey := fun hne => absurd h hne

theorem congr (h : m.WaitsAtReadKey) {m' : Machine} (hmemory : m'.memory = m.memory)
    (hpc : m'.registers.pc = m.registers.pc) (hawaited : m'.awaited = m.awaited) :
    m'.WaitsAtReadKey := by
  intro hne
  obtain ⟨x, hx⟩ := h (hawaited ▸ hne)
  refine ⟨x, ?_⟩
  rw [nextOpcode, hmemory, hpc]
  exact hx

theorem setMode (h : m.WaitsAtReadKey) (mode : Mode) : (m.setMode mode).WaitsAtReadKey := by
  rw [setMode_eq]
  exact h.congr rfl rfl rfl

theorem reset (m : Machine) : m.reset.WaitsAtReadKey := of_awaited_eq_none rfl

theorem step (h : m.WaitsAtReadKey) (hw : m.WellFormed) : m.step.machine.WaitsAtReadKey := by
  by_cases hm : m.mode = .empty
  · rw [Machine.step, if_pos hm]
    exact h
  by_cases hread : ∃ x, m.nextOpcode = Opcode.ofReadKey x
  · obtain ⟨x, hx⟩ := hread
    have hat : m.AtReadKey x := ⟨hm, hw.registers.pc_le, hx⟩
    cases hawaited : m.awaited with
    | none =>
      rw [hat.step_of_awaited_none hawaited]
      exact fun _ => ⟨x, hx⟩
    | some number =>
      cases hheld : m.isNumberHeld number with
      | true =>
        rw [hat.step_of_held hawaited hheld]
        exact h
      | false =>
        rw [hat.step_of_released hawaited hheld]
        exact of_awaited_eq_none rfl
  · have hnone : m.awaited = none := by
      by_contra hne
      exact hread (h hne)
    exact of_awaited_eq_none (awaited_step hnone fun x hx => hread ⟨x, hx⟩)

theorem playTone (h : m.WaitsAtReadKey) : m.playTone.WaitsAtReadKey := by
  unfold Machine.playTone
  split
  · exact h.congr rfl rfl rfl
  · exact h

-- What a step does to a wait rests on the program counter's being an address.
theorem stable : Stable fun m => m.WaitsAtReadKey ∧ m.WellFormed where
  mode _ _ h := ⟨h.1.congr rfl rfl rfl, { h.2 with }⟩
  step h := ⟨h.1.step h.2, h.2.step⟩
  tick h := ⟨h.1.congr rfl rfl rfl, h.2.tick⟩
  playTone h := ⟨h.1.playTone, h.2.playTone⟩
  reset h := ⟨reset _, h.2.reset⟩
  cycleTime hlt h := ⟨h.1.congr rfl rfl rfl, { h.2 with cycleTime_lt := hlt }⟩
  timerTime hlt h := ⟨h.1.congr rfl rfl rfl, { h.2 with timerTime_lt := hlt }⟩
  updatedAt _ h := ⟨h.1.congr rfl rfl rfl, { h.2 with }⟩

theorem orKeep (h : m.WaitsAtReadKey) {result : Except Fault Machine}
    (hresult : ∀ after, result = .ok after → after.awaited = none) :
    (m.orKeep result).machine.WaitsAtReadKey := by
  cases result with
  | ok after => exact of_awaited_eq_none (hresult after rfl)
  | error fault => exact h

end WaitsAtReadKey

theorem awaited_of_load {program : List UInt8} {loaded : Machine}
    (h : m.load program = .ok loaded) : loaded.awaited = none := by
  unfold load at h
  split at h
  · cases h
  · cases h
    rfl

theorem WaitsAtReadKey.apply (h : m.WaitsAtReadKey) (hw : m.WellFormed) {operation : Operation}
    (hfetches : operation.Fetches) : (m.apply operation).machine.WaitsAtReadKey := by
  cases operation with
  | load program => exact h.orKeep fun _ => awaited_of_load
  | loadFile content =>
    refine h.orKeep fun after hafter => ?_
    cases content with
    | ok program => exact awaited_of_load hafter
    | error cause => cases hafter
  | unload => exact of_awaited_eq_none m.awaited_unload
  | reset => exact reset m
  | step => exact h.step hw
  | advance elapsed => exact (stable.advance ⟨h, hw⟩ elapsed).1
  | update now => exact (stable.update ⟨h, hw⟩ now).1
  | execute opcode => exact hfetches.elim
  | setMode mode => exact h.setMode mode
  | pause => exact (stable.pause ⟨h, hw⟩).1
  | resume => exact (stable.resume ⟨h, hw⟩).1
  | setInstructionSet _ | setDialect _ | setProcessor _ | setSound _ | setGraphics _ | setKey _ _
  | setBreakpoints _ => exact h.congr rfl rfl rfl
  | control pressed => exact (stable.control ⟨h, hw⟩ pressed).1

theorem WaitsAtReadKey.run (h : m.WaitsAtReadKey) (hw : m.WellFormed)
    {operations : List Operation} (hfetches : ∀ operation ∈ operations, operation.Fetches) :
    (m.run operations).WaitsAtReadKey := by
  induction operations generalizing m with
  | nil => exact h
  | cons operation rest ih =>
    rw [List.forall_mem_cons] at hfetches
    exact ih (h.apply hw hfetches.1) (hw.apply operation) hfetches.2

-- At `Fx0A` a machine stays until the lowest key of the first table with a held one is released
-- again. It then has the key in Vx and goes on. Whatever else is pressed and released meanwhile
-- does not matter, and without a release it stays for good. Only a machine that was handed an
-- opcode from outside can wait elsewhere.
theorem readKey_press_and_release :
    (∀ (m : Machine) (x : Register) (tables : Nat → KeyTable), m.mode ≠ .empty →
      m.awaited = none → m.registers.pc ≤ 0xFFF → m.nextOpcode = Opcode.ofReadKey x →
        (∀ i key j, FirstPress tables i key → FirstRelease tables i key j →
          (∀ n < j, m.stepUnder tables n = done { m with
            keys := tables n
            awaited := if n < i then none else some (UInt8.ofNat key.val) }) ∧
          m.stepUnder tables j = done { m with
            keys := tables j
            awaited := none
            registers := { m.registers.set x (UInt8.ofNat key.val) with
              pc := (m.registers.pc + 2) &&& 0xFFF } }) ∧
        ((¬∃ i key j, FirstPress tables i key ∧ FirstRelease tables i key j) →
          ∀ n, ∃ awaited, m.stepUnder tables n = done { m with keys := tables n, awaited })) ∧
      ∀ (config : Config) (operations : List Operation),
        (∀ operation ∈ operations, operation.Fetches) →
          ((new config).run operations).WaitsAtReadKey := by
  refine ⟨fun m x tables hmode hawaited hpc hword => ?_, fun config operations hfetches => ?_⟩
  · have h : m.AtReadKey x := ⟨hmode, hpc, hword⟩
    refine ⟨fun i key j hpress hrelease => ⟨fun n hn => ?_, ?_⟩, h.stepUnder_never hawaited⟩
    · exact h.stepUnder_of_lt hawaited hpress hrelease hn
    · exact h.stepUnder_release hawaited hpress hrelease
  · exact (WaitsAtReadKey.of_awaited_eq_none rfl).run (wellFormed_new config) hfetches

-- Keys 5 and 9 go down together, 2 follows, and 5 is the first to be released.
theorem lowest_key_read :
    let m := (new (.standard 0)).run [.load [0xF3, 0x0A], .setMode .step]
    let held (keys : List Key) : KeyTable := Vector.ofFn fun key => keys.contains key
    let tables : Nat → KeyTable
      | 0 => held []
      | 1 => held [5, 9]
      | 2 => held [2, 5]
      | _ => held [2]
    m.mode ≠ .empty ∧ m.awaited = none ∧ m.registers.pc ≤ 0xFFF ∧
      m.nextOpcode = Opcode.ofReadKey 3 ∧ FirstPress tables 1 5 ∧ FirstRelease tables 1 5 3 ∧
      (m.stepUnder tables 2).machine.registers.pc = 0x200 ∧
      (m.stepUnder tables 3).machine.registers.pc = 0x202 ∧
      (m.stepUnder tables 3).machine.get 3 = 5 := by
  intro m held tables
  have hmode : m.mode ≠ .empty := by decide
  have hstart : m.registers.pc = 0x200 := rfl
  have hpc : m.registers.pc ≤ 0xFFF := by decide
  have hmemory : m.memory = Memory.powerOn.install [0xF3, 0x0A] := rfl
  have hword : m.nextOpcode = Opcode.ofReadKey 3 := by
    rw [nextOpcode, hmemory, hstart, Memory.readWord, Memory.read_install_of_le _ _ (by decide),
      Memory.read_install_of_le _ _ (by decide)]
    decide
  have hget (keys : List Key) (key : Key) : (held keys).get key = keys.contains key :=
    Vector.getElem_ofFn key.isLt
  have hpress : FirstPress tables 1 5 := by
    refine ⟨fun n hn other => ?_, hget [5, 9] 5, fun other hlt => ?_⟩
    · obtain rfl : n = 0 := by omega
      exact hget [] other
    · refine (hget [5, 9] other).trans ?_
      revert other
      decide
  have hrelease : FirstRelease tables 1 5 3 := by
    refine ⟨by decide, fun n hn hlt => ?_, hget [2] 5⟩
    obtain rfl | rfl : n = 1 ∨ n = 2 := by omega
    · exact hget [5, 9] 5
    · exact hget [2, 5] 5
  obtain ⟨hbefore, hafter⟩ :=
    (readKey_press_and_release.1 m 3 tables hmode rfl hpc hword).1 1 5 3 hpress hrelease
  refine ⟨hmode, rfl, hpc, hword, hpress, hrelease, ?_, ?_, ?_⟩
  · rw [hbefore 2 (by decide)]
    exact hstart
  · rw [hafter]
    change (m.registers.pc + 2) &&& 0xFFF = 0x202
    rw [hstart]
    decide
  · rw [hafter]
    rfl

end Machine

end Chip8
