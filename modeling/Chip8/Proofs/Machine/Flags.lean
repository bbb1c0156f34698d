import Chip8.Proofs.Machine.Succession

namespace Chip8

-- `Fx75` was executed and went through.
def Execution.Saves (e : Execution) (x : Register) : Prop :=
  Opcode.decode e.opcode = some (.saveFlags x) ∧ (e.machine.execute e.opcode).fault = none

-- `Fx85` was executed and went through.
def Execution.Loads (e : Execution) (x : Register) : Prop :=
  Opcode.decode e.opcode = some (.loadFlags x) ∧ (e.machine.execute e.opcode).fault = none

def NoSave (executions : List Execution) : Prop := ∀ e ∈ executions, ∀ x, ¬e.Saves x

-- The register that a flag is saved from and loaded to.
def registerOf (flag : Fin 8) : Register := flag.castLE (by decide)

-- What the flags hold since V0 to Vn were saved by this execution.
structure Execution.SavedIn (e : Execution) (n : Register) (flags : Vector UInt8 8) : Prop where
  bound : n.val ≤ 7
  saved : ∀ k : Fin 8, k.val ≤ n.val → flags.get k = e.machine.get (registerOf k)
  kept : ∀ k : Fin 8, n.val < k.val → flags.get k = e.machine.flags.get k

-- What becomes of a machine where V0 to Vx are loaded by this execution.
structure Execution.LoadedTo (e : Execution) (x : Register) (after : Machine) : Prop where
  bound : x.val ≤ 7
  loaded : ∀ k : Fin 8, k.val ≤ x.val → after.get (registerOf k) = e.machine.flags.get k
  kept : ∀ k : Register, x < k → after.get k = e.machine.get k
  only : ∃ v, after = { e.machine with registers := { e.machine.registers with v } }

namespace Machine

variable {m : Machine}

theorem instruction?_of_fault_eq_none {opcode : UInt16} {i : Instruction}
    (hdecode : Opcode.decode opcode = some i) (hfault : (m.execute opcode).fault = none) :
    m.instruction? opcode = some i := by
  cases hi : m.instruction? opcode with
  | none =>
    rw [execute_of_eq_none hi, fault_fail] at hfault
    cases hfault
  | some known =>
    obtain rfl := Option.some.inj
      (hdecode.symm.trans ((m.instruction?_eq_some_iff opcode known).mp hi).1)
    rfl

theorem get_ofFn {n : Nat} (f : Fin n → UInt8) (k : Fin n) : (Vector.ofFn f).get k = f k :=
  Vector.getElem_ofFn k.isLt

theorem getD_toList {n : Nat} (v : Vector UInt8 n) (k : Fin n) (value : UInt8) :
    v.toList.getD k value = v.get k := by
  have hk : k.val < v.toList.length := v.length_toList.symm ▸ k.isLt
  rw [List.getD_eq_getElem?_getD, List.getElem?_eq_getElem hk, Option.getD_some,
    Vector.getElem_toList]
  rfl

theorem getD_take_succ {l : List UInt8} {x k : Nat} {value : UInt8} :
    (l.take (x + 1)).getD k value = if k ≤ x then l.getD k value else value := by
  simp only [List.getD_eq_getElem?_getD, List.getElem?_take, Nat.lt_succ_iff]
  split <;> rfl

theorem saves_execute {e : Execution} {n : Register} (h : e.Saves n) :
    n.val ≤ 7 ∧ e.machine.execute e.opcode = done { e.machine with
      flags := Vector.ofFn fun k =>
        (e.machine.firstRegisters n).getD k (e.machine.flags.get k) } := by
  have hi := instruction?_of_fault_eq_none h.1 h.2
  have hfault := h.2
  rw [execute_of_eq_some hi, perform, saveFlags] at hfault ⊢
  split at hfault
  case isTrue hn => exact ⟨Nat.le_of_lt_succ hn, if_pos hn⟩
  case isFalse => cases hfault

theorem loads_execute {e : Execution} {x : Register} (h : e.Loads x) :
    x.val ≤ 7 ∧ e.machine.execute e.opcode =
      (e.machine.setFirst (e.machine.flags.toList.take (x + 1))).done := by
  have hi := instruction?_of_fault_eq_none h.1 h.2
  have hfault := h.2
  rw [execute_of_eq_some hi, perform, loadFlags] at hfault ⊢
  split at hfault
  case isTrue hx => exact ⟨Nat.le_of_lt_succ hx, if_pos hx⟩
  case isFalse => cases hfault

theorem savedIn_of_saves {e : Execution} {n : Register} (h : e.Saves n) :
    e.SavedIn n (e.machine.execute e.opcode).machine.flags := by
  obtain ⟨hn, hexecute⟩ := saves_execute h
  have hflag (k : Fin 8) : (e.machine.execute e.opcode).machine.flags.get k =
      if k.val ≤ n.val then e.machine.get (registerOf k) else e.machine.flags.get k := by
    have hregister : e.machine.registers.v.toList.getD k.val (e.machine.flags.get k) =
        e.machine.get (registerOf k) :=
      getD_toList e.machine.registers.v (registerOf k) _
    rw [hexecute, machine_done, get_ofFn, firstRegisters, getD_take_succ, hregister]
  exact ⟨hn, fun k hk => (hflag k).trans (if_pos hk),
    fun k hk => (hflag k).trans (if_neg (Nat.not_le_of_lt hk))⟩

theorem loadedTo_of_loads {e : Execution} {x : Register} (h : e.Loads x) :
    e.LoadedTo x (e.machine.execute e.opcode).machine := by
  obtain ⟨hx, hexecute⟩ := loads_execute h
  rw [hexecute, machine_done]
  refine ⟨hx, ?_, ?_, _, rfl⟩
  · intro k hk
    rw [get_setFirst, getD_take_succ]
    exact (if_pos hk).trans (getD_toList e.machine.flags k _)
  · intro k hk
    rw [get_setFirst, getD_take_succ, if_neg (Nat.not_le_of_lt hk)]

theorem flags_execute_of_not_saves {e : Execution} (h : ∀ x, ¬e.Saves x) :
    (e.machine.execute e.opcode).machine.flags = e.machine.flags := by
  cases hfault : (e.machine.execute e.opcode).fault with
  | some fault => rw [machine_execute_of_fault hfault]
  | none =>
    apply (e.machine.flags_and_random_execute e.opcode).1
    intro hkind
    obtain ⟨i, hi, hsave⟩ := Option.map_eq_some_iff.mp hkind
    have hdecode := ((e.machine.instruction?_eq_some_iff e.opcode i).mp hi).1
    cases i with
    | saveFlags x => exact h x ⟨hdecode, hfault⟩
    | _ => cases hsave

theorem flags_of_handsOn {first last : Vector UInt8 8} {es : List Execution}
    (h : HandsOn Machine.flags first es last) (hes : NoSave es) : last = first := by
  induction es generalizing first with
  | nil => exact h
  | cons e rest ih =>
    obtain ⟨rfl, hrest⟩ := h
    rw [flags_execute_of_not_saves (hes e List.mem_cons_self)] at hrest
    exact ih hrest fun e' he' => hes e' (List.mem_cons_of_mem e he')

theorem handsOn_flags_history (m : Machine) (operations : List Operation) :
    HandsOn Machine.flags m.flags (m.history operations) (m.run operations).flags :=
  carried_flags.handsOn_history fun _ _ _ => rfl

-- What was saved is still there after executions that save nothing.
theorem savedIn_of_handsOn {first last : Vector UInt8 8} {earlier later : List Execution}
    {e : Execution} {n : Register}
    (h : HandsOn Machine.flags first (earlier ++ e :: later) last) (he : e.Saves n)
    (hlater : NoSave later) : e.SavedIn n last := by
  obtain ⟨_, -, -, hafter⟩ := handsOn_append_iff.mp h
  rw [flags_of_handsOn hafter hlater]
  exact savedIn_of_saves he

-- The flags as one number.

theorem shiftRight_eight (n : Nat) : n >>> 8 = n / 256 := Nat.shiftRight_eq_div_pow n 8

theorem shiftLeft_succ (count : Nat) : 1 <<< (8 * (count + 1)) = 256 * 1 <<< (8 * count) := by
  rw [Nat.mul_succ, Nat.shiftLeft_add, Nat.shiftLeft_eq _ 8, Nat.mul_comm]

theorem byte_foldr (bytes : List UInt8) (k : Nat) :
    (bytes.foldr (fun flag word => flag.toNat + 256 * word) 0 >>> (8 * k)) % 256 =
      (bytes.getD k 0).toNat := by
  induction bytes generalizing k with
  | nil => simp
  | cons byte rest ih =>
    have hbyte := byte.toNat_lt
    rw [List.foldr_cons]
    cases k with
    | zero =>
      rw [Nat.mul_zero, Nat.shiftRight_zero, Nat.add_mul_mod_self_left]
      exact Nat.mod_eq_of_lt hbyte
    | succ k =>
      have hdrop (word : Nat) : (byte.toNat + 256 * word) >>> 8 = word := by
        rw [shiftRight_eight]
        omega
      rw [Nat.mul_succ, Nat.add_comm (8 * k), Nat.shiftRight_add, hdrop, ih]
      rfl

theorem foldr_lt (bytes : List UInt8) :
    bytes.foldr (fun flag word => flag.toNat + 256 * word) 0 < 1 <<< (8 * bytes.length) := by
  induction bytes with
  | nil => exact Nat.one_pos
  | cons byte rest ih =>
    have hbyte := byte.toNat_lt
    rw [List.foldr_cons, List.length_cons, shiftLeft_succ]
    omega

-- Byte `k` of the number, counted from the lowest, is flag `k`.
theorem flagWord_byte (m : Machine) (k : Fin 8) :
    (m.flagWord >>> (8 * k.val)) % 256 = (m.flags.get k).toNat := by
  rw [flagWord, byte_foldr, getD_toList]

theorem flagWord_lt (m : Machine) : m.flagWord < UInt64.size := by
  have h := foldr_lt m.flags.toList
  rw [Vector.length_toList] at h
  exact h

theorem eq_of_bytes (count : Nat) {n n' : Nat} (hn : n < 1 <<< (8 * count))
    (hn' : n' < 1 <<< (8 * count))
    (h : ∀ k < count, (n >>> (8 * k)) % 256 = (n' >>> (8 * k)) % 256) : n = n' := by
  induction count generalizing n n' with
  | zero => exact (Nat.lt_one_iff.mp hn).trans (Nat.lt_one_iff.mp hn').symm
  | succ count ih =>
    rw [shiftLeft_succ] at hn hn'
    have hrest : n / 256 = n' / 256 := by
      refine ih (by omega) (by omega) fun k hk => ?_
      have hbyte := h (k + 1) (Nat.succ_lt_succ hk)
      rwa [Nat.mul_succ, Nat.add_comm (8 * k), Nat.shiftRight_add, Nat.shiftRight_add,
        shiftRight_eight, shiftRight_eight] at hbyte
    have hfirst : n % 256 = n' % 256 := h 0 count.succ_pos
    omega

theorem flagWord_of_flags_eq {word : UInt64} (h : m.flags = flagsOfWord word) :
    m.flagWord = word.toNat := by
  refine eq_of_bytes 8 m.flagWord_lt word.toNat_lt fun k hk => ?_
  rw [m.flagWord_byte ⟨k, hk⟩, h, flagsOfWord, get_ofFn, UInt8.toNat_ofNat']

-- The flags are those of the last save that succeeded, at the end of a run and wherever an
-- instruction finds them. Without any they are those that the machine was made with.
theorem flags_of_last_save (m : Machine) (operations : List Operation) :
    (∀ earlier e later n, m.history operations = earlier ++ e :: later → e.Saves n →
      NoSave later → e.SavedIn n (m.run operations).flags) ∧
    (∀ earlier e between e' later n,
      m.history operations = earlier ++ e :: (between ++ e' :: later) → e.Saves n →
        NoSave between → e.SavedIn n e'.machine.flags) ∧
    (∀ (e : Execution) (x : Register), e.Loads x →
      e.LoadedTo x (e.machine.execute e.opcode).machine) ∧
    ((∀ k : Fin 8, (m.flagWord >>> (8 * k.val)) % 256 = (m.flags.get k).toNat) ∧
      m.flagWord < UInt64.size) ∧
    ∀ config, m = new config → NoSave (m.history operations) →
      (m.run operations).flagWord = config.processor.flags.toNat := by
  have hhandsOn := m.handsOn_flags_history operations
  refine ⟨?_, ?_, fun e x => loadedTo_of_loads, ⟨m.flagWord_byte, m.flagWord_lt⟩, ?_⟩
  · intro earlier e later n hhistory he hlater
    rw [hhistory] at hhandsOn
    exact savedIn_of_handsOn hhandsOn he hlater
  · intro earlier e between e' later n hhistory he hbetween
    rw [hhistory, ← List.cons_append, ← List.append_assoc] at hhandsOn
    obtain ⟨flags, hflags, hfound, -⟩ := handsOn_append_iff.mp hhandsOn
    rw [hfound]
    exact savedIn_of_handsOn hflags he hbetween
  · rintro config rfl hnone
    exact flagWord_of_flags_eq (flags_of_handsOn hhandsOn hnone)

-- V0 and V1 are saved. Neither a save of registers that have no flag nor another program, its end
-- or a reset loses them.
theorem flags_of_ended_program :
    let m := (new (.standard 0)).run
      [.setInstructionSet .superChip, .execute 0x6005, .execute 0x6107]
    let operations : List Operation :=
      [.execute 0xF175, .execute 0xFF75, .load [0x60, 0x00], .execute 0x00FD, .reset]
    ∃ later, m.history operations = [] ++ ⟨m, 0xF175⟩ :: later ∧
      Execution.Saves ⟨m, 0xF175⟩ 1 ∧ NoSave later ∧
      (m.run operations).flags.get 0 = 5 ∧ (m.run operations).flags.get 1 = 7 := by
  intro m operations
  let failing : Execution := ⟨m.run [.execute 0xF175], 0xFF75⟩
  let last : Execution :=
    ⟨m.run [.execute 0xF175, .execute 0xFF75, .load [0x60, 0x00]], 0x00FD⟩
  have hsaves : Execution.Saves ⟨m, 0xF175⟩ 1 := ⟨by decide, by decide⟩
  have hhistory : m.history operations = [] ++ ⟨m, 0xF175⟩ :: [failing, last] := rfl
  have hnone : NoSave [failing, last] := by
    rw [NoSave, List.forall_mem_cons, List.forall_mem_singleton]
    constructor <;> intro x hsave
    · exact absurd hsave.2 (by decide)
    · have hexit : Opcode.decode last.opcode = some .exit := by decide
      cases hexit.symm.trans hsave.1
  obtain ⟨hend, -⟩ := flags_of_last_save m operations
  obtain ⟨-, hsaved, -⟩ := hend _ _ _ _ hhistory hsaves hnone
  exact ⟨_, hhistory, hsaves, hnone, (hsaved 0 (by decide)).trans (by decide),
    (hsaved 1 (by decide)).trans (by decide)⟩

end Machine

end Chip8
