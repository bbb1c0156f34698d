import Chip8.Machine.Operation
import Chip8.Proofs.Machine.Footprint
import Chip8.Proofs.Machine.WellFormed

namespace Chip8

namespace Opcode

-- `2nnn`
def isCall (opcode : UInt16) : Bool := family opcode == 2

-- Words in which each `2nnn` has its `00EE` and each `00EE` its `2nnn`.
inductive WellNested : List UInt16 → Prop
  | nil : WellNested []
  | other {opcode : UInt16} {rest : List UInt16} (hcall : isCall opcode = false)
    (hret : opcode ≠ 0x00EE) (hrest : WellNested rest) : WellNested (opcode :: rest)
  | call {opcode : UInt16} {body rest : List UInt16} (hcall : isCall opcode = true)
    (hbody : WellNested body) (hrest : WellNested rest) :
    WellNested (opcode :: (body ++ 0x00EE :: rest))

-- A `00EE` that comes after `upto` matches the `2nnn` that comes after `before`.
def Matches (before upto : List UInt16) : Prop :=
  ∃ call body, isCall call = true ∧ WellNested body ∧ upto = before ++ call :: body

variable {opcode : UInt16}

theorem decode_of_isCall (h : isCall opcode = true) :
    decode opcode = some (.call (address opcode)) := by
  have hfamily : (family opcode).val = 2 := by rw [beq_iff_eq.mp h]; rfl
  unfold decode
  simp only [hfamily]

theorem isCall_of_decode {target : UInt16} (h : decode opcode = some (.call target)) :
    isCall opcode = true := by
  have htarget : target ≤ 0xFFF := inRange_of_decode h
  have hword := toNat_of_decode h
  rw [UInt16.le_iff_toNat_le] at htarget
  simp only [UInt16.reduceToNat, encode] at htarget hword
  rw [isCall, beq_iff_eq, Fin.ext_iff]
  simp only [family, digit, Fin.val_ofNat, Nat.shiftRight_eq_div_pow]
  change _ = 2
  omega

theorem not_isCall_ret : isCall 0x00EE = false := by decide

theorem not_isCall_exit : isCall 0x00FD = false := by decide

-- In a well-nested word no return is without its call.
theorem WellNested.exists_matches {opcodes : List UInt16} (h : WellNested opcodes)
    {upto rest : List UInt16} (hsplit : opcodes = upto ++ 0x00EE :: rest) :
    ∃ before, Matches before upto := by
  induction h generalizing upto rest with
  | nil => simp at hsplit
  | @other opcode tail hcall hret htail ih =>
    cases upto with
    | nil => exact absurd (List.cons.inj hsplit).1 hret
    | cons first upto =>
      obtain ⟨rfl, htail⟩ := List.cons.inj hsplit
      obtain ⟨before, call, body, hmatch, hbody, rfl⟩ := ih htail
      exact ⟨opcode :: before, call, body, hmatch, hbody, rfl⟩
  | @call opcode body tail hcall hbody htail ihbody ihtail =>
    cases upto with
    | nil =>
      obtain ⟨rfl, -⟩ := List.cons.inj hsplit
      cases hcall
    | cons first upto =>
      obtain ⟨rfl, hword⟩ := List.cons.inj hsplit
      -- The return stands in the body, ends it, or comes later.
      rcases List.append_eq_append_iff.mp hword with ⟨later, rfl, hlater⟩ | ⟨inner, rfl, hinner⟩
      · cases later with
        | nil => exact ⟨[], opcode, body, hcall, hbody, by simp⟩
        | cons second later =>
          obtain ⟨rfl, htail⟩ := List.cons.inj hlater
          obtain ⟨before, call, body', hmatch, hbody', rfl⟩ := ihtail htail
          exact ⟨opcode :: (body ++ 0x00EE :: before), call, body', hmatch, hbody', by simp⟩
      · cases inner with
        | nil => exact ⟨[], opcode, upto, hcall, by simpa using hbody, rfl⟩
        | cons second inner =>
          obtain ⟨rfl, -⟩ := List.cons.inj hinner
          obtain ⟨before, call, body', hmatch, hbody', rfl⟩ := ihbody rfl
          exact ⟨opcode :: before, call, body', hmatch, hbody', rfl⟩

end Opcode

namespace Machine

open Opcode (isCall WellNested Matches)

variable {m : Machine} {opcode : UInt16} {opcodes : List UInt16}

theorem stack_perform {i : Instruction} (hexit : i ≠ .exit) (hret : i ≠ .ret)
    (hcall : ∀ target, i ≠ .call target) :
    (m.perform i).machine.registers.stack = m.registers.stack := by
  apply (m.footprint_perform_registers i).stack
  cases i with
  | exit => exact absurd rfl hexit
  | ret => exact absurd rfl hret
  | call target => exact absurd rfl (hcall target)
  | _ => exact of_decide_eq_true rfl

theorem execute_of_isCall (h : isCall opcode = true) :
    m.execute opcode = m.call (Opcode.address opcode) := by
  have hkind : Instruction.Kind.call ∈ Instruction.Kind.chip8 := by decide
  exact execute_of_chip8 (Opcode.decode_of_isCall h) hkind

theorem execute_ret (m : Machine) : m.execute 0x00EE = m.ret :=
  execute_of_chip8 (i := .ret) (by decide) (by decide)

-- What an opcode that succeeds does to the stack.
theorem execute_stack_cases (hexit : opcode ≠ 0x00FD) (hok : (m.execute opcode).fault = none) :
    let after := (m.execute opcode).machine.registers
    (isCall opcode = true ∧ m.registers.stack.length < 12 ∧
      after.stack = m.registers.pc :: m.registers.stack) ∨
    (opcode = 0x00EE ∧ m.registers.stack = after.pc :: after.stack) ∨
    (isCall opcode = false ∧ opcode ≠ 0x00EE ∧ after.stack = m.registers.stack) := by
  intro after
  cases hcall : isCall opcode with
  | true =>
    simp only [after, execute_of_isCall hcall, call] at hok ⊢
    split at hok
    case isTrue => simp at hok
    case isFalse hlt =>
      refine .inl ⟨trivial, Nat.lt_of_not_le hlt, ?_⟩
      rw [if_neg hlt]
      rfl
  | false =>
    refine .inr ?_
    by_cases hret : opcode = 0x00EE
    · subst hret
      refine .inl ⟨rfl, ?_⟩
      simp only [after, execute_ret, ret] at hok ⊢
      cases hstack : m.registers.stack with
      | nil => simp [hstack] at hok
      | cons pc stack => rfl
    · refine .inr ⟨rfl, hret, ?_⟩
      cases hi : m.instruction? opcode with
      | none => simp [execute_of_eq_none hi] at hok
      | some i =>
        have hdecode := ((m.instruction?_eq_some_iff opcode i).mp hi).1
        simp only [after, execute_of_eq_some hi]
        refine stack_perform (fun h => ?_) (fun h => ?_) (fun target h => ?_)
        · exact hexit (Opcode.eq_of_decode_exit (h ▸ hdecode))
        · exact hret (Opcode.eq_of_decode_ret (h ▸ hdecode))
        · simp [Opcode.isCall_of_decode (h ▸ hdecode)] at hcall

-- What executing opcodes until one fails leaves behind.
def executed (m : Machine) (opcodes : List UInt16) : Outcome := (executeAll opcodes m).2

theorem executed_cons (h : (m.execute opcode).fault = none) (rest : List UInt16) :
    m.executed (opcode :: rest) = (m.execute opcode).machine.executed rest := by
  simp only [executed, executeAll, h]

-- A word succeeds where its parts do, one after the other.

theorem executed_cons_of_ok {rest : List UInt16}
    (hok : (m.executed (opcode :: rest)).fault = none) :
    (m.execute opcode).fault = none ∧
      m.executed (opcode :: rest) = (m.execute opcode).machine.executed rest := by
  cases h : (m.execute opcode).fault with
  | none => exact ⟨rfl, executed_cons h rest⟩
  | some fault => simp [executed, executeAll, h] at hok

theorem executed_append_of_ok {first rest : List UInt16}
    (hok : (m.executed (first ++ rest)).fault = none) :
    (m.executed first).fault = none ∧
      m.executed (first ++ rest) = (m.executed first).machine.executed rest := by
  induction first generalizing m with
  | nil => exact ⟨rfl, rfl⟩
  | cons opcode first ih =>
    rw [List.cons_append] at hok ⊢
    obtain ⟨hfirst, hrun⟩ := executed_cons_of_ok hok
    rw [hrun] at hok ⊢
    rw [executed_cons hfirst]
    exact ih hok

-- Wherever the opcodes succeed the stack is as it was before.
def KeepsStack (opcodes : List UInt16) : Prop :=
  ∀ m : Machine, (m.executed opcodes).fault = none →
    (m.executed opcodes).machine.registers.stack = m.registers.stack

-- Between a call and its return the stack holds where the call was made.
theorem KeepsStack.enclosed {body : List UInt16} (h : KeepsStack body)
    (hcall : isCall opcode = true)
    (hok : (m.executed (opcode :: (body ++ [0x00EE]))).fault = none) :
    let after := (m.executed (opcode :: (body ++ [0x00EE]))).machine.registers
    after.pc = m.registers.pc ∧ after.stack = m.registers.stack := by
  intro after
  obtain ⟨hcallok, hrun⟩ := executed_cons_of_ok hok
  rw [hrun] at hok
  obtain ⟨hbodyok, hbodyrun⟩ := executed_append_of_ok hok
  rw [hbodyrun] at hok
  obtain ⟨hretok, hretrun⟩ := executed_cons_of_ok hok
  have hpushed : (m.execute opcode).machine.registers.stack =
      m.registers.pc :: m.registers.stack := by
    have hexit : opcode ≠ 0x00FD := fun heq => by simp [heq, Opcode.not_isCall_exit] at hcall
    rcases execute_stack_cases hexit hcallok with ⟨-, -, hstack⟩ | ⟨hret, -⟩ | ⟨hother, -, -⟩
    · exact hstack
    · simp [hret, Opcode.not_isCall_ret] at hcall
    · simp [hother] at hcall
  have hheld := (h _ hbodyok).trans hpushed
  have hpopped : after.pc :: after.stack = m.registers.pc :: m.registers.stack := by
    rcases execute_stack_cases (by decide) hretok with ⟨hcall', -, -⟩ | ⟨-, hstack⟩ | ⟨-, hne, -⟩
    · simp [Opcode.not_isCall_ret] at hcall'
    · simp only [after, hrun, hbodyrun, hretrun]
      exact hstack.symm.trans hheld
    · exact absurd rfl hne
  exact List.cons.inj hpopped

-- Along the word, where a call, its body and its return are one step.
theorem keepsStack_of_wellNested (h : WellNested opcodes) (hexit : 0x00FD ∉ opcodes) :
    KeepsStack opcodes := by
  induction h with
  | nil => exact fun _ _ => rfl
  | other hcall hret _ ih =>
    rw [List.mem_cons, not_or] at hexit
    intro m hok
    obtain ⟨hfirst, hrun⟩ := executed_cons_of_ok hok
    rw [hrun] at hok ⊢
    refine (ih hexit.2 _ hok).trans ?_
    rcases execute_stack_cases (Ne.symm hexit.1) hfirst with ⟨h, -, -⟩ | ⟨h, -⟩ | ⟨-, -, h⟩
    · simp [h] at hcall
    · exact absurd h hret
    · exact h
  | @call opcode body rest hcall _ _ ihbody ihrest =>
    simp only [List.mem_cons, List.mem_append, not_or] at hexit
    intro m hok
    have hword : opcode :: (body ++ 0x00EE :: rest) =
        (opcode :: (body ++ [0x00EE])) ++ rest := by simp
    rw [hword] at hok ⊢
    obtain ⟨hcallok, hrun⟩ := executed_append_of_ok hok
    rw [hrun] at hok ⊢
    exact (ihrest hexit.2.2.2 _ hok).trans ((ihbody hexit.2.1).enclosed hcall hcallok).2

-- The depth counts the calls that have not returned, and never passes the capacity.
theorem length_stack_executed (hexit : 0x00FD ∉ opcodes) (hdepth : m.registers.stack.length ≤ 12)
    (hok : (m.executed opcodes).fault = none) :
    let after := (m.executed opcodes).machine.registers
    after.stack.length + opcodes.count 0x00EE =
        m.registers.stack.length + opcodes.countP isCall ∧
      after.stack.length ≤ 12 := by
  induction opcodes generalizing m with
  | nil => exact ⟨rfl, hdepth⟩
  | cons opcode rest ih =>
    rw [List.mem_cons, not_or] at hexit
    obtain ⟨hfirst, hrun⟩ := executed_cons_of_ok hok
    rw [hrun] at hok
    simp only [hrun]
    rcases execute_stack_cases (Ne.symm hexit.1) hfirst with
      ⟨hcall, hlt, hstack⟩ | ⟨rfl, hstack⟩ | ⟨hcall, hret, hstack⟩
    · have hlength := congrArg List.length hstack
      have hret : opcode ≠ 0x00EE := fun heq => by simp [heq, Opcode.not_isCall_ret] at hcall
      rw [List.length_cons] at hlength
      have hrest := ih hexit.2 (by omega) hok
      simp only [List.count_cons, List.countP_cons, hcall, beq_iff_eq, hret, if_true, if_false]
      omega
    · have hlength := congrArg List.length hstack
      rw [List.length_cons] at hlength
      have hrest := ih hexit.2 (by omega) hok
      simp only [List.count_cons, List.countP_cons, Opcode.not_isCall_ret, beq_self_eq_true,
        Bool.false_eq_true, if_true, if_false]
      omega
    · have hlength := congrArg List.length hstack
      have hrest := ih hexit.2 (by omega) hok
      simp only [List.count_cons, List.countP_cons, hcall, beq_iff_eq, hret, Bool.false_eq_true,
        if_false]
      omega

theorem fault_execute_of_isCall (h : isCall opcode = true) :
    (m.execute opcode).fault =
      if 12 ≤ m.registers.stack.length then some .stackOverflow else none := by
  rw [execute_of_isCall h, call, apply_ite Outcome.fault]
  rfl

theorem fault_execute_ret (m : Machine) :
    (m.execute 0x00EE).fault =
      if m.registers.stack.length = 0 then some .stackUnderflow else none := by
  rw [execute_ret, ret]
  cases m.registers.stack <;> rfl

-- Calls and returns match. A return goes back to where its call was made, a word in which they
-- are well nested leaves the stack as it was, and a call fails just when twelve are open, a
-- return just when none is.
theorem calls_and_returns_match (m : Machine) (opcodes : List UInt16)
    (hdepth : m.registers.stack.length ≤ 12) (hexit : 0x00FD ∉ opcodes)
    (hok : (m.executed opcodes).fault = none) :
    (WellNested opcodes →
      (m.executed opcodes).machine.registers.stack = m.registers.stack ∧
      ∀ upto rest, opcodes = upto ++ 0x00EE :: rest →
        (∃ before, Matches before upto) ∧
        ∀ before, Matches before upto →
          (m.executed (upto ++ [0x00EE])).machine.registers.pc =
            (m.executed before).machine.registers.pc) ∧
    (∀ opcode, isCall opcode = true →
      ((m.executed opcodes).machine.execute opcode).fault =
        if m.registers.stack.length + opcodes.countP isCall = 12 + opcodes.count 0x00EE
        then some .stackOverflow else none) ∧
    ((m.executed opcodes).machine.execute 0x00EE).fault =
      if m.registers.stack.length + opcodes.countP isCall = opcodes.count 0x00EE
      then some .stackUnderflow else none := by
  obtain ⟨hlength, hle⟩ := length_stack_executed hexit hdepth hok
  refine ⟨fun hnested => ⟨keepsStack_of_wellNested hnested hexit m hok, ?_⟩, ?_, ?_⟩
  · intro upto rest hsplit
    refine ⟨hnested.exists_matches hsplit, ?_⟩
    rintro before ⟨call, body, hcall, hbody, rfl⟩
    have hword : opcodes = (before ++ call :: (body ++ [0x00EE])) ++ rest := by simp [hsplit]
    rw [hword] at hok hexit
    simp only [List.mem_append, List.mem_cons, not_or] at hexit
    have hkeeps := keepsStack_of_wellNested hbody hexit.1.2.2.1
    obtain ⟨hreturned, -⟩ := executed_append_of_ok hok
    obtain ⟨-, hrun⟩ := executed_append_of_ok hreturned
    rw [hrun] at hreturned
    rw [List.append_assoc, List.cons_append, hrun]
    exact (hkeeps.enclosed hcall hreturned).1
  · intro opcode hcall
    rw [fault_execute_of_isCall hcall]
    refine if_congr ?_ rfl rfl
    omega
  · rw [fault_execute_ret]
    refine if_congr ?_ rfl rfl
    omega

-- A subroutine calls another one and jumps before it returns. Twelve calls deep there is no room
-- for one more.
theorem nested_calls_return :
    let m := new (.standard 0)
    let opcodes : List UInt16 := [0x2300, 0x6105, 0x2400, 0x00EE, 0x1234, 0x00EE]
    let calls : List UInt16 := List.replicate 12 0x2300
    m.registers.stack.length ≤ 12 ∧ 0x00FD ∉ opcodes ++ calls ∧
      (m.executed opcodes).fault = none ∧ (m.executed calls).fault = none ∧
      WellNested opcodes ∧ Matches [] opcodes.dropLast ∧
      (m.executed opcodes).machine.registers.stack = [] ∧
      (m.executed opcodes).machine.registers.pc = 0x200 ∧
      ((m.executed calls).machine.execute 0x2300).fault = some .stackOverflow := by
  intro m opcodes calls
  have hdepth : m.registers.stack.length ≤ 12 := by decide
  have hexit : 0x00FD ∉ opcodes := by decide
  have hcallsexit : 0x00FD ∉ calls := by decide
  have hok : (m.executed opcodes).fault = none := by decide
  have hcalls : (m.executed calls).fault = none := by decide
  have hinner : WellNested [0x6105, 0x2400, 0x00EE, 0x1234] :=
    .other (by decide) (by decide) (.call (by decide) .nil
      (.other (by decide) (by decide) .nil))
  have hnested : WellNested opcodes := .call (by decide) hinner .nil
  have hmatch : Matches [] opcodes.dropLast := ⟨0x2300, _, by decide, hinner, rfl⟩
  obtain ⟨hwhole, -, -⟩ := calls_and_returns_match m opcodes hdepth hexit hok
  obtain ⟨hstack, hpc⟩ := hwhole hnested
  have hback := (hpc opcodes.dropLast [] rfl).2 [] hmatch
  have hword : opcodes.dropLast ++ [0x00EE] = opcodes := rfl
  rw [hword] at hback
  obtain ⟨-, hfault, -⟩ := calls_and_returns_match m calls hdepth hcallsexit hcalls
  have hfull : m.registers.stack.length + calls.countP isCall = 12 + calls.count 0x00EE := by
    decide
  have hover := hfault 0x2300 (by decide)
  rw [if_pos hfull] at hover
  refine ⟨hdepth, ?_, hok, hcalls, hnested, hmatch, hstack, hback, hover⟩
  rw [List.mem_append, not_or]
  exact ⟨hexit, hcallsexit⟩

end Machine

end Chip8
