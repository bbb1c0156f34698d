import Mathlib.Logic.Function.Basic
import Chip8.Proofs.Instruction.Encoding
import Chip8.Proofs.Machine.Failure

namespace Chip8

theorem Opcode.decode_arithmetic (a b : Register) :
    decode (ofDigits 8 a b 0x1) = some (.or a b) ∧
      decode (ofDigits 8 a b 0x2) = some (.and a b) ∧
      decode (ofDigits 8 a b 0x3) = some (.xor a b) ∧
      decode (ofDigits 8 a b 0x4) = some (.add a b) ∧
      decode (ofDigits 8 a b 0x5) = some (.sub a b) ∧
      decode (ofDigits 8 a b 0x6) = some (.shiftRight a b) ∧
      decode (ofDigits 8 a b 0x7) = some (.subFrom a b) ∧
      decode (ofDigits 8 a b 0xE) = some (.shiftLeft a b) := by
  have hdecode (c : Digit) : decode (ofDigits 8 a b c) = decodeArithmetic (ofDigits 8 a b c) := by
    obtain ⟨hfamily, -, -, -⟩ := digits_ofDigits 8 a b c
    rw [decode, hfamily]
    rfl
  simp only [hdecode, decodeArithmetic, digits_ofDigits]
  exact ⟨rfl, rfl, rfl, rfl, rfl, rfl, rfl, rfl⟩

namespace Machine

-- V0 to VF take these values, and nothing else changes.
def withValues (m : Machine) (values : Register → UInt8) : Machine :=
  { m with registers := { m.registers with v := Vector.ofFn values } }

-- Vx takes the result, and VF the flag after that.
def withResult (m : Machine) (x : Register) (result : Nat) (raised : Bool) : Machine :=
  m.withValues (Function.update (Function.update m.get x (UInt8.ofNat result))
    Registers.flag (if raised then 1 else 0))

-- The values that bitwise operations see.
def valuesSeen (m : Machine) : Register → UInt8 :=
  if m.config.dialect.logicClearsFlag then Function.update m.get Registers.flag 0 else m.get

-- The number that shifts work on.
def shifted (m : Machine) (x y : Register) : Nat :=
  if m.config.dialect.shiftCopiesY then (m.get y).toNat else (m.get x).toNat

variable (m : Machine) (x y : Register)

theorem get_withValues (values : Register → UInt8) : (m.withValues values).get = values := by
  funext k
  simp only [get, withValues, Registers.get, Fin.getElem_fin, Vector.getElem_ofFn]

theorem setRegister_eq (value : UInt8) :
    m.setRegister x value = m.withValues (Function.update m.get x value) := by
  have hv : m.registers.v.set x value x.isLt = Vector.ofFn (Function.update m.get x value) := by
    apply Vector.ext
    intro k hk
    have hget := m.registers.get_set x ⟨k, hk⟩ value
    simp only [Registers.get, Registers.set, Fin.getElem_fin] at hget
    rw [hget, Vector.getElem_ofFn, Function.update_apply]
    simp only [eq_comm (a := x)]
    rfl
  rw [setRegister, Registers.set, hv]
  rfl

theorem setRegister_withValues (values : Register → UInt8) (value : UInt8) :
    (m.withValues values).setRegister x value =
      m.withValues (Function.update values x value) := by
  rw [setRegister_eq, get_withValues]
  rfl

theorem setWithFlag_eq {value : UInt8} {result : Nat} (hvalue : value.toNat = result)
    (raised : Bool) : m.setWithFlag x value raised = m.withResult x result raised := by
  have hwrites : m.setWithFlag x value raised =
      (m.setRegister x value).setRegister Registers.flag (if raised then 1 else 0) := rfl
  rw [hwrites, m.setRegister_eq x, setRegister_withValues, withResult, ← hvalue, UInt8.ofNat_toNat]

theorem logic_eq (f : UInt8 → UInt8 → UInt8) :
    m.logic f x y = m.withValues
      (Function.update m.valuesSeen x (f (m.valuesSeen x) (m.valuesSeen y))) := by
  unfold logic valuesSeen
  split
  · simp only [setRegister_eq _ Registers.flag, setRegister_withValues, get_withValues]
  · exact m.setRegister_eq x _

theorem toNat_shiftSource : (m.shiftSource x y).toNat = m.shifted x y := by
  unfold shiftSource shifted
  split <;> rfl

theorem addRegisters_eq :
    m.addRegisters x y = m.withResult x (((m.get x).toNat + (m.get y).toNat) % 256)
      (decide (256 ≤ (m.get x).toNat + (m.get y).toNat)) :=
  m.setWithFlag_eq x (UInt8.toNat_add _ _) _

theorem subtract_eq (left right : UInt8) :
    m.subtract x left right = m.withResult x ((256 + left.toNat - right.toNat) % 256)
      (decide (right.toNat ≤ left.toNat)) := by
  have hright := right.toNat_lt
  refine m.setWithFlag_eq x ?_ _
  rw [UInt8.toNat_sub]
  omega

theorem shiftRight_eq :
    m.shiftRight x y = m.withResult x (m.shifted x y / 2) (m.shifted x y % 2 == 1) := by
  have hvalue : (m.shiftSource x y >>> 1).toNat = m.shifted x y / 2 := by
    rw [UInt8.toNat_shiftRight, toNat_shiftSource]
    exact Nat.shiftRight_eq_div_pow _ 1
  have hlowest : (m.shiftSource x y &&& 1 == 1) = (m.shifted x y % 2 == 1) := by
    rw [Bool.eq_iff_iff, beq_iff_eq, beq_iff_eq, ← UInt8.toNat_inj, UInt8.toNat_and,
      toNat_shiftSource]
    exact Eq.congr_left (Nat.and_one_is_mod _)
  rw [← hlowest]
  exact m.setWithFlag_eq x hvalue _

theorem shiftLeft_eq :
    m.shiftLeft x y = m.withResult x (2 * m.shifted x y % 256) (decide (128 ≤ m.shifted x y)) := by
  have hlt := (m.shiftSource x y).toNat_lt
  have hvalue : (m.shiftSource x y <<< 1).toNat = 2 * m.shifted x y % 256 := by
    rw [UInt8.toNat_shiftLeft, toNat_shiftSource, Nat.mul_comm]
    exact congrArg (· % 256) (Nat.shiftLeft_eq _ 1)
  have hhighest : (m.shiftSource x y >>> 7 == 1) = decide (128 ≤ m.shifted x y) := by
    rw [Bool.eq_iff_iff, beq_iff_eq, decide_eq_true_iff, ← UInt8.toNat_inj,
      UInt8.toNat_shiftRight, ← toNat_shiftSource]
    have hseven : (7 : UInt8).toNat % 8 = 7 := rfl
    have hone : (1 : UInt8).toNat = 1 := rfl
    rw [hseven, hone, Nat.shiftRight_eq_div_pow]
    omega
  rw [← hhighest]
  exact m.setWithFlag_eq x hvalue _

-- Each of these opcodes succeeds and changes V0 to VF only. It takes Vx and Vy as it finds them, and
-- the flag is written after Vx, so that it stays in VF whichever registers the opcode names.
theorem arithmetic_on_old_values :
    let run (n : Digit) := m.execute (Opcode.ofDigits 8 x y n)
    let bitwise (f : UInt8 → UInt8 → UInt8) := done
      (m.withValues (Function.update m.valuesSeen x (f (m.valuesSeen x) (m.valuesSeen y))))
    let vx := (m.get x).toNat
    let vy := (m.get y).toNat
    let source := m.shifted x y
    run 0x1 = bitwise (· ||| ·) ∧ run 0x2 = bitwise (· &&& ·) ∧ run 0x3 = bitwise (· ^^^ ·) ∧
      run 0x4 = done (m.withResult x ((vx + vy) % 256) (decide (256 ≤ vx + vy))) ∧
      run 0x5 = done (m.withResult x ((256 + vx - vy) % 256) (decide (vy ≤ vx))) ∧
      run 0x6 = done (m.withResult x (source / 2) (source % 2 == 1)) ∧
      run 0x7 = done (m.withResult x ((256 + vy - vx) % 256) (decide (vx ≤ vy))) ∧
      run 0xE = done (m.withResult x (2 * source % 256) (decide (128 ≤ source))) := by
  intro run bitwise vx vy source
  have hrun {n : Digit} {i : Instruction} (hi : Opcode.decode (Opcode.ofDigits 8 x y n) = some i)
      (hk : i.kind ∈ Instruction.Kind.chip8) : run n = m.perform i := execute_of_chip8 hi hk
  obtain ⟨hor, hand, hxor, hadd, hsub, hright, hfrom, hleft⟩ := Opcode.decode_arithmetic x y
  refine ⟨?_, ?_, ?_, ?_, ?_, ?_, ?_, ?_⟩
  · exact (hrun hor (of_decide_eq_true rfl)).trans (congrArg done (m.logic_eq x y _))
  · exact (hrun hand (of_decide_eq_true rfl)).trans (congrArg done (m.logic_eq x y _))
  · exact (hrun hxor (of_decide_eq_true rfl)).trans (congrArg done (m.logic_eq x y _))
  · exact (hrun hadd (of_decide_eq_true rfl)).trans (congrArg done (m.addRegisters_eq x y))
  · exact (hrun hsub (of_decide_eq_true rfl)).trans (congrArg done (m.subtract_eq x _ _))
  · exact (hrun hright (of_decide_eq_true rfl)).trans (congrArg done (m.shiftRight_eq x y))
  · exact (hrun hfrom (of_decide_eq_true rfl)).trans (congrArg done (m.subtract_eq x _ _))
  · exact (hrun hleft (of_decide_eq_true rfl)).trans (congrArg done (m.shiftLeft_eq x y))

-- Of a sum that goes into VF only the carry is left.
example : (((new (.standard 0)).setRegister 15 0xFF).execute 0x8FF4).machine.get 15 = 1 := by decide

end Machine

end Chip8
