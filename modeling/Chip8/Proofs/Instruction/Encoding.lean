import Chip8.Opcode

namespace Chip8.Opcode

-- The number of the opcode that encodes an instruction of SUPER-CHIP.
def extended : Instruction → Nat
  | .highResolution => 0x00FF
  | .lowResolution => 0x00FE
  | .scrollDown distance => 0x00C0 + distance
  | .scrollRight => 0x00FB
  | .scrollLeft => 0x00FC
  | .exit => 0x00FD
  | .bigGlyph x => 0xF030 + 0x100 * x
  | .saveFlags x => 0xF075 + 0x100 * x
  | .loadFlags x => 0xF085 + 0x100 * x
  | _ => 0

-- The number of the opcode of an instruction, given the digit that is free in some.
def encode (free : Fin 16) : Instruction → Nat
  | .clearScreen => 0x00E0
  | .ret => 0x00EE
  | .jump target => 0x1000 + target.toNat
  | .call target => 0x2000 + target.toNat
  | .skipEqual x value => 0x3000 + 0x100 * x + value.toNat
  | .skipNotEqual x value => 0x4000 + 0x100 * x + value.toNat
  | .skipSame x y => 0x5000 + 0x100 * x + 0x10 * y + free
  | .loadByte x value => 0x6000 + 0x100 * x + value.toNat
  | .addByte x value => 0x7000 + 0x100 * x + value.toNat
  | .copy x y => 0x8000 + 0x100 * x + 0x10 * y
  | .or x y => 0x8001 + 0x100 * x + 0x10 * y
  | .and x y => 0x8002 + 0x100 * x + 0x10 * y
  | .xor x y => 0x8003 + 0x100 * x + 0x10 * y
  | .add x y => 0x8004 + 0x100 * x + 0x10 * y
  | .sub x y => 0x8005 + 0x100 * x + 0x10 * y
  | .shiftRight x y => 0x8006 + 0x100 * x + 0x10 * y
  | .subFrom x y => 0x8007 + 0x100 * x + 0x10 * y
  | .shiftLeft x y => 0x800E + 0x100 * x + 0x10 * y
  | .skipDifferent x y => 0x9000 + 0x100 * x + 0x10 * y + free
  | .loadAddress target => 0xA000 + target.toNat
  | .jumpOffset _ base => 0xB000 + base.toNat
  | .random x mask => 0xC000 + 0x100 * x + mask.toNat
  | .draw x y height => 0xD000 + 0x100 * x + 0x10 * y + height
  | .skipPressed x => 0xE09E + 0x100 * x
  | .skipNotPressed x => 0xE0A1 + 0x100 * x
  | .readDelay x => 0xF007 + 0x100 * x
  | .readKey x => 0xF00A + 0x100 * x
  | .setDelay x => 0xF015 + 0x100 * x
  | .setSound x => 0xF018 + 0x100 * x
  | .addAddress x => 0xF01E + 0x100 * x
  | .glyph x => 0xF029 + 0x100 * x
  | .decimal x => 0xF033 + 0x100 * x
  | .saveRegisters x => 0xF055 + 0x100 * x
  | .loadRegisters x => 0xF065 + 0x100 * x
  | i => extended i

-- The opcode of four digits.
def ofDigits (family x y n : Digit) : UInt16 :=
  UInt16.ofNat (0x1000 * family.val + 0x100 * x.val + 0x10 * y.val + n.val)

variable {opcode : UInt16} {i : Instruction}

theorem digits_ofDigits (f a b c : Digit) :
    family (ofDigits f a b c) = f ∧ x (ofDigits f a b c) = a ∧ y (ofDigits f a b c) = b ∧
      n (ofDigits f a b c) = c := by
  have hf := f.isLt
  have ha := a.isLt
  have hb := b.isLt
  have hc := c.isLt
  have hword : (ofDigits f a b c).toNat =
      0x1000 * f.val + 0x100 * a.val + 0x10 * b.val + c.val :=
    UInt16.toNat_ofNat_of_lt' (by simp only [UInt16.size]; omega)
  simp only [family, x, y, n, digit, hword, Fin.ext_iff, Fin.val_ofNat,
    Nat.shiftRight_eq_div_pow]
  omega

theorem toNat_eq_fields (opcode : UInt16) :
    opcode.toNat = 0x1000 * (family opcode).val + 0x100 * (x opcode).val + (byte opcode).toNat := by
  have hlt := opcode.toNat_lt
  simp only [family, x, digit, byte, Fin.val_ofNat, Nat.shiftRight_eq_div_pow,
    UInt16.toNat_toUInt8]
  omega

theorem toNat_byte (opcode : UInt16) :
    (byte opcode).toNat = 0x10 * (y opcode).val + (n opcode).val := by
  simp only [y, n, digit, byte, Fin.val_ofNat, Nat.shiftRight_eq_div_pow, UInt16.toNat_toUInt8]
  omega

theorem toNat_address (opcode : UInt16) :
    (address opcode).toNat = 0x100 * (x opcode).val + (byte opcode).toNat := by
  have hmask : (address opcode).toNat = opcode.toNat % 4096 := by
    rw [address, UInt16.toNat_and]
    exact Nat.and_two_pow_sub_one_eq_mod _ 12
  simp only [hmask, x, digit, byte, Fin.val_ofNat, Nat.shiftRight_eq_div_pow,
    UInt16.toNat_toUInt8]
  omega

theorem toNat_of_decodeSystem (h : decodeSystem opcode = some i) :
    opcode.toNat = encode (n opcode) i := by
  unfold decodeSystem at h
  split at h
  case h_8 =>
    split at h
    case isTrue hword =>
      cases h
      simp only [encode, extended, n, digit, Fin.val_ofNat]
      omega
    case isFalse => cases h
  all_goals
    cases h
    assumption

theorem toNat_of_decodeArithmetic (hfamily : (family opcode).val = 0x8)
    (h : decodeArithmetic opcode = some i) : opcode.toNat = encode (n opcode) i := by
  have hfields := toNat_eq_fields opcode
  have hbyte := toNat_byte opcode
  unfold decodeArithmetic at h
  simp only at h
  split at h <;> cases h <;> simp only [encode] <;> omega

theorem toNat_of_decodeKeySkip (hfamily : (family opcode).val = 0xE)
    (h : decodeKeySkip opcode = some i) : opcode.toNat = encode (n opcode) i := by
  have hfields := toNat_eq_fields opcode
  unfold decodeKeySkip at h
  split at h <;> cases h <;> simp only [encode] <;> omega

theorem toNat_of_decodeTransfer (hfamily : (family opcode).val = 0xF)
    (h : decodeTransfer opcode = some i) : opcode.toNat = encode (n opcode) i := by
  have hfields := toNat_eq_fields opcode
  unfold decodeTransfer at h
  simp only at h
  split at h <;> cases h <;> simp only [encode, extended] <;> omega

-- An opcode that decodes is that of its instruction. There is one, but for the two skips that
-- compare registers, whose last digit is free.
theorem toNat_of_decode (h : decode opcode = some i) : opcode.toNat = encode (n opcode) i := by
  have hfields := toNat_eq_fields opcode
  have hbyte := toNat_byte opcode
  have haddress := toNat_address opcode
  have hlt := (family opcode).isLt
  unfold decode at h
  simp only at h
  split at h
  case h_1 => exact toNat_of_decodeSystem h
  case h_9 hfamily => exact toNat_of_decodeArithmetic hfamily h
  case h_15 hfamily => exact toNat_of_decodeKeySkip hfamily h
  case h_16 =>
    have hfamily : (family opcode).val = 0xF := by grind
    exact toNat_of_decodeTransfer hfamily h
  all_goals
    cases h
    simp only [encode]
    omega

theorem eq_of_decode_ret (h : decode opcode = some .ret) : opcode = 0x00EE :=
  UInt16.toNat.inj (toNat_of_decode h)

theorem eq_of_decode_exit (h : decode opcode = some .exit) : opcode = 0x00FD :=
  UInt16.toNat.inj (toNat_of_decode h)

end Chip8.Opcode
