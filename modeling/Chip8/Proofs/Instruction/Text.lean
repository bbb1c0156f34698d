import Mathlib.Data.List.Nodup
import Chip8.Instruction.Text

namespace Chip8

namespace Text.Hex

theorem numeral_inj {case : Case} {places m n : Nat} (hm : m < Nat.pow 16 places)
    (hn : n < Nat.pow 16 places) : numeral case places m = numeral case places n ↔ m = n := by
  constructor
  · intro h
    have hdigits : digits case places m = digits case places n := String.ofList_injective h
    have hread := congrArg read? hdigits
    rw [read?_digits, read?_digits, Nat.mod_eq_of_lt hm, Nat.mod_eq_of_lt hn] at hread
    exact Option.some.inj hread
  · exact congrArg (numeral case places)

theorem length_numeral (case : Case) (places n : Nat) :
    (numeral case places n).length = places := by
  rw [numeral, String.length_ofList, length_digits]

end Text.Hex

-- The operands that an opcode has room for.
structure Operands where
  x : Register
  y : Register
  n : Fin 16
  byte : UInt8
  address : UInt16

namespace Instruction

namespace Kind

-- The instruction of a kind, with those operands that the kind has.
def instruction (o : Operands) : Kind → Instruction
  | clearScreen => .clearScreen
  | ret => .ret
  | jump => .jump o.address
  | call => .call o.address
  | skipEqual => .skipEqual o.x o.byte
  | skipNotEqual => .skipNotEqual o.x o.byte
  | skipSame => .skipSame o.x o.y
  | loadByte => .loadByte o.x o.byte
  | addByte => .addByte o.x o.byte
  | copy => .copy o.x o.y
  | or => .or o.x o.y
  | and => .and o.x o.y
  | xor => .xor o.x o.y
  | add => .add o.x o.y
  | sub => .sub o.x o.y
  | shiftRight => .shiftRight o.x o.y
  | subFrom => .subFrom o.x o.y
  | shiftLeft => .shiftLeft o.x o.y
  | skipDifferent => .skipDifferent o.x o.y
  | loadAddress => .loadAddress o.address
  | jumpOffset => .jumpOffset o.x o.address
  | random => .random o.x o.byte
  | draw => .draw o.x o.y o.n
  | skipPressed => .skipPressed o.x
  | skipNotPressed => .skipNotPressed o.x
  | readDelay => .readDelay o.x
  | readKey => .readKey o.x
  | setDelay => .setDelay o.x
  | setSound => .setSound o.x
  | addAddress => .addAddress o.x
  | glyph => .glyph o.x
  | decimal => .decimal o.x
  | saveRegisters => .saveRegisters o.x
  | loadRegisters => .loadRegisters o.x
  | highResolution => .highResolution
  | lowResolution => .lowResolution
  | scrollDown => .scrollDown o.n
  | scrollRight => .scrollRight
  | scrollLeft => .scrollLeft
  | bigGlyph => .bigGlyph o.x
  | saveFlags => .saveFlags o.x
  | loadFlags => .loadFlags o.x
  | exit => .exit

end Kind

theorem exists_operands (i : Instruction) : ∃ o, i = i.kind.instruction o := by
  cases i with
  | clearScreen | ret | highResolution | lowResolution | scrollRight | scrollLeft | exit =>
    exact ⟨⟨0, 0, 0, 0, 0⟩, rfl⟩
  | jump target | call target | loadAddress target => exact ⟨⟨0, 0, 0, 0, target⟩, rfl⟩
  | skipEqual x value | skipNotEqual x value | loadByte x value | addByte x value
    | random x value => exact ⟨⟨x, 0, 0, value, 0⟩, rfl⟩
  | skipSame x y | copy x y | or x y | and x y | xor x y | add x y | sub x y | shiftRight x y
    | subFrom x y | shiftLeft x y | skipDifferent x y => exact ⟨⟨x, y, 0, 0, 0⟩, rfl⟩
  | jumpOffset x base => exact ⟨⟨x, 0, 0, 0, base⟩, rfl⟩
  | draw x y height => exact ⟨⟨x, y, height, 0, 0⟩, rfl⟩
  | scrollDown distance => exact ⟨⟨0, 0, distance, 0, 0⟩, rfl⟩
  | skipPressed x | skipNotPressed x | readDelay x | readKey x | setDelay x | setSound x
    | addAddress x | glyph x | decimal x | saveRegisters x | loadRegisters x | bigGlyph x
    | saveFlags x | loadFlags x => exact ⟨⟨x, 0, 0, 0, 0⟩, rfl⟩

-- Instructions of one kind differ in their operands only.
theorem exists_operands_of_kind_eq {i j : Instruction} (h : i.kind = j.kind) :
    ∃ o p, i = i.kind.instruction o ∧ j = i.kind.instruction p := by
  obtain ⟨o, ho⟩ := i.exists_operands
  obtain ⟨p, hp⟩ := j.exists_operands
  exact ⟨o, p, ho, by rwa [h]⟩

-- A text with all hexadecimal digits alike, letters of a mnemonic included. For an instruction
-- what is left depends on its kind alone.
def outline (text : String) : List Char :=
  text.toList.map fun c => if (Text.Hex.value? c).isSome then '#' else c

theorem outline_append (s t : String) : outline (s ++ t) = outline s ++ outline t := by
  simp only [outline, String.toList_append, List.map_append]

theorem outline_numeral (case : Text.Hex.Case) (places n : Nat) :
    outline (Text.Hex.numeral case places n) = List.replicate places '#' := by
  simp only [outline, Text.Hex.numeral, String.toList_ofList]
  induction places generalizing n with
  | zero => rfl
  | succ places ih =>
    have hdigit := Text.Hex.value?_digit case (n % 16) (Nat.mod_lt n (by decide))
    rw [Text.Hex.digits, List.map_append, ih, List.map_singleton, hdigit, List.replicate_succ']
    rfl

def Kind.outline (k : Kind) : List Char :=
  Instruction.outline (text .standard (k.instruction ⟨0, 0, 0, 0, 0⟩))

theorem outline_text (dialect : Dialect) (o : Operands) (k : Kind) :
    outline (text dialect (k.instruction o)) = k.outline := by
  unfold Kind.outline text
  cases k <;>
    simp only [Kind.instruction, unary, binary, registerText, byteText, addressText,
      Text.Hex.marked, outline_append, outline_numeral]

theorem nodup_outlines : (Kind.all.map Kind.outline).Nodup := by decide +kernel

theorem kind_eq_of_text_eq {dialect : Dialect} {i j : Instruction}
    (h : text dialect i = text dialect j) : i.kind = j.kind := by
  obtain ⟨o, ho⟩ := i.exists_operands
  obtain ⟨p, hp⟩ := j.exists_operands
  have houtline : i.kind.outline = j.kind.outline := by
    rw [← outline_text dialect o, ← outline_text dialect p, ← ho, ← hp, h]
  exact List.inj_on_of_nodup_map nodup_outlines i.kind.mem_all j.kind.mem_all houtline

-- Texts whose first halves are equally long are equal by halves.
theorem append_inj {s s' t t' : String} (h : s.length = s'.length) :
    s ++ t = s' ++ t' ↔ s = s' ∧ t = t' := by
  constructor
  · intro heq
    have hlist : s.toList ++ t.toList = s'.toList ++ t'.toList := by
      rw [← String.toList_append, ← String.toList_append, heq]
    have hlength : s.toList.length = s'.toList.length := by
      rwa [String.length_toList, String.length_toList]
    obtain ⟨hs, ht⟩ := List.append_inj hlist hlength
    exact ⟨String.toList_inj.mp hs, String.toList_inj.mp ht⟩
  · rintro ⟨rfl, rfl⟩
    rfl

theorem length_registerText (x : Register) : (registerText x).length = 2 := by
  rw [registerText, String.length_append, Text.Hex.length_numeral]
  rfl

theorem length_addressText (a : UInt16) : (addressText a).length = 6 := by
  rw [addressText, Text.Hex.marked, String.length_append, Text.Hex.length_numeral]
  rfl

theorem registerText_inj {x x' : Register} : registerText x = registerText x' ↔ x = x' := by
  rw [registerText, registerText, String.append_right_inj, Text.Hex.numeral_inj x.isLt x'.isLt,
    Fin.ext_iff]

theorem byteText_inj {value value' : UInt8} :
    byteText value.toNat = byteText value'.toNat ↔ value = value' := by
  rw [byteText, byteText, Text.Hex.marked, Text.Hex.marked, String.append_right_inj,
    Text.Hex.numeral_inj value.toNat_lt value'.toNat_lt, UInt8.toNat_inj]

theorem byteText_digit_inj {n n' : Fin 16} : byteText n = byteText n' ↔ n = n' := by
  have hlt (n : Fin 16) : n.val < Nat.pow 16 2 := Nat.lt_trans n.isLt (by decide)
  rw [byteText, byteText, Text.Hex.marked, Text.Hex.marked, String.append_right_inj,
    Text.Hex.numeral_inj (hlt n) (hlt n'), Fin.ext_iff]

theorem addressText_inj {a a' : UInt16} : addressText a = addressText a' ↔ a = a' := by
  rw [addressText, addressText, Text.Hex.marked, Text.Hex.marked, String.append_right_inj,
    Text.Hex.numeral_inj a.toNat_lt a'.toNat_lt, UInt16.toNat_inj]

theorem unary_inj {mnemonic : String} {x x' : Register} :
    unary mnemonic x = unary mnemonic x' ↔ x = x' := by
  rw [unary, unary, String.append_right_inj, registerText_inj]

theorem binary_inj {mnemonic : String} {x x' : Register} {s s' : String} :
    binary mnemonic x s = binary mnemonic x' s' ↔ x = x' ∧ s = s' := by
  have hlength : (mnemonic ++ " " ++ registerText x ++ ", ").length =
      (mnemonic ++ " " ++ registerText x' ++ ", ").length := by
    simp only [String.length_append, length_registerText]
  rw [binary, binary, append_inj hlength, String.append_left_inj, String.append_right_inj,
    registerText_inj]

-- An instruction with the operands that its text leaves out set to 0.
def shown (dialect : Dialect) : Instruction → Instruction
  | shiftRight x _ => shiftRight x 0
  | shiftLeft x _ => shiftLeft x 0
  | jumpOffset x base => jumpOffset (if dialect.jumpFromV0 then 0 else x) base
  | i => i

theorem text_jumpOffset (dialect : Dialect) (x : Register) (base : UInt16) :
    text dialect (jumpOffset x base) = "jump " ++ addressText base ++ " + " ++
      registerText (if dialect.jumpFromV0 then 0 else x) := rfl

theorem text_shown (dialect : Dialect) (i : Instruction) :
    text dialect (i.shown dialect) = text dialect i := by
  cases i with
  | jumpOffset x base =>
    rw [shown, text_jumpOffset, text_jumpOffset]
    cases dialect.jumpFromV0 <;> rfl
  | _ => rfl

theorem jumpOffset_eq_of_text_eq {dialect : Dialect} {x x' : Register} {base base' : UInt16}
    (h : text dialect (jumpOffset x base) = text dialect (jumpOffset x' base')) :
    shown dialect (jumpOffset x base) = shown dialect (jumpOffset x' base') := by
  have hlength : ("jump " ++ addressText base ++ " + ").length =
      ("jump " ++ addressText base' ++ " + ").length := by
    simp only [String.length_append, length_addressText]
  rw [text_jumpOffset, text_jumpOffset, append_inj hlength, String.append_left_inj,
    String.append_right_inj, addressText_inj, registerText_inj] at h
  rw [shown, shown, h.1, h.2]

theorem shown_eq_of_text_eq {dialect : Dialect} (k : Kind) {o p : Operands}
    (h : text dialect (k.instruction o) = text dialect (k.instruction p)) :
    (k.instruction o).shown dialect = (k.instruction p).shown dialect := by
  unfold text at h
  cases k with
  | clearScreen | ret | highResolution | lowResolution | scrollRight | scrollLeft | exit => rfl
  | jumpOffset => exact jumpOffset_eq_of_text_eq h
  | jump | call | loadAddress =>
    simp only [Kind.instruction, String.append_right_inj, addressText_inj] at h
    simp only [Kind.instruction, h]
  | skipEqual | skipNotEqual | loadByte | addByte | random =>
    simp only [Kind.instruction, binary_inj, byteText_inj] at h
    simp only [Kind.instruction, h]
  | skipSame | copy | or | and | xor | add | sub | subFrom | skipDifferent =>
    simp only [Kind.instruction, binary_inj, registerText_inj] at h
    simp only [Kind.instruction, h]
  | shiftRight | shiftLeft =>
    simp only [Kind.instruction, unary_inj] at h
    simp only [Kind.instruction, shown, h]
  | draw =>
    have hlength : (registerText o.y ++ ", ").length = (registerText p.y ++ ", ").length := by
      simp only [String.length_append, length_registerText]
    simp only [Kind.instruction, binary_inj, append_inj hlength, String.append_left_inj,
      registerText_inj, byteText_digit_inj] at h
    simp only [Kind.instruction, h]
  | scrollDown =>
    simp only [Kind.instruction, String.append_right_inj, byteText_digit_inj] at h
    simp only [Kind.instruction, h]
  | setDelay | setSound | addAddress =>
    simp only [Kind.instruction, String.append_right_inj, registerText_inj] at h
    simp only [Kind.instruction, h]
  | glyph | bigGlyph =>
    simp only [Kind.instruction, String.append_right_inj, String.append_left_inj,
      registerText_inj] at h
    simp only [Kind.instruction, h]
  | skipPressed | skipNotPressed | readDelay | readKey | decimal | saveRegisters | loadRegisters
    | saveFlags | loadFlags =>
    simp only [Kind.instruction, unary_inj] at h
    simp only [Kind.instruction, h]

-- The text of an instruction tells all that it shows.
theorem text_eq_iff {dialect : Dialect} {i j : Instruction} :
    text dialect i = text dialect j ↔ i.shown dialect = j.shown dialect := by
  constructor
  · intro h
    obtain ⟨o, p, hi, hj⟩ := exists_operands_of_kind_eq (kind_eq_of_text_eq h)
    rw [hi, hj] at h
    have hshown := shown_eq_of_text_eq i.kind h
    rwa [← hi, ← hj] at hshown
  · intro h
    rw [← text_shown dialect i, h, text_shown]

end Instruction

end Chip8
