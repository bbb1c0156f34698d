import Chip8.Dialect
import Chip8.Instruction.Basic
import Chip8.Text.Hex

namespace Chip8

namespace Instruction

def registerText (r : Register) : String := "V" ++ Text.Hex.numeral .upper 1 r

def byteText (n : Nat) : String := Text.Hex.marked 2 n

def addressText (a : UInt16) : String := Text.Hex.marked 4 a.toNat

def unary (mnemonic : String) (x : Register) : String :=
  mnemonic ++ " " ++ registerText x

def binary (mnemonic : String) (x : Register) (operand : String) : String :=
  mnemonic ++ " " ++ registerText x ++ ", " ++ operand

-- A mnemonic with its operands. The second register of a shift is not shown.
def text (dialect : Dialect) : Instruction → String
  | clearScreen => "clear_screen"
  | ret => "ret"
  | jump target => "jump " ++ addressText target
  | call target => "call " ++ addressText target
  | skipEqual x value => binary "skip_equal" x (byteText value.toNat)
  | skipNotEqual x value => binary "skip_not_equal" x (byteText value.toNat)
  | skipSame x y => binary "skip_equal" x (registerText y)
  | loadByte x value => binary "load" x (byteText value.toNat)
  | addByte x value => binary "add" x (byteText value.toNat)
  | copy x y => binary "load" x (registerText y)
  | or x y => binary "or" x (registerText y)
  | and x y => binary "and" x (registerText y)
  | xor x y => binary "xor" x (registerText y)
  | add x y => binary "add" x (registerText y)
  | sub x y => binary "sub" x (registerText y)
  | shiftRight x _ => unary "rshift" x
  | subFrom x y => binary "ldsub" x (registerText y)
  | shiftLeft x _ => unary "lshift" x
  | skipDifferent x y => binary "skip_not_equal" x (registerText y)
  | loadAddress target => "load I, " ++ addressText target
  | jumpOffset x base =>
    "jump " ++ addressText base ++ " + " ++ registerText (if dialect.jumpFromV0 then 0 else x)
  | random x mask => binary "random" x (byteText mask.toNat)
  | draw x y height => binary "draw_sprite" x (registerText y ++ ", " ++ byteText height)
  | skipPressed x => unary "skip_pressed" x
  | skipNotPressed x => unary "skip_not_pressed" x
  | readDelay x => unary "load_dt" x
  | readKey x => unary "wait_keypress" x
  | setDelay x => "load DT, " ++ registerText x
  | setSound x => "load ST, " ++ registerText x
  | addAddress x => "add I, " ++ registerText x
  | glyph x => "load I, font[" ++ registerText x ++ "]"
  | decimal x => unary "bcd" x
  | saveRegisters x => unary "reg_dump" x
  | loadRegisters x => unary "reg_load" x
  | highResolution => "hires"
  | lowResolution => "lores"
  | scrollDown distance => "scroll_down " ++ byteText distance
  | scrollRight => "scroll_right"
  | scrollLeft => "scroll_left"
  | bigGlyph x => "load I, big_font[" ++ registerText x ++ "]"
  | saveFlags x => unary "save_flags" x
  | loadFlags x => unary "load_flags" x
  | exit => "exit"

end Instruction

end Chip8
