namespace Chip8

-- A hexadecimal digit numbers a register or a key, or is a field of an opcode.
abbrev Digit := Fin 16

-- What literals of a digit rest on.
instance neZero_sixteen : @NeZero Nat Zero.ofOfNat0 16 := ⟨by decide⟩

end Chip8
