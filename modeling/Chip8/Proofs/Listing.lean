import Mathlib.Data.List.Basic
import Chip8.Listing
import Chip8.Proofs.Machine.Leftovers

namespace Chip8

namespace Listing

-- The offset and the word that a line starts with.
def fields? (line : String) : Option (Nat × Nat) := do
  let cs ← line.toList.dropPrefix? "0x".toList
  let offset ← Text.Hex.read? (cs.take 4)
  let cs ← (cs.drop 4).dropPrefix? ": ".toList
  let word ← Text.Hex.read? (cs.take 4)
  return (offset, word)

-- The bytes of a word, the high one first.
def bytes (word : Nat) : List UInt8 := [UInt8.ofNat (word / 256), UInt8.ofNat word]

theorem dropPrefix?_append (expected rest : List Char) :
    (expected ++ rest).dropPrefix? expected = some rest :=
  List.dropPrefix?_eq_some_iff.mpr ⟨expected, rfl, beq_self_eq_true expected⟩

-- A row of four digits is read up to where it ends.
theorem read?_take_digits {n : Nat} (hn : n < 65536) (rest : List Char) :
    Text.Hex.read? ((Text.Hex.digits .lower 4 n ++ rest).take 4) = some n := by
  have hlength := Text.Hex.length_digits .lower 4 n
  rw [List.take_left' hlength, Text.Hex.read?_digits]
  exact congrArg some (Nat.mod_eq_of_lt hn)

theorem drop_digits (n : Nat) (rest : List Char) :
    (Text.Hex.digits .lower 4 n ++ rest).drop 4 = rest :=
  List.drop_left' (Text.Hex.length_digits .lower 4 n)

theorem line_eq (dialect : Dialect) (offset opcode : UInt16) :
    line dialect offset opcode = Text.Hex.marked 4 offset.toNat ++ ": " ++
      Text.Hex.numeral .lower 4 opcode.toNat ++ "  " ++
      (Opcode.decode opcode).elim (".word " ++ Text.Hex.marked 4 opcode.toNat)
        (Instruction.text dialect) := by
  rw [line, Opcode.text?]
  cases Opcode.decode opcode <;> rfl

theorem fields?_line (dialect : Dialect) (offset opcode : UInt16) :
    fields? (line dialect offset opcode) = some (offset.toNat, opcode.toNat) := by
  obtain ⟨rest, hline⟩ : ∃ rest, (line dialect offset opcode).toList =
      "0x".toList ++ (Text.Hex.digits .lower 4 offset.toNat ++
        (": ".toList ++ (Text.Hex.digits .lower 4 opcode.toNat ++ rest))) := by
    simp only [line, Text.Hex.marked, Text.Hex.numeral, String.toList_append,
      String.toList_ofList, List.append_assoc]
    exact ⟨_, rfl⟩
  have hoffset := read?_take_digits offset.toNat_lt
  have hopcode := read?_take_digits opcode.toNat_lt
  simp only [fields?, hline, dropPrefix?_append, Option.bind_eq_bind, Option.bind_some, hoffset,
    drop_digits, hopcode, Option.pure_def]

theorem bytes_word (high low : UInt8) :
    bytes (high.toUInt16 <<< 8 ||| low.toUInt16).toNat = [high, low] := by
  have hlow := low.toNat_lt
  have hdiv : (256 * high.toNat + low.toNat) / 256 = high.toNat := by omega
  have hmod : UInt8.ofNat (256 * high.toNat + low.toNat) = low := by
    apply UInt8.toNat.inj
    rw [UInt8.toNat_ofNat']
    omega
  rw [bytes, Memory.toNat_word, hdiv, hmod, UInt8.ofNat_toNat]

-- The words hold the bytes of a program and, behind an odd one, a zero.
theorem flatMap_bytes_words (program : List UInt8) :
    (words program).flatMap (fun word => bytes word.toNat) =
      program ++ List.replicate (program.length % 2) 0 := by
  fun_induction words program with
  | case1 => rfl
  | case2 high =>
    have hword : bytes (high.toUInt16 <<< 8).toNat = [high, 0] := by
      rw [← UInt16.or_zero (a := high.toUInt16 <<< 8)]
      exact bytes_word high 0
    rw [List.flatMap_singleton, hword]
    rfl
  | case3 high low rest ih =>
    have hparity : (high :: low :: rest).length % 2 = rest.length % 2 := by
      simp only [List.length_cons]
      omega
    rw [List.flatMap_cons, bytes_word, ih, hparity]
    rfl

-- Beyond the end of a program lie zeros, in its words as in memory.
theorem getElem?_words (program : List UInt8) {k : Nat} (hk : k < (program.length + 1) / 2) :
    (words program)[k]? =
      some ((program.getD (2 * k) 0).toUInt16 <<< 8 ||| (program.getD (2 * k + 1) 0).toUInt16) := by
  fun_induction words program generalizing k with
  | case1 => simp at hk
  | case2 high =>
    obtain rfl : k = 0 := by simpa using hk
    simp
  | case3 high low rest ih =>
    cases k with
    | zero => rfl
    | succ k =>
      have hrest : k < (rest.length + 1) / 2 := by
        simp only [List.length_cons] at hk
        omega
      rw [List.getElem?_cons_succ, ih hrest]
      rfl

theorem toNat_offset (origin : UInt16) (k : Nat) :
    (origin + 2 * UInt16.ofNat k).toNat = (origin.toNat + 2 * k) % 65536 := by
  simp only [UInt16.toNat_add, UInt16.toNat_mul, UInt16.toNat_ofNat', UInt16.reduceToNat]
  omega

end Listing

namespace Machine

-- A program fits between its start and the end of the memory, so that no address of it wraps.
theorem readWord_install (memory : Memory) (program : List UInt8) {k : Nat}
    (hk : 2 * k + 1 < Memory.programCapacity) :
    (memory.install program).readWord (0x200 + 2 * UInt16.ofNat k) =
      (program.getD (2 * k) 0).toUInt16 <<< 8 ||| (program.getD (2 * k + 1) 0).toUInt16 := by
  have hroom : 2 * k + 1 < 3584 := hk
  have haddress := Listing.toNat_offset 0x200 k
  have hread {a : UInt16} {n : Nat} (hn : n < 3584) (ha : a.toNat = 0x200 + n) :
      (memory.install program).read a = program.getD n 0 := by
    have hindex : (Memory.index a).val = 0x200 + n := by
      simp only [Memory.index, Fin.val_ofNat, ha]
      omega
    have hstart : Memory.programStart ≤ (Memory.index a).val := by
      rw [hindex]
      exact Nat.le_add_right 0x200 n
    rw [Memory.read_install_of_le _ _ hstart, hindex]
    exact congrArg (program.getD · 0) (Nat.add_sub_cancel_left 0x200 n)
  rw [Memory.readWord, hread (n := 2 * k) (by omega), hread (n := 2 * k + 1) hroom]
  · rw [UInt16.toNat_add, haddress]
    simp only [UInt16.reduceToNat]
    omega
  · rw [haddress]
    simp only [UInt16.reduceToNat]
    omega

-- The word that a step would fetch is the one that a line shows.
theorem readWord_of_load {m loaded : Machine} {program : List UInt8}
    (hmemory : loaded.memory = m.memory.install program)
    (hfits : program.length ≤ Memory.programCapacity) {k : Nat}
    (hk : k < (program.length + 1) / 2) :
    (Listing.words program)[k]? = some (loaded.memory.readWord (0x200 + 2 * UInt16.ofNat k)) := by
  have hroom : program.length ≤ 3584 := hfits
  rw [Listing.getElem?_words program hk, hmemory, readWord_install]
  change 2 * k + 1 < 3584
  omega

end Machine

namespace Listing

theorem mapM_fields?_lines (dialect : Dialect) (origin : UInt16) (program : List UInt8) :
    (lines dialect origin program).mapM fields? =
      some ((words program).zipIdx.map fun entry =>
        ((origin.toNat + 2 * entry.2) % 65536, entry.1.toNat)) := by
  have hline (entry : UInt16 × Nat) :
      fields? (line dialect (origin + 2 * UInt16.ofNat entry.2) entry.1) =
        pure ((origin.toNat + 2 * entry.2) % 65536, entry.1.toNat) := by
    rw [fields?_line, toNat_offset]
    rfl
  rw [lines, List.mapIdx_eq_zipIdx_map, List.mapM_map]
  simp only [Function.comp_def, hline]
  exact List.mapM_pure

-- A line of a listing shows the word that the machine would fetch from its offset, once the
-- program is loaded, and what that word means. From the lines of any listing one reads back the
-- offsets, which wrap at the end of 16 bits, and the program with a zero behind an odd byte.
theorem lines_show_memory_and_read_back (dialect : Dialect) :
    (∀ (m : Machine) (program : List UInt8), program.length ≤ Memory.programCapacity →
      ∃ loaded, m.load program = .ok loaded ∧
        (lines dialect 0x200 program).length = (program.length + 1) / 2 ∧
        ∀ k < (program.length + 1) / 2, ∃ address : UInt16, address.toNat = 0x200 + 2 * k ∧
          let word := (loaded.jump address).nextOpcode
          word = loaded.memory.readWord address ∧
          (lines dialect 0x200 program)[k]? = some (Text.Hex.marked 4 address.toNat ++ ": " ++
            Text.Hex.numeral .lower 4 word.toNat ++ "  " ++
            (Opcode.decode word).elim (".word " ++ Text.Hex.marked 4 word.toNat)
              (Instruction.text dialect))) ∧
      ∀ (origin : UInt16) (program : List UInt8), ∃ fields,
        (lines dialect origin program).mapM fields? = some fields ∧
        fields.map Prod.fst =
          (List.range ((program.length + 1) / 2)).map (fun k => (origin.toNat + 2 * k) % 65536) ∧
        fields.flatMap (fun field => bytes field.2) =
          program ++ List.replicate (program.length % 2) 0 := by
  refine ⟨fun m program hfits => ?_, fun origin program => ?_⟩
  · obtain ⟨loaded, hloaded, hmemory⟩ := Machine.load_eq_ok hfits m
    refine ⟨loaded, hloaded, length_lines dialect 0x200 program, fun k hk => ?_⟩
    have hroom : program.length ≤ 3584 := hfits
    refine ⟨0x200 + 2 * UInt16.ofNat k, ?_, rfl, ?_⟩
    · rw [toNat_offset]
      simp only [UInt16.reduceToNat]
      omega
    · rw [lines, List.getElem?_mapIdx, Machine.readWord_of_load hmemory hfits hk, Option.map_some,
        line_eq]
      rfl
  · have hwords : ((words program).zipIdx.map Prod.fst) = words program :=
      List.zipIdx_map_fst 0 (words program)
    have hplaces : (words program).zipIdx.map Prod.snd = List.range ((program.length + 1) / 2) := by
      rw [List.zipIdx_map_snd, length_words, List.range_eq_range']
    refine ⟨_, mapM_fields?_lines dialect origin program, ?_, ?_⟩
    · rw [← hplaces, List.map_map, List.map_map]
      rfl
    · rw [← flatMap_bytes_words program, List.flatMap_map]
      nth_rewrite 2 [← hwords]
      rw [List.flatMap_map]

-- A program of an odd length, loaded and listed, and listed around the end of 16 bits.
theorem odd_program_read_back :
    let program : List UInt8 := [0x00, 0xE0, 0xFF, 0xFF, 0x12]
    let m := Machine.new (.standard 0)
    program.length ≤ Memory.programCapacity ∧
      (∃ loaded, m.load program = .ok loaded ∧ loaded.memory.readWord 0x204 = 0x1200 ∧
        (lines .standard 0x200 program)[2]? = some "0x0204: 1200  jump 0x0200") ∧
      ∃ fields, (lines .standard 0xFFFE program).mapM fields? = some fields ∧
        fields.map Prod.fst = [0xFFFE, 0, 2] ∧
        fields.flatMap (fun field => bytes field.2) = program ++ [0] := by
  intro program m
  have hfits : program.length ≤ Memory.programCapacity := by decide
  obtain ⟨hshown, hread⟩ := lines_show_memory_and_read_back .standard
  obtain ⟨fields, hfields, hoffsets, hbytes⟩ := hread 0xFFFE program
  have hplaces : (List.range ((program.length + 1) / 2)).map
      (fun k => ((0xFFFE : UInt16).toNat + 2 * k) % 65536) = [0xFFFE, 0, 2] := by decide
  have hpadding : List.replicate (program.length % 2) (0 : UInt8) = [0] := by decide
  rw [hpadding] at hbytes
  refine ⟨hfits, ?_, fields, hfields, hoffsets.trans hplaces, hbytes⟩
  obtain ⟨loaded, hloaded, -, hline⟩ := hshown m program hfits
  obtain ⟨address, haddress, hword, hshow⟩ := hline 2 (by decide)
  obtain rfl : address = 0x204 := UInt16.toNat.inj haddress
  have hmemory : loaded.memory = m.memory.install program := by
    obtain ⟨other, hother, hmemory⟩ := Machine.load_eq_ok hfits m
    rwa [Except.ok.inj (hloaded.symm.trans hother)]
  have hfetched : (loaded.memory.readWord 0x204) = 0x1200 := by
    have h := Machine.readWord_of_load hmemory hfits (k := 2) (by decide)
    exact (Option.some.inj h).symm
  refine ⟨loaded, hloaded, hfetched, ?_⟩
  rw [hshow, hword, hfetched]
  rfl

end Listing

end Chip8
