import Chip8.Memory

namespace Chip8.Memory

-- The cells of consecutive addresses.
def cells (a : UInt16) (count : Nat) : List (Fin 4096) :=
  (List.range count).map fun k => index (a + UInt16.ofNat k)

-- The byte that an address names, however large it is.
def byteAt (m : Memory) (n : Nat) : UInt8 := m.bytes[n % 4096]

variable {m : Memory} {a b : UInt16}

theorem cells_succ (a : UInt16) (count : Nat) :
    cells a (count + 1) = index a :: cells (a + 1) count := by
  have hshift (k : Nat) : a + UInt16.ofNat (k + 1) = a + 1 + UInt16.ofNat k := by
    rw [UInt16.ofNat_add, UInt16.add_assoc, UInt16.add_comm (UInt16.ofNat k)]
    rfl
  simp only [cells, List.range_succ_eq_map, List.map_cons, List.map_map, Function.comp_def,
    Nat.succ_eq_add_one, hshift]
  simp

theorem read_writeAll_of_not_mem (m : Memory) (a b : UInt16) (bytes : List UInt8)
    (h : index b ∉ cells a bytes.length) : (m.writeAll a bytes).read b = m.read b := by
  induction bytes generalizing m a with
  | nil => rfl
  | cons value rest ih =>
    rw [List.length_cons, cells_succ, List.mem_cons, not_or] at h
    rw [writeAll, ih _ _ h.2, read_write_of_ne m (Ne.symm h.1)]

theorem index_eq_iff : index a = index b ↔ a.toNat % 4096 = b.toNat % 4096 := Fin.ext_iff

theorem index_add (a : UInt16) (k : Nat) :
    index (a + UInt16.ofNat k) = Fin.ofNat 4096 (a.toNat + k) := by
  apply Fin.ext
  simp only [index, Fin.ofNat, UInt16.toNat_add, UInt16.toNat_ofNat']
  omega

theorem index_add_congr (h : index a = index b) (c : UInt16) : index (a + c) = index (b + c) := by
  rw [index_eq_iff] at h ⊢
  simp only [UInt16.toNat_add]
  omega

theorem byteAt_congr (m : Memory) {n k : Nat} (h : n % 4096 = k % 4096) :
    m.byteAt n = m.byteAt k :=
  congrArg m.bytes.get (Fin.ext h)

theorem read_add (m : Memory) (a : UInt16) (k : Nat) :
    m.read (a + UInt16.ofNat k) = m.byteAt (a.toNat + k) :=
  congrArg m.bytes.get (index_add a k)

theorem readWord_add (m : Memory) (a : UInt16) (k : Nat) :
    m.readWord (a + UInt16.ofNat k) =
      (m.byteAt (a.toNat + k)).toUInt16 <<< 8 ||| (m.byteAt (a.toNat + k + 1)).toUInt16 := by
  have hnext : a + UInt16.ofNat k + 1 = a + UInt16.ofNat (k + 1) := by
    rw [UInt16.ofNat_add, ← UInt16.add_assoc]
    rfl
  rw [readWord, hnext, read_add, read_add]
  rfl

theorem toNat_word (high low : UInt8) :
    (high.toUInt16 <<< 8 ||| low.toUInt16).toNat = 256 * high.toNat + low.toNat := by
  have hhigh := high.toNat_lt
  have hshift : (high.toUInt16 <<< 8).toNat = high.toNat <<< 8 := by
    simp only [UInt16.toNat_shiftLeft, UInt8.toNat_toUInt16, UInt16.reduceToNat, Nat.reduceMod,
      Nat.shiftLeft_eq, Nat.reducePow]
    omega
  rw [UInt16.toNat_or, hshift, UInt8.toNat_toUInt16,
    ← Nat.shiftLeft_add_eq_or_of_lt low.toNat_lt, Nat.shiftLeft_eq, Nat.mul_comm]

theorem readMany_eq (m : Memory) (a : UInt16) (count : Nat) :
    m.readMany a count = (List.range count).map fun k => m.byteAt (a.toNat + k) :=
  List.map_congr_left fun k _ => m.read_add a k

theorem getD_readMany (m : Memory) (a : UInt16) (count k : Nat) (value : UInt8) :
    (m.readMany a count).getD k value = if k < count then m.byteAt (a.toNat + k) else value := by
  rw [readMany_eq, List.getD_eq_getElem?_getD, List.getElem?_map]
  split
  case isTrue hk => rw [List.getElem?_range hk, Option.map_some, Option.getD_some]
  case isFalse hk =>
    have hlength : (List.range count).length ≤ k := by
      rw [List.length_range]
      exact Nat.le_of_not_lt hk
    rw [List.getElem?_eq_none hlength, Option.map_none, Option.getD_none]

theorem readWords_eq (m : Memory) (a : UInt16) (count : Nat) :
    m.readWords a count = (List.range count).map fun k =>
      (m.byteAt (a.toNat + 2 * k)).toUInt16 <<< 8 |||
        (m.byteAt (a.toNat + 2 * k + 1)).toUInt16 :=
  List.map_congr_left fun k _ => m.readWord_add a (2 * k)

theorem readMany_congr (m : Memory) (h : index a = index b) (count : Nat) :
    m.readMany a count = m.readMany b count :=
  List.map_congr_left fun _ _ => congrArg m.bytes.get (index_add_congr h _)

theorem readWords_congr (m : Memory) (h : index a = index b) (count : Nat) :
    m.readWords a count = m.readWords b count := by
  refine List.map_congr_left fun k _ => ?_
  have hfirst := index_add_congr h (UInt16.ofNat (2 * k))
  have hsecond := index_add_congr hfirst 1
  simp only [readWord, read, hfirst, hsecond]

theorem writeAll_congr (m : Memory) (h : index a = index b) (bytes : List UInt8) :
    m.writeAll a bytes = m.writeAll b bytes := by
  induction bytes generalizing m a b with
  | nil => rfl
  | cons value rest ih =>
    have hwrite : m.write a value = m.write b value := by
      simp only [write, h]
    rw [writeAll, writeAll, hwrite, ih _ (index_add_congr h 1)]

theorem mem_cells_iff {count n : Nat} :
    Fin.ofNat 4096 n ∈ cells a count ↔ ∃ k < count, (a.toNat + k) % 4096 = n % 4096 := by
  simp only [cells, List.mem_map, List.mem_range, index_add, Fin.ext_iff, Fin.ofNat]

theorem byteAt_eq_read (m : Memory) (n : Nat) : m.byteAt n = m.read (UInt16.ofNat (n % 4096)) := by
  refine congrArg m.bytes.get (Fin.ext ?_)
  simp only [index, Fin.ofNat, UInt16.toNat_ofNat']
  omega

theorem byteAt_writeAll_of_ne (m : Memory) (a : UInt16) (bytes : List UInt8) {n : Nat}
    (h : ∀ k < bytes.length, (a.toNat + k) % 4096 ≠ n % 4096) :
    (m.writeAll a bytes).byteAt n = m.byteAt n := by
  rw [byteAt_eq_read, byteAt_eq_read]
  apply read_writeAll_of_not_mem
  have hindex : index (UInt16.ofNat (n % 4096)) = Fin.ofNat 4096 n := by
    apply Fin.ext
    simp only [index, Fin.ofNat, UInt16.toNat_ofNat']
    omega
  rw [hindex, mem_cells_iff]
  rintro ⟨k, hk, heq⟩
  exact h k hk heq

-- No byte is written over by a later one, unless there are more than the circle has cells.
theorem byteAt_writeAll (m : Memory) (a : UInt16) (bytes : List UInt8)
    (h : bytes.length ≤ 4096) {k : Nat} (hk : k < bytes.length) :
    (m.writeAll a bytes).byteAt (a.toNat + k) = bytes[k] := by
  induction bytes generalizing m a k with
  | nil => exact absurd hk (Nat.not_lt_zero k)
  | cons value rest ih =>
    have hnext : (a + 1).toNat % 4096 = (a.toNat + 1) % 4096 := by
      rw [UInt16.toNat_add]
      change (a.toNat + 1) % 65536 % 4096 = (a.toNat + 1) % 4096
      omega
    simp only [List.length_cons] at h hk
    rw [writeAll]
    cases k with
    | zero =>
      rw [byteAt_writeAll_of_ne _ _ _ (fun k hk => by omega)]
      exact (m.read_write_same a value)
    | succ k =>
      have hshift : (a.toNat + (k + 1)) % 4096 = ((a + 1).toNat + k) % 4096 := by omega
      rw [byteAt_congr _ hshift, ih _ _ (by omega) (by omega)]
      rfl

-- Bytes behind others are written behind the cells of those.
theorem writeAll_append (m : Memory) (a : UInt16) (first second : List UInt8) :
    m.writeAll a (first ++ second) =
      (m.writeAll a first).writeAll (a + UInt16.ofNat first.length) second := by
  induction first generalizing m a with
  | nil => simp [writeAll]
  | cons value rest ih =>
    have hshift : a + 1 + UInt16.ofNat rest.length = a + UInt16.ofNat (rest.length + 1) := by
      rw [UInt16.ofNat_add, UInt16.add_assoc, UInt16.add_comm 1]
      rfl
    rw [List.cons_append, writeAll, writeAll, ih, hshift, List.length_cons]

theorem readMany_add (m : Memory) (a : UInt16) (first second : Nat) :
    m.readMany a (first + second) =
      m.readMany a first ++ m.readMany (a + UInt16.ofNat first) second := by
  have hshift (k : Nat) :
      a + UInt16.ofNat (first + k) = a + UInt16.ofNat first + UInt16.ofNat k := by
    rw [UInt16.ofNat_add, UInt16.add_assoc]
  simp only [readMany, List.range_add, List.map_append, List.map_map, Function.comp_def, hshift]

theorem readMany_writeAll (m : Memory) (a : UInt16) {bytes : List UInt8}
    (h : bytes.length ≤ 4096) : (m.writeAll a bytes).readMany a bytes.length = bytes := by
  rw [readMany_eq]
  refine List.ext_getElem (by simp) fun k _ hk => ?_
  rw [List.getElem_map, List.getElem_range, byteAt_writeAll m a bytes h hk]

theorem byteAt_install (m : Memory) (program : List UInt8) (n : Nat) :
    (m.install program).byteAt n =
      if n % 4096 < programStart then m.byteAt n
      else program.getD (n % 4096 - programStart) 0 := by
  simp [byteAt, install, List.getD]

end Chip8.Memory
