import Mathlib.Data.List.Basic
import Chip8.Color

namespace Chip8

namespace Text.Hex

theorem value?_lt {c : Char} {d : Nat} (h : value? c = some d) : d < 16 := by
  simp only [value?, Char.le_def, UInt32.le_iff_toNat_le] at h
  change (if 48 ≤ c.toNat ∧ c.toNat ≤ 57 then _ else if 97 ≤ c.toNat ∧ c.toNat ≤ 102 then _
    else if 65 ≤ c.toNat ∧ c.toNat ≤ 70 then _ else _) = _ at h
  grind

-- Reading row by row is reading each digit and then adding up.
theorem read?_eq (cs : List Char) :
    read? cs = (cs.mapM value?).map (·.foldl (fun n d => 16 * n + d) 0) := by
  have h (n : Nat) : cs.foldlM (fun n c => (value? c).map (16 * n + ·)) n =
      (cs.mapM value?).map (·.foldl (fun n d => 16 * n + d) n) := by
    induction cs generalizing n with
    | nil => rfl
    | cons c rest ih =>
      cases hc : value? c with
      | none => simp [List.mapM_cons, hc]
      | some d =>
        rw [List.foldlM_cons, hc, Option.map_some, Option.bind_eq_bind, Option.bind_some, ih]
        cases hrest : rest.mapM value? with
        | none => simp [List.mapM_cons, hc, hrest]
        | some ds => simp [List.mapM_cons, hc, hrest]
  exact h 0

theorem length_of_mapM_value? {cs : List Char} {ds : List Nat} (h : cs.mapM value? = some ds) :
    ds.length = cs.length ∧ ∀ d ∈ ds, d < 16 := by
  induction cs generalizing ds with
  | nil => simp_all
  | cons c rest ih =>
    simp only [List.mapM_cons, Option.bind_eq_bind, Option.bind_eq_some_iff, Option.pure_def,
      Option.some.injEq] at h
    obtain ⟨d, hd, more, hmore, rfl⟩ := h
    obtain ⟨hlength, hlt⟩ := ih hmore
    exact ⟨by simp [hlength], List.forall_mem_cons.mpr ⟨value?_lt hd, hlt⟩⟩

theorem mapM_value?_digit (case : Case) {ds : List Nat} (h : ∀ d ∈ ds, d < 16) :
    (ds.map (digit case)).mapM value? = some ds := by
  induction ds with
  | nil => rfl
  | cons d rest ih =>
    obtain ⟨hd, hrest⟩ := List.forall_mem_cons.mp h
    simp [List.mapM_cons, value?_digit case d hd, ih hrest]

end Text.Hex

namespace Color

-- The bytes that hexadecimal digits denote two by two.
def pairs : List Nat → List UInt8
  | high :: low :: rest => UInt8.ofNat (16 * high + low) :: pairs rest
  | _ => []

-- Six or eight digits of either case and nothing else, two for each channel. With six of them the
-- colour is opaque.
def Spells (cs : List Char) (c : Color) : Prop :=
  ∃ digits, cs.mapM Text.Hex.value? = some digits ∧
    (digits.length = 6 ∧ c.channels = pairs digits ++ [0xFF] ∨
      digits.length = 8 ∧ c.channels = pairs digits)

-- One `#` may stand in front.
def Written (cs : List Char) (c : Color) : Prop :=
  Spells cs c ∨ ∃ rest, cs = '#' :: rest ∧ Spells rest c

-- A plus sign stands in place of the first digit, which then counts as zero.
def WrittenSigned (cs : List Char) (c : Color) : Prop :=
  ∃ rest, (cs = '+' :: rest ∨ cs = '#' :: '+' :: rest) ∧ Spells ('0' :: rest) c

theorem channels_ofWord (word : UInt32) :
    (ofWord word).channels = [UInt8.ofNat (word.toNat / 16777216), UInt8.ofNat (word.toNat / 65536),
      UInt8.ofNat (word.toNat / 256), UInt8.ofNat word.toNat] := by
  simp [ofWord, channels, ← UInt8.toNat_inj, Nat.shiftRight_eq_div_pow]

-- The number that a row of digits denotes.
def number (digits : List Nat) : Nat := digits.foldl (fun n d => 16 * n + d) 0

theorem channels_of_eight {digits : List Nat} (hlength : digits.length = 8)
    (hdigits : ∀ d ∈ digits, d < 16) :
    number digits < UInt32.size ∧
      (ofWord (UInt32.ofNat (number digits))).channels = pairs digits := by
  match digits, hlength with
  | [r, r', g, g', b, b', a, a'], _ =>
    simp only [List.forall_mem_cons, List.not_mem_nil, false_imp_iff, forall_true_iff,
      and_true] at hdigits
    obtain ⟨hr, hr', hg, hg', hb, hb', ha, ha'⟩ := hdigits
    have hlt : number [r, r', g, g', b, b', a, a'] < UInt32.size := by
      simp only [number, List.foldl_cons, List.foldl_nil, UInt32.size]
      omega
    refine ⟨hlt, ?_⟩
    rw [channels_ofWord, UInt32.toNat_ofNat_of_lt' hlt]
    simp only [number, List.foldl_cons, List.foldl_nil, pairs, List.cons.injEq, and_true,
      ← UInt8.toNat_inj, UInt8.toNat_ofNat']
    omega

-- Without digits for alpha the colour is what it is with `FF` behind it.
theorem word_of_six {digits : List Nat} (hlength : digits.length = 6)
    (hdigits : ∀ d ∈ digits, d < 16) :
    number digits < UInt32.size ∧
      UInt32.ofNat (number digits) <<< 8 ||| 0xFF = UInt32.ofNat (number (digits ++ [15, 15])) ∧
      pairs (digits ++ [15, 15]) = pairs digits ++ [0xFF] := by
  match digits, hlength with
  | [r, r', g, g', b, b'], _ =>
    simp only [List.forall_mem_cons, List.not_mem_nil, false_imp_iff, forall_true_iff,
      and_true] at hdigits
    obtain ⟨hr, hr', hg, hg', hb, hb'⟩ := hdigits
    have hnumber : number ([r, r', g, g', b, b'] ++ [15, 15]) =
        number [r, r', g, g', b, b'] * 2 ^ 8 + 255 := by
      simp only [number, List.cons_append, List.nil_append, List.foldl_cons, List.foldl_nil]
      omega
    have hlt : number [r, r', g, g', b, b'] < 16777216 := by
      simp only [number, List.foldl_cons, List.foldl_nil]
      omega
    refine ⟨Nat.lt_trans hlt (by decide), ?_, rfl⟩
    rw [hnumber, ← UInt32.toNat_inj, UInt32.toNat_or, UInt32.toNat_shiftLeft]
    simp only [UInt32.toNat_ofNat', UInt32.reduceToNat, Nat.reduceMod, Nat.shiftLeft_eq]
    generalize number [r, r', g, g', b, b'] = n at hlt
    rw [Nat.mod_eq_of_lt (show n < 2 ^ 32 by omega),
      Nat.mod_eq_of_lt (show n * 2 ^ 8 < 2 ^ 32 by omega),
      Nat.mod_eq_of_lt (show n * 2 ^ 8 + 255 < 2 ^ 32 by omega), ← Nat.shiftLeft_eq,
      Nat.shiftLeft_add_eq_or_of_lt (by decide)]

theorem channels_inj {c d : Color} : c.channels = d.channels ↔ c = d := by
  cases c
  cases d
  simp [channels]

-- Every colour can be written, with two digits for each channel.
theorem exists_written (c : Color) : ∃ text : String, Written text.toList c := by
  obtain ⟨digits, hdigits⟩ :
    ∃ digits, digits = c.channels.flatMap fun b => [b.toNat / 16, b.toNat % 16] := ⟨_, rfl⟩
  have hlt : ∀ d ∈ digits, d < 16 := by
    rw [hdigits]
    simp only [List.mem_flatMap, List.mem_cons, List.not_mem_nil, or_false]
    rintro d ⟨b, -, rfl | rfl⟩
    · have := b.toNat_lt
      omega
    · omega
  have hpairs : c.channels = pairs digits := by
    rw [hdigits]
    simp [channels, pairs, Nat.div_add_mod]
  have hlength : digits.length = 8 := by rw [hdigits]; rfl
  refine ⟨String.ofList (digits.map (Text.Hex.digit .lower)),
    .inl ⟨digits, ?_, .inr ⟨hlength, hpairs⟩⟩⟩
  rw [String.toList_ofList, Text.Hex.mapM_value?_digit .lower hlt]

-- What is read once no `#` is left in front.
def ofBody? (cs : List Char) : Option Color :=
  match readWord? cs with
  | some word =>
    if cs.length = 6 then some (ofWord (word <<< 8 ||| 0xFF))
    else if cs.length = 8 then some (ofWord word)
    else none
  | none => none

theorem readWord?_eq {cs : List Char} (hne : cs ≠ []) (hsign : cs.head? ≠ some '+') :
    readWord? cs = (cs.mapM Text.Hex.value?).bind fun digits =>
      if number digits < UInt32.size then some (UInt32.ofNat (number digits)) else none := by
  unfold readWord?
  split
  case h_1 => simp at hsign
  case h_2 =>
    simp only [List.isEmpty_iff, hne, if_false, Text.Hex.read?_eq]
    cases cs.mapM Text.Hex.value? <;> rfl

theorem ofBody?_eq_some_iff {cs : List Char} (hsign : cs.head? ≠ some '+') (c : Color) :
    ofBody? cs = some c ↔ Spells cs c := by
  by_cases hne : cs = []
  · subst hne
    simp [ofBody?, readWord?, Spells]
  · cases hcs : cs.mapM Text.Hex.value? with
    | none => simp [ofBody?, readWord?_eq hne hsign, Spells, hcs]
    | some digits =>
      obtain ⟨hlength, hlt⟩ := Text.Hex.length_of_mapM_value? hcs
      have hspells : Spells cs c ↔ digits.length = 6 ∧ c.channels = pairs digits ++ [0xFF] ∨
          digits.length = 8 ∧ c.channels = pairs digits := by
        simp [Spells, hcs]
      rw [hspells, ofBody?, readWord?_eq hne hsign, hcs, Option.bind_some, ← hlength]
      by_cases hsix : digits.length = 6
      · obtain ⟨hnumber, hword, hpairs⟩ := word_of_six hsix hlt
        have height : (digits ++ [15, 15]).length = 8 := by simp [hsix]
        have hchannels := (channels_of_eight height (by simpa [or_imp, forall_and] using hlt)).2
        simp only [hnumber, if_true, hsix, hword, Option.some.injEq]
        rw [← channels_inj, hchannels, hpairs]
        simp [eq_comm]
      · by_cases height : digits.length = 8
        · obtain ⟨hnumber, hchannels⟩ := channels_of_eight height hlt
          simp only [hnumber, if_true, height, Nat.reduceEqDiff, if_false, Option.some.injEq]
          rw [← channels_inj, hchannels]
          simp [eq_comm]
        · simp only [hsix, height, if_false, false_and, or_self, iff_false]
          split <;> simp

-- A plus sign is a zero to what is read.
theorem ofBody?_signed (rest : List Char) : ofBody? ('+' :: rest) = ofBody? ('0' :: rest) := by
  cases rest <;> rfl

theorem not_spells_cons {ch : Char} (hch : Text.Hex.value? ch = none) (rest : List Char)
    (c : Color) : ¬ Spells (ch :: rest) c := by
  rintro ⟨digits, hdigits, -⟩
  simp [List.mapM_cons, hch] at hdigits

theorem ofBody?_iff (cs : List Char) (c : Color) :
    ofBody? cs = some c ↔ Spells cs c ∨ ∃ rest, cs = '+' :: rest ∧ Spells ('0' :: rest) c := by
  by_cases hsign : cs.head? = some '+'
  · obtain ⟨rest, rfl⟩ := List.head?_eq_some_iff.mp hsign
    have hplus : ¬ Spells ('+' :: rest) c := not_spells_cons (by decide) rest c
    rw [ofBody?_signed, ofBody?_eq_some_iff (by simp)]
    simp [hplus]
  · rw [ofBody?_eq_some_iff hsign]
    refine ⟨Or.inl, ?_⟩
    rintro (hspells | ⟨rest, rfl, -⟩)
    · exact hspells
    · simp at hsign

theorem ofText?_of_mark {text : String} {rest : List Char} (h : text.toList = '#' :: rest) :
    ofText? text = ofBody? rest := by
  simp only [ofText?, h]
  rfl

theorem ofText?_of_no_mark {text : String} (h : ∀ rest, text.toList ≠ '#' :: rest) :
    ofText? text = ofBody? text.toList := by
  cases hword : readWord? text.toList with
  | none => simp only [ofText?, ofBody?, hword]
  | some word => simp only [ofText?, ofBody?, hword]

-- A text is a colour as it is written, or with a plus sign for its first digit.
theorem ofText?_eq_some_iff (text : String) (c : Color) :
    ofText? text = some c ↔ Written text.toList c ∨ WrittenSigned text.toList c := by
  have hmark (rest : List Char) : ¬ Spells ('#' :: rest) c := not_spells_cons (by decide) rest c
  by_cases h : ∃ rest, text.toList = '#' :: rest
  · obtain ⟨rest, h⟩ := h
    rw [ofText?_of_mark h, ofBody?_iff, h]
    simp [Written, WrittenSigned, hmark]
  · rw [not_exists] at h
    rw [ofText?_of_no_mark h, ofBody?_iff]
    simp [Written, WrittenSigned, h]

-- No text is both.
theorem WrittenSigned.not_written {cs : List Char} {c : Color} (h : WrittenSigned cs c)
    (d : Color) : ¬ Written cs d := by
  have hplus (rest : List Char) : ¬ Spells ('+' :: rest) d := not_spells_cons (by decide) rest d
  have hmark (rest : List Char) : ¬ Spells ('#' :: rest) d := not_spells_cons (by decide) rest d
  obtain ⟨rest, rfl | rfl, -⟩ := h
  · simp [Written, hplus]
  · simp [Written, hplus, hmark]

end Color

end Chip8
