import Mathlib.Data.Nat.Digits.Lemmas
import Chip8.Text.Integer

namespace Chip8.Text.Integer

-- One digit or more, from the highest, and nothing else.
def Spells (cs : List Char) (n : Nat) : Prop :=
  ∃ digits : List Nat, digits ≠ [] ∧ (∀ d ∈ digits, d < 10) ∧ cs = digits.map Nat.digitChar ∧
    n = Nat.ofDigits 10 digits.reverse

theorem isDigit_iff (c : Char) : isDigit c = true ↔ 48 ≤ c.toNat ∧ c.toNat ≤ 57 := by
  simp only [isDigit, decide_eq_true_eq, Char.le_def, UInt32.le_iff_toNat_le]
  exact Iff.rfl

theorem isDigit_digitChar {d : Nat} (hd : d < 10) : isDigit d.digitChar = true := by
  rw [isDigit_iff, Nat.toNat_digitChar_of_lt_ten hd]
  omega

theorem digitChar_of_isDigit {c : Char} (hc : isDigit c = true) :
    Nat.digitChar (c.toNat - 48) = c := by
  have hbounds := (isDigit_iff c).mp hc
  rw [← Char.toNat_inj, Nat.toNat_digitChar_of_lt_ten (by omega)]
  omega

-- Reading adds the digits up from the highest, a numeral from the lowest.
theorem ofDigits_reverse (digits : List Nat) :
    Nat.ofDigits 10 digits.reverse = digits.foldl (fun n d => 10 * n + d) 0 := by
  rw [Nat.ofDigits_eq_foldr, List.foldr_reverse]
  congr 1
  funext n d
  exact Nat.add_comm _ _

theorem foldl_digitChar {digits : List Nat} (hdigits : ∀ d ∈ digits, d < 10) :
    (digits.map Nat.digitChar).foldl (fun n c => 10 * n + (c.toNat - 48)) 0 =
      Nat.ofDigits 10 digits.reverse := by
  rw [ofDigits_reverse, List.foldl_map]
  refine List.foldl_ext _ _ 0 fun n d hd => ?_
  rw [Nat.toNat_digitChar_of_lt_ten (hdigits d hd)]
  omega

theorem exists_digits {cs : List Char} (hall : ∀ c ∈ cs, isDigit c = true) :
    ∃ digits : List Nat, (∀ d ∈ digits, d < 10) ∧ cs = digits.map Nat.digitChar := by
  refine ⟨cs.map (·.toNat - 48), ?_, ?_⟩
  · simp only [List.forall_mem_map]
    intro c hc
    have hbounds := (isDigit_iff c).mp (hall c hc)
    omega
  · rw [List.map_map]
    refine (List.map_id cs).symm.trans (List.map_congr_left fun c hc => ?_)
    exact (digitChar_of_isDigit (hall c hc)).symm

theorem readDigits?_eq_some_iff (cs : List Char) (n : Nat) :
    readDigits? cs = some n ↔ Spells cs n := by
  simp only [readDigits?, Option.ite_none_left_eq_some, Option.some.injEq, Bool.or_eq_true,
    Bool.not_eq_true', not_or, Bool.not_eq_true, Bool.not_eq_false, List.isEmpty_eq_false_iff,
    List.all_eq_true]
  constructor
  · rintro ⟨⟨hne, hall⟩, rfl⟩
    obtain ⟨digits, hlt, rfl⟩ := exists_digits hall
    exact ⟨digits, by simpa using hne, hlt, rfl, foldl_digitChar hlt⟩
  · rintro ⟨digits, hne, hlt, rfl, rfl⟩
    refine ⟨⟨by simpa using hne, ?_⟩, foldl_digitChar hlt⟩
    simp only [List.forall_mem_map]
    exact fun d hd => isDigit_digitChar (hlt d hd)

theorem exists_spells (n : Nat) : ∃ text : String, Spells text.toList n := by
  by_cases hn : n = 0
  · exact ⟨"0", [0], by decide, by decide, by decide +kernel, by simp [hn]⟩
  · refine ⟨String.ofList ((Nat.digits 10 n).reverse.map Nat.digitChar), (Nat.digits 10 n).reverse,
      by simpa [Nat.digits_eq_nil_iff_eq_zero] using hn, ?_, String.toList_ofList, ?_⟩
    · intro d hd
      exact Nat.digits_lt_base (by decide) (List.mem_reverse.mp hd)
    · rw [List.reverse_reverse, Nat.ofDigits_digits]

theorem Spells.exists_cons {cs : List Char} {n : Nat} (h : Spells cs n) :
    ∃ c rest, cs = c :: rest ∧ isDigit c = true := by
  obtain ⟨digits, hne, hlt, rfl, -⟩ := h
  obtain ⟨d, rest, rfl⟩ := List.exists_cons_of_ne_nil hne
  exact ⟨d.digitChar, rest.map Nat.digitChar, rfl, isDigit_digitChar (hlt d List.mem_cons_self)⟩

-- A numeral has no sign, so it reads alike where one may stand in front.

theorem readNat?_of_spells {cs : List Char} {n : Nat} (h : Spells cs n) : readNat? cs = some n := by
  rw [← (readDigits?_eq_some_iff cs n).mpr h]
  obtain ⟨c, rest, rfl, hc⟩ := h.exists_cons
  unfold readNat?
  split
  case h_1 heq =>
    cases heq
    exact absurd hc (by decide)
  case h_2 => rfl

theorem readBetween?_of_spells {cs : List Char} {n low high : Nat} (h : Spells cs n)
    (hlow : low ≤ n) (hhigh : n ≤ high) : readBetween? low high cs = some n := by
  have hread : read? cs = some (n : Int) := by
    have hnat := readNat?_of_spells h
    obtain ⟨c, rest, rfl, hc⟩ := h.exists_cons
    unfold read?
    split
    case h_1 heq =>
      cases heq
      exact absurd hc (by decide)
    case h_2 =>
      rw [hnat]
      rfl
  have hbounds : (low : Int) ≤ n ∧ (n : Int) ≤ high := by omega
  simp only [readBetween?, hread, hbounds, and_self, if_true, Int.toNat_natCast]

end Chip8.Text.Integer
