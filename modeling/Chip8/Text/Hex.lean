namespace Chip8.Text.Hex

inductive Case
  | lower
  | upper
deriving DecidableEq, Repr

def digit (case : Case) (d : Nat) : Char :=
  if d < 10 then Char.ofNat (48 + d)
  else match case with
    | .lower => Char.ofNat (87 + d)
    | .upper => Char.ofNat (55 + d)

-- The `places` low digits of `n`, highest first.
def digits (case : Case) : Nat → Nat → List Char
  | 0, _ => []
  | places + 1, n => digits case places (n / 16) ++ [digit case (n % 16)]

-- A numeral reads back to the number modulo `16 ^ places`.
def numeral (case : Case) (places n : Nat) : String :=
  String.ofList (digits case places n)

-- Numerals of the listings: lower case behind the mark `0x`.
def marked (places n : Nat) : String :=
  "0x" ++ numeral .lower places n

-- The value of a digit, in either case.
def value? (c : Char) : Option Nat :=
  if '0' ≤ c ∧ c ≤ '9' then some (c.toNat - 48)
  else if 'a' ≤ c ∧ c ≤ 'f' then some (c.toNat - 87)
  else if 'A' ≤ c ∧ c ≤ 'F' then some (c.toNat - 55)
  else none

-- The number that a row of digits denotes. Fails on anything but a digit.
def read? (cs : List Char) : Option Nat :=
  cs.foldlM (fun n c => (value? c).map (16 * n + ·)) 0

theorem length_digits (case : Case) (places n : Nat) :
    (digits case places n).length = places := by
  induction places generalizing n with
  | zero => rfl
  | succ places ih => simp [digits, ih]

theorem value?_digit (case : Case) (d : Nat) (hd : d < 16) :
    value? (digit case d) = some d := by
  have h : ∀ d : Fin 16, value? (digit case d) = some d.val := by cases case <;> decide
  exact h ⟨d, hd⟩

theorem read?_digits (case : Case) (places n : Nat) :
    read? (digits case places n) = some (n % Nat.pow 16 places) := by
  induction places generalizing n with
  | zero => simp [read?, digits, Nat.mod_one]
  | succ places ih =>
    have h := ih (n / 16)
    simp only [read?] at h
    have hmod : n % Nat.pow 16 (places + 1) = 16 * (n / 16 % Nat.pow 16 places) + n % 16 := by
      change n % (Nat.pow 16 places * 16) = _
      rw [Nat.mul_comm, Nat.mod_mul, Nat.add_comm]
    rw [hmod]
    simp [read?, digits, List.foldlM_append, h, value?_digit case (n % 16) (by omega)]

end Chip8.Text.Hex
