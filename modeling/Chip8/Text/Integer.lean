namespace Chip8.Text.Integer

def isDigit (c : Char) : Bool := decide ('0' ≤ c ∧ c ≤ '9')

-- At least one digit and nothing else.
def readDigits? (cs : List Char) : Option Nat :=
  if cs.isEmpty || !cs.all isDigit then none
  else some (cs.foldl (fun n c => 10 * n + (c.toNat - 48)) 0)

-- Only a plus sign may stand in front.
def readNat? (cs : List Char) : Option Nat :=
  match cs with
  | '+' :: rest => readDigits? rest
  | _ => readDigits? cs

-- A plus or minus sign may stand in front.
def read? (cs : List Char) : Option Int :=
  match cs with
  | '-' :: rest => (readDigits? rest).map fun n => -(n : Int)
  | _ => (readNat? cs).map fun n => (n : Int)

-- The number if it lies between two bounds.
def readBetween? (low high : Nat) (cs : List Char) : Option Nat :=
  match read? cs with
  | some n => if (low : Int) ≤ n ∧ n ≤ (high : Int) then some n.toNat else none
  | none => none

theorem readBetween?_bounds {low high n : Nat} {cs : List Char}
    (h : readBetween? low high cs = some n) : low ≤ n ∧ n ≤ high := by
  unfold readBetween? at h
  split at h
  · split at h
    · simp only [Option.some.injEq] at h
      omega
    · simp at h
  · simp at h

end Chip8.Text.Integer
