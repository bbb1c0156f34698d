import Chip8.Listing
import Chip8.Proofs.Instruction.Encoding
import Chip8.Proofs.Instruction.Text
import Chip8.Proofs.Machine.Failure

namespace Chip8

namespace Opcode

variable {opcode : UInt16} {i : Instruction}

theorem toNat_eq_extended (h : decode opcode = some i)
    (hi : i.kind ∈ Instruction.Kind.superChip) : opcode.toNat = extended i := by
  rw [toNat_of_decode h]
  cases i with
  | highResolution | lowResolution | scrollDown _ | scrollRight | scrollLeft | bigGlyph _
  | saveFlags _ | loadFlags _ | exit => rfl
  | _ => simp [Instruction.kind, Instruction.Kind.superChip] at hi

theorem decode_inj_of_superChip {a b : UInt16} (ha : decode a = some i) (hb : decode b = some i)
    (hi : i.kind ∈ Instruction.Kind.superChip) : a = b :=
  UInt16.toNat.inj ((toNat_eq_extended ha hi).trans (toNat_eq_extended hb hi).symm)

end Opcode

namespace Instruction

-- Two shifts that copy different registers before they shift.
def CopyApart (dialect : Dialect) (i j : Instruction) : Prop :=
  dialect.shiftCopiesY = true ∧ ∃ x y y', y ≠ y' ∧
    (i = shiftRight x y ∧ j = shiftRight x y' ∨ i = shiftLeft x y ∧ j = shiftLeft x y')

variable {dialect : Dialect} {i j : Instruction}

theorem kind_eq_of_shown_eq (h : i.shown dialect = j.shown dialect) : i.kind = j.kind :=
  kind_eq_of_text_eq (text_eq_iff.mpr h)

theorem shown_of_superChip (hi : i.kind ∈ Kind.superChip) : i.shown dialect = i := by
  cases i with
  | shiftRight x y | shiftLeft x y | jumpOffset x base => simp [kind, Kind.superChip] at hi
  | _ => rfl

end Instruction

namespace Machine

variable {m : Machine} {dialect : Dialect} {a b : UInt16} {i j : Instruction}

theorem shiftSource_eq {x y y' : Register} (hy : m.config.dialect.shiftCopiesY = true → y = y') :
    m.shiftSource x y = m.shiftSource x y' := by
  unfold shiftSource
  split
  case isTrue h => rw [hy h]
  case isFalse => rfl

theorem perform_shiftRight_eq {x y y' : Register}
    (hy : m.config.dialect.shiftCopiesY = true → y = y') :
    m.perform (.shiftRight x y) = m.perform (.shiftRight x y') := by
  simp only [perform, shiftRight, shiftSource_eq hy]

theorem perform_shiftLeft_eq {x y y' : Register}
    (hy : m.config.dialect.shiftCopiesY = true → y = y') :
    m.perform (.shiftLeft x y) = m.perform (.shiftLeft x y') := by
  simp only [perform, shiftLeft, shiftSource_eq hy]

-- What is not shown does not matter, unless two shifts copy apart.
theorem perform_eq_of_shown_eq (h : i.shown dialect = j.shown dialect)
    (hcopy : ¬Instruction.CopyApart dialect i j) (hm : m.config.dialect = dialect) :
    m.perform i = m.perform j := by
  subst hm
  have hkind := Instruction.kind_eq_of_shown_eq h
  obtain ⟨o, p, hi, hj⟩ := Instruction.exists_operands_of_kind_eq hkind
  generalize i.kind = k at hi hj
  subst hi hj
  cases k with
  | shiftRight =>
    obtain ⟨hx, -⟩ := Instruction.shiftRight.inj h
    have hy : m.config.dialect.shiftCopiesY = true → o.y = p.y := by
      intro hcopies
      by_contra hy
      exact hcopy ⟨hcopies, o.x, o.y, p.y, hy, .inl ⟨rfl, by rw [hx]; rfl⟩⟩
    simp only [Instruction.Kind.instruction, hx]
    exact perform_shiftRight_eq hy
  | shiftLeft =>
    obtain ⟨hx, -⟩ := Instruction.shiftLeft.inj h
    have hy : m.config.dialect.shiftCopiesY = true → o.y = p.y := by
      intro hcopies
      by_contra hy
      exact hcopy ⟨hcopies, o.x, o.y, p.y, hy, .inr ⟨rfl, by rw [hx]; rfl⟩⟩
    simp only [Instruction.Kind.instruction, hx]
    exact perform_shiftLeft_eq hy
  | jumpOffset =>
    obtain ⟨hx, hbase⟩ := Instruction.jumpOffset.inj h
    simp only [Instruction.Kind.instruction, perform, hx, hbase]
  | _ => exact congrArg m.perform h

theorem execute_eq_of_shown_eq (ha : Opcode.decode a = some i) (hb : Opcode.decode b = some j)
    (h : i.shown dialect = j.shown dialect) (hcopy : ¬Instruction.CopyApart dialect i j)
    (hm : m.config.dialect = dialect) : m.execute a = m.execute b := by
  have hkind := Instruction.kind_eq_of_shown_eq h
  cases hset : m.instructionSet.supports i.kind with
  | true =>
    have hia := (m.instruction?_eq_some_iff a i).mpr ⟨ha, hset⟩
    have hjb := (m.instruction?_eq_some_iff b j).mpr ⟨hb, by rwa [← hkind]⟩
    rw [execute_of_eq_some hia, execute_of_eq_some hjb]
    exact perform_eq_of_shown_eq h hcopy hm
  | false =>
    -- the fault carries the opcode, which only a CHIP-8 instruction leaves open
    obtain ⟨hsuper, -⟩ := (InstructionSet.supports_eq_false_iff _ _).mp hset
    have hij : i = j := by
      rwa [Instruction.shown_of_superChip hsuper,
        Instruction.shown_of_superChip (by rwa [← hkind])] at h
    subst hij
    rw [Opcode.decode_inj_of_superChip ha hb hsuper]

-- A machine on which a shift raises the flag if it copies one register and not if another.
def withRegister (dialect : Dialect) (y : Register) : Machine :=
  { new { Config.standard 0 with dialect } with registers := Registers.powerOn.set y 0x81 }

theorem get_withRegister (dialect : Dialect) (x y : Register) :
    (withRegister dialect y).get x = if y = x then 0x81 else 0 := by
  have hzero : Registers.powerOn.get x = 0 := by
    simp only [Registers.get, Registers.powerOn, Fin.getElem_fin, Vector.getElem_replicate]
  have hget := Registers.powerOn.get_set y x 0x81
  rwa [hzero] at hget

theorem get_flag_setWithFlag (x : Register) (value : UInt8) (raised : Bool) :
    (m.setWithFlag x value raised).get Registers.flag = if raised then 1 else 0 := by
  have hget := (m.registers.set x value).get_set Registers.flag Registers.flag
    (if raised then 1 else 0)
  rwa [if_pos rfl] at hget

theorem shiftSource_withRegister (hcopies : dialect.shiftCopiesY = true) (x y y' : Register) :
    (withRegister dialect y').shiftSource x y = if y' = y then 0x81 else 0 := by
  have hdialect : (withRegister dialect y').config.dialect = dialect := rfl
  rw [shiftSource, hdialect, if_pos hcopies, get_withRegister]

theorem flag_shiftRight (x y : Register) :
    (m.perform (.shiftRight x y)).machine.get Registers.flag =
      if m.shiftSource x y &&& 1 == 1 then 1 else 0 :=
  get_flag_setWithFlag x _ _

theorem flag_shiftLeft (x y : Register) :
    (m.perform (.shiftLeft x y)).machine.get Registers.flag =
      if m.shiftSource x y >>> 7 == 1 then 1 else 0 :=
  get_flag_setWithFlag x _ _

theorem execute_ne_of_copyApart (ha : Opcode.decode a = some i) (hb : Opcode.decode b = some j)
    (h : Instruction.CopyApart dialect i j) :
    ∃ m : Machine, m.config.dialect = dialect ∧ m.execute a ≠ m.execute b := by
  obtain ⟨hcopies, x, y, y', hy, hij⟩ := h
  have hsource := shiftSource_withRegister hcopies x y y'
  have hsource' := shiftSource_withRegister hcopies x y' y'
  rw [if_neg (Ne.symm hy)] at hsource
  rw [if_pos rfl] at hsource'
  refine ⟨withRegister dialect y', rfl, fun heq => ?_⟩
  have hflag := congrArg (fun o => o.machine.get Registers.flag) heq
  obtain ⟨rfl, rfl⟩ | ⟨rfl, rfl⟩ := hij
  · have hia := ((withRegister dialect y').instruction?_eq_some_iff a _).mpr ⟨ha, rfl⟩
    have hjb := ((withRegister dialect y').instruction?_eq_some_iff b _).mpr ⟨hb, rfl⟩
    simp only [execute_of_eq_some hia, execute_of_eq_some hjb, flag_shiftRight, hsource,
      hsource'] at hflag
    exact absurd hflag (by decide)
  · have hia := ((withRegister dialect y').instruction?_eq_some_iff a _).mpr ⟨ha, rfl⟩
    have hjb := ((withRegister dialect y').instruction?_eq_some_iff b _).mpr ⟨hb, rfl⟩
    simp only [execute_of_eq_some hia, execute_of_eq_some hjb, flag_shiftLeft, hsource,
      hsource'] at hflag
    exact absurd hflag (by decide)

-- Opcodes with one text do the same on every machine of the dialect, unless they are shifts that
-- copy apart.
theorem execute_eq_iff_of_text_eq {text : String} (ha : Opcode.text? dialect a = some text)
    (hb : Opcode.text? dialect b = some text) :
    (∀ m : Machine, m.config.dialect = dialect → m.execute a = m.execute b) ↔
      ¬∃ i j, Opcode.decode a = some i ∧ Opcode.decode b = some j ∧
        Instruction.CopyApart dialect i j := by
  obtain ⟨i, hi, htext⟩ := Option.map_eq_some_iff.mp ha
  obtain ⟨j, hj, htext'⟩ := Option.map_eq_some_iff.mp hb
  have hshown := Instruction.text_eq_iff.mp (htext.trans htext'.symm)
  constructor
  · rintro hsame ⟨i', j', hi', hj', happart⟩
    obtain ⟨m, hm, hne⟩ := execute_ne_of_copyApart hi' hj' happart
    exact hne (hsame m hm)
  · intro hcopy m hm
    exact execute_eq_of_shown_eq hi hj hshown (fun happart => hcopy ⟨i, j, hi, hj, happart⟩) hm

-- The last digit of `5xyn` is free.
theorem execute_eq_of_free_digit :
    Opcode.text? .standard 0x5010 = some "skip_equal V0, V1" ∧
      Opcode.text? .standard 0x5011 = some "skip_equal V0, V1" ∧
      ∀ m : Machine, m.config.dialect = .standard → m.execute 0x5010 = m.execute 0x5011 := by
  have ha : Opcode.text? .standard 0x5010 = some "skip_equal V0, V1" := by decide
  have hb : Opcode.text? .standard 0x5011 = some "skip_equal V0, V1" := by decide
  refine ⟨ha, hb, (execute_eq_iff_of_text_eq ha hb).mpr ?_⟩
  have hdecode : Opcode.decode 0x5010 = some (.skipSame 0 1) := by decide
  rintro ⟨i, j, hi, -, -, x, y, y', -, hij⟩
  rw [hdecode] at hi
  cases hi
  rcases hij with ⟨h, -⟩ | ⟨h, -⟩ <;> cases h

-- Here the text of the two opcodes leaves out which register they copy.
theorem text_hides_copied_register :
    Opcode.text? .standard 0x8016 = some "rshift V0" ∧
      Opcode.text? .standard 0x8026 = some "rshift V0" ∧
      ∃ m : Machine, m.config.dialect = .standard ∧ m.execute 0x8016 ≠ m.execute 0x8026 := by
  have ha : Opcode.decode 0x8016 = some (.shiftRight 0 1) := by decide
  have hb : Opcode.decode 0x8026 = some (.shiftRight 0 2) := by decide
  refine ⟨by decide, by decide, execute_ne_of_copyApart ha hb ?_⟩
  exact ⟨rfl, 0, 1, 2, by decide, .inl ⟨rfl, rfl⟩⟩

end Machine

end Chip8
