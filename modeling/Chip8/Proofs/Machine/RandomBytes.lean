import Mathlib.Data.List.Induction
import Chip8.Proofs.Machine.Succession

namespace Chip8

-- Whether `Cxnn` was executed.
def Execution.draws (e : Execution) : Bool :=
  (Opcode.decode e.opcode).map Instruction.kind == some .random

-- The bytes behind the next `n`.
def Random.skip (r : Random) (n : Nat) : Random := { r with used := r.used + n }

-- The `k`-th `Cxnn` puts byte `k` of the seed into its register, as far as the mask lets through.
def TakesBytes (seed : UInt64) (executions : List Execution) : Prop :=
  ∀ (k : Nat) (e : Execution), (executions.filter Execution.draws)[k]? = some e →
    ∃ x mask, Opcode.decode e.opcode = some (.random x mask) ∧
      e.machine.execute e.opcode =
        Machine.done { e.machine.setRegister x (Random.byteAt seed k &&& mask) with
          random := ⟨seed, k + 1⟩ }

theorem Random.skip_skip (r : Random) (n k : Nat) : (r.skip n).skip k = r.skip (n + k) :=
  congrArg (Random.mk r.seed) (Nat.add_assoc _ _ _)

theorem Random.ofSeed_skip (seed : UInt64) (n : Nat) : (ofSeed seed).skip n = ⟨seed, n⟩ :=
  congrArg (Random.mk seed) (Nat.zero_add n)

namespace Machine

-- The seed that an operation starts the random bytes with, if it does.
def newSeed (m : Machine) : Operation → Option UInt64
  | .setProcessor processor =>
    if processor.seed = m.config.processor.seed then none else some processor.seed
  | _ => none

-- The last of the operations starts the random bytes.
def EndsSeeding (m : Machine) (operations : List Operation) : Prop :=
  ∃ before operation, operations = before ++ [operation] ∧
    ((m.run before).newSeed operation).isSome

-- None of the operations starts the random bytes.
def Unseeded (m : Machine) (operations : List Operation) : Prop :=
  ∀ before, before <+: operations → ¬m.EndsSeeding before

-- The random bytes are those of the seed in the configuration, and none of them is taken.
def IsSeeded (m : Machine) : Prop := m.random = .ofSeed m.config.processor.seed

variable {m : Machine}

theorem draws_eq_true_iff (e : Execution) :
    e.draws = true ↔ ∃ x mask, Opcode.decode e.opcode = some (.random x mask) := by
  rw [Execution.draws, beq_iff_eq]
  cases Opcode.decode e.opcode with
  | none => simp
  | some i => cases i <;> simp [Instruction.kind]

theorem execute_random {opcode : UInt16} {x : Register} {mask : UInt8}
    (h : Opcode.decode opcode = some (.random x mask)) :
    m.execute opcode = done { m.setRegister x (Random.byteAt m.random.seed m.random.used &&& mask)
      with random := m.random.skip 1 } := by
  have hk : Instruction.Kind.random ∈ Instruction.Kind.chip8 := by decide
  exact execute_of_chip8 h hk

theorem random_execute (e : Execution) :
    (e.machine.execute e.opcode).machine.random =
      if e.draws then e.machine.random.skip 1 else e.machine.random := by
  split
  case isTrue h =>
    obtain ⟨x, mask, hdecode⟩ := (draws_eq_true_iff e).mp h
    rw [execute_random hdecode]
    rfl
  case isFalse h =>
    apply (e.machine.flags_and_random_execute e.opcode).2
    intro hkind
    obtain ⟨i, hi, hrandom⟩ := Option.map_eq_some_iff.mp hkind
    have hdecode := ((e.machine.instruction?_eq_some_iff e.opcode i).mp hi).1
    exact h (beq_iff_eq.mpr (Option.map_eq_some_iff.mpr ⟨i, hdecode, hrandom⟩))

-- Along a stretch without a new seed the bytes are taken in their order.
theorem random_of_handsOn {r last : Random} {es : List Execution}
    (h : HandsOn Machine.random r es last) :
    last = r.skip (es.countP Execution.draws) ∧
      ∀ (k : Nat) (e : Execution), (es.filter Execution.draws)[k]? = some e →
        e.machine.random = r.skip k := by
  induction es generalizing r with
  | nil => exact ⟨h, by simp⟩
  | cons first rest ih =>
    obtain ⟨rfl, hrest⟩ := h
    rw [random_execute] at hrest
    cases hdraws : first.draws with
    | false =>
      rw [hdraws, if_neg Bool.false_ne_true] at hrest
      rw [List.countP_cons_of_neg (by simp [hdraws]), List.filter_cons_of_neg (by simp [hdraws])]
      exact ih hrest
    | true =>
      rw [hdraws, if_pos rfl] at hrest
      obtain ⟨hlast, hbytes⟩ := ih hrest
      rw [List.countP_cons_of_pos hdraws, List.filter_cons_of_pos hdraws]
      refine ⟨by rw [hlast, Random.skip_skip, Nat.add_comm], ?_⟩
      intro k e he
      cases k with
      | zero =>
        obtain rfl := Option.some.inj he
        rfl
      | succ k => rw [hbytes k e he, Random.skip_skip, Nat.add_comm]

theorem takesBytes_of_handsOn {seed : UInt64} {es : List Execution} {last : Random}
    (h : HandsOn Machine.random (.ofSeed seed) es last) : TakesBytes seed es := by
  intro k e he
  have hdraws : e.draws = true := (List.mem_filter.mp (List.mem_of_getElem? he)).2
  obtain ⟨x, mask, hdecode⟩ := (draws_eq_true_iff e).mp hdraws
  refine ⟨x, mask, hdecode, ?_⟩
  rw [execute_random hdecode, (random_of_handsOn h).2 k e he, Random.ofSeed_skip]
  rfl

theorem newSeed_setProcessor (m : Machine) (processor : Processor) :
    m.newSeed (.setProcessor processor) =
      if processor.seed = m.config.processor.seed then none else some processor.seed :=
  rfl

theorem random_setProcessor_of_newSeed_eq_none {processor : Processor}
    (h : m.newSeed (.setProcessor processor) = none) :
    (m.setProcessor processor).random = m.random := by
  rw [newSeed_setProcessor, ite_eq_left_iff] at h
  exact if_pos (Decidable.byContradiction fun hseed => Option.some_ne_none _ (h hseed))

-- A new seed comes with new settings of the processor, and starts its bytes.
theorem isSeeded_apply_of_newSeed {operation : Operation} {seed : UInt64}
    (h : m.newSeed operation = some seed) :
    (m.apply operation).machine.random = .ofSeed seed ∧
      (m.apply operation).machine.config.processor.seed = seed := by
  cases operation with
  | setProcessor processor =>
    rw [newSeed_setProcessor] at h
    split at h
    · cases h
    case isFalse hseed =>
      obtain rfl := Option.some.inj h
      exact ⟨if_neg hseed, rfl⟩
  | _ => cases h

-- Whatever an operation does, the bytes that it takes are those that its instructions take.
theorem random_apply (m : Machine) (operation : Operation) :
    (m.apply operation).machine.random = (m.newSeed operation).elim
      (m.random.skip ((m.executions operation).countP Execution.draws)) .ofSeed := by
  cases hseed : m.newSeed operation with
  | none =>
    have hhandsOn : HandsOn Machine.random m.random (m.executions operation)
        (m.apply operation).machine.random := by
      apply carried_random.handsOn_apply
      rintro processor rfl
      exact random_setProcessor_of_newSeed_eq_none hseed
    exact (random_of_handsOn hhandsOn).1
  | some seed => exact (isSeeded_apply_of_newSeed hseed).1

theorem endsSeeding_concat_iff {operations : List Operation} {operation : Operation} :
    m.EndsSeeding (operations ++ [operation]) ↔
      ((m.run operations).newSeed operation).isSome := by
  constructor
  · rintro ⟨before, last, heq, hseed⟩
    obtain ⟨rfl, hlast⟩ := List.append_inj' heq rfl
    obtain rfl := List.singleton_inj.mp hlast
    exact hseed
  · exact fun hseed => ⟨operations, operation, rfl, hseed⟩

theorem EndsSeeding.append {before operations : List Operation}
    (h : (m.run before).EndsSeeding operations) : m.EndsSeeding (before ++ operations) := by
  obtain ⟨earlier, operation, rfl, hseed⟩ := h
  rw [← List.append_assoc, endsSeeding_concat_iff, run_append]
  exact hseed

theorem EndsSeeding.isSeeded {operations : List Operation} (h : m.EndsSeeding operations) :
    (m.run operations).IsSeeded := by
  obtain ⟨before, operation, rfl, hseed⟩ := h
  obtain ⟨seed, hseed⟩ := Option.isSome_iff_exists.mp hseed
  obtain ⟨hrandom, hconfig⟩ := isSeeded_apply_of_newSeed hseed
  rw [run_append]
  exact hrandom.trans (congrArg Random.ofSeed hconfig.symm)

theorem unseeded_nil (m : Machine) : m.Unseeded [] := by
  rintro before hbefore ⟨earlier, operation, rfl, -⟩
  simp at hbefore

theorem unseeded_concat {operations : List Operation} (operation : Operation)
    (h : m.Unseeded operations) (hlast : ¬m.EndsSeeding (operations ++ [operation])) :
    m.Unseeded (operations ++ [operation]) := by
  intro before hbefore
  rcases List.prefix_concat_iff.mp hbefore with rfl | hbefore
  · exact hlast
  · exact h before hbefore

theorem Unseeded.handsOn_history {operations : List Operation} (h : m.Unseeded operations) :
    HandsOn Machine.random m.random (m.history operations) (m.run operations).random := by
  apply carried_random.handsOn_history
  intro before processor hbefore
  have hlast := mt endsSeeding_concat_iff.mpr (h _ hbefore)
  exact random_setProcessor_of_newSeed_eq_none (Option.not_isSome_iff_eq_none.mp hlast)

-- Every run has a stretch at its end in which nothing is seeded, from the last seed on.
theorem exists_last_seed (m : Machine) (operations : List Operation) :
    ∃ before rest, operations = before ++ rest ∧ (before = [] ∨ m.EndsSeeding before) ∧
      (m.run before).Unseeded rest := by
  induction operations using List.reverseRecOn with
  | nil => exact ⟨[], [], rfl, .inl rfl, unseeded_nil m⟩
  | append_singleton operations operation ih =>
    by_cases hlast : m.EndsSeeding (operations ++ [operation])
    · exact ⟨_, [], (List.append_nil _).symm, .inr hlast, unseeded_nil _⟩
    · obtain ⟨before, rest, rfl, hbefore, hrest⟩ := ih
      rw [List.append_assoc] at hlast ⊢
      exact ⟨before, rest ++ [operation], rfl, hbefore,
        unseeded_concat operation hrest fun h => hlast h.append⟩

-- Random bytes are seeded where a machine is made and where its processor gets another seed, and
-- taken by nothing but `Cxnn`. So the bytes that a program sees are those of the last seed, from
-- the first one on, whatever else happens in between.
theorem random_bytes_in_order (config : Config) :
    (∀ (m : Machine) (operation : Operation), (m.apply operation).machine.random =
      (m.newSeed operation).elim
        (m.random.skip ((m.executions operation).countP Execution.draws)) .ofSeed) ∧
    (∀ before rest, before = [] ∨ (new config).EndsSeeding before →
      ((new config).run before).Unseeded rest →
        TakesBytes ((new config).run before).config.processor.seed
          (((new config).run before).history rest)) ∧
    ∀ operations, ∃ before rest, operations = before ++ rest ∧
      (before = [] ∨ (new config).EndsSeeding before) ∧
      ((new config).run before).Unseeded rest := by
  refine ⟨random_apply, ?_, (new config).exists_last_seed⟩
  intro before rest hbefore hrest
  have hseeded : ((new config).run before).IsSeeded := by
    rcases hbefore with rfl | hends
    · rfl
    · exact hends.isSeeded
  have hhandsOn := hrest.handsOn_history
  rw [hseeded] at hhandsOn
  exact takesBytes_of_handsOn hhandsOn

-- A seed for a moment. When the old one is back, its bytes start again, and neither a reset nor
-- an unknown opcode nor a setting that keeps the seed takes any of them.
theorem random_bytes_of_seed_again :
    let start := new (.standard 7)
    let before : List Operation :=
      [.execute 0xC0FF, .setProcessor (.standard 99), .setProcessor (.standard 7)]
    let rest : List Operation :=
      [.execute 0xC1FF, .reset, .execute 0x00FD, .setProcessor (.standard 7), .execute 0xC20F]
    start.EndsSeeding before ∧ (start.run before).Unseeded rest ∧
      TakesBytes 7 ((start.run before).history rest) ∧
      ((start.run before).run rest).get 2 = 0xE9 &&& 0x0F := by
  intro start before rest
  have hbefore : start.EndsSeeding before :=
    ⟨[.execute 0xC0FF, .setProcessor (.standard 99)], .setProcessor (.standard 7), rfl, by decide⟩
  have hrest : (start.run before).Unseeded rest := by
    have hfirst := unseeded_concat (.execute 0xC1FF) (unseeded_nil (start.run before))
      (mt endsSeeding_concat_iff.mp (by decide))
    have hreset := unseeded_concat .reset hfirst (mt endsSeeding_concat_iff.mp (by decide))
    have hfault := unseeded_concat (.execute 0x00FD) hreset
      (mt endsSeeding_concat_iff.mp (by decide))
    have hsetting := unseeded_concat (.setProcessor (.standard 7)) hfault
      (mt endsSeeding_concat_iff.mp (by decide))
    exact unseeded_concat (.execute 0xC20F) hsetting (mt endsSeeding_concat_iff.mp (by decide))
  obtain ⟨-, htakes, -⟩ := random_bytes_in_order (.standard 7)
  exact ⟨hbefore, hrest, htakes before rest (.inr hbefore) hrest, by decide +kernel⟩

end Machine

end Chip8
