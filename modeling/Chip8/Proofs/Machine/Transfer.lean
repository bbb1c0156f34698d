import Chip8.Proofs.Machine.Flags

namespace Chip8

-- V0 to Vx as one machine saves them and another one loads them.
structure Exchange where
  x : Register
  source : Machine
  target : Machine

namespace Exchange

def save (e : Exchange) : Execution := ⟨e.source, Opcode.ofDigits 0xF e.x 5 5⟩

def load (e : Exchange) : Execution := ⟨e.target, Opcode.ofDigits 0xF e.x 6 5⟩

-- The bytes that it moves.
def block (e : Exchange) : List UInt8 := e.source.firstRegisters e.x

-- The bytes that it finds when it loads.
def found (e : Exchange) : List UInt8 :=
  e.target.memory.readMany e.target.registers.address (e.x + 1)

-- Both of its machines move I on.
def Advances (e : Exchange) : Prop :=
  e.source.config.dialect.transferAdvances = true ∧
    e.target.config.dialect.transferAdvances = true

-- How many bytes all of them move.
def total : List Exchange → Nat
  | [] => 0
  | e :: rest => e.x.val + 1 + total rest

theorem add_total_cons (e : Exchange) (es : List Exchange) (start : UInt16) :
    start + UInt16.ofNat (total (e :: es)) =
      start + UInt16.ofNat (e.x.val + 1) + UInt16.ofNat (total es) := by
  rw [total, UInt16.ofNat_add (e.x.val + 1), UInt16.add_assoc]

theorem length_block (e : Exchange) : e.block.length = e.x.val + 1 :=
  e.source.length_firstRegisters e.x

theorem length_found (e : Exchange) : e.found.length = e.x.val + 1 := by
  rw [found, Memory.readMany, List.length_map, List.length_range]

theorem length_flatMap_block (es : List Exchange) : (es.flatMap block).length = total es := by
  induction es with
  | nil => rfl
  | cons e rest ih => rw [List.flatMap_cons, List.length_append, e.length_block, ih, total]

end Exchange

theorem Opcode.decode_transfer (a : Register) :
    decode (ofDigits 0xF a 5 5) = some (.saveRegisters a) ∧
      decode (ofDigits 0xF a 6 5) = some (.loadRegisters a) := by
  revert a
  decide

namespace Machine

-- What transfers hand on: the memory and where in it they are.
def place (m : Machine) : Memory × UInt16 := (m.memory, m.registers.address)

-- I after V0 to Vx were moved.
def addressBehind (m : Machine) (x : Register) : Nat :=
  if m.config.dialect.transferAdvances then (m.registers.address.toNat + x.val + 1) % 65536
  else m.registers.address.toNat

variable {m : Machine} {memory saved : Memory} {start : UInt16} {last : Memory × UInt16}

theorem place_setRegister (m : Machine) (x : Register) (value : UInt8) :
    (m.setRegister x value).place = m.place :=
  rfl

theorem place_setFirst (m : Machine) (values : List UInt8) :
    (m.setFirst values).place = m.place := by
  simp only [place, setFirst]

theorem config_setFirst (m : Machine) (values : List UInt8) :
    (m.setFirst values).config = m.config := by
  simp only [setFirst]

theorem place_advanceAddress (h : m.config.dialect.transferAdvances = true) (count : Nat) :
    (m.advanceAddress count).place = (m.place.1, m.place.2 + UInt16.ofNat count) := by
  rw [advanceAddress, if_pos h]
  rfl

theorem execute_save (m : Machine) (x : Register) :
    m.execute (Opcode.ofDigits 0xF x 5 5) = (m.saveRegisters x).done :=
  execute_of_chip8 (Opcode.decode_transfer x).1 (of_decide_eq_true rfl)

theorem execute_load (m : Machine) (x : Register) :
    m.execute (Opcode.ofDigits 0xF x 6 5) = (m.loadRegisters x).done :=
  execute_of_chip8 (Opcode.decode_transfer x).2 (of_decide_eq_true rfl)

theorem toNat_address_advanceAddress (m : Machine) (x : Register) :
    (m.advanceAddress (x + 1)).registers.address.toNat = m.addressBehind x := by
  have hx := x.isLt
  unfold advanceAddress addressBehind
  split
  · have hadd : (m.registers.address + UInt16.ofNat (x.val + 1)).toNat =
        (m.registers.address.toNat + x.val + 1) % 65536 := by
      rw [UInt16.toNat_add, UInt16.toNat_ofNat']
      omega
    exact hadd
  · rfl

theorem addressBehind_setFirst (m : Machine) (values : List UInt8) (x : Register) :
    (m.setFirst values).addressBehind x = m.addressBehind x := by
  have haddress : (m.setFirst values).registers.address = m.registers.address := by
    simp only [setFirst]
  rw [addressBehind, addressBehind, config_setFirst, haddress]

theorem toNat_address_saveRegisters (m : Machine) (x : Register) :
    (m.saveRegisters x).registers.address.toNat = m.addressBehind x :=
  (m.writeAtAddress (m.firstRegisters x)).toNat_address_advanceAddress x

theorem toNat_address_loadRegisters (m : Machine) (x : Register) :
    (m.loadRegisters x).registers.address.toNat = m.addressBehind x := by
  rw [loadRegisters, toNat_address_advanceAddress, addressBehind_setFirst]

theorem memory_loadRegisters (m : Machine) (x : Register) :
    (m.loadRegisters x).memory = m.memory :=
  memory_perform (m := m) (i := .loadRegisters x) Instruction.noConfusion

theorem place_save {e : Exchange} (h : e.Advances) :
    (e.save.machine.execute e.save.opcode).machine.place =
      (e.source.memory.writeAll e.source.registers.address e.block,
        e.source.registers.address + UInt16.ofNat (e.x + 1)) := by
  have hexecute : e.save.machine.execute e.save.opcode = (e.source.saveRegisters e.x).done :=
    e.source.execute_save e.x
  have hadvances : (e.source.writeAtAddress e.block).config.dialect.transferAdvances = true := h.1
  rw [hexecute, machine_done, saveRegisters]
  exact place_advanceAddress hadvances (e.x + 1)

theorem place_load {e : Exchange} (h : e.Advances) :
    (e.load.machine.execute e.load.opcode).machine.place =
      (e.target.memory, e.target.registers.address + UInt16.ofNat (e.x + 1)) := by
  have hexecute : e.load.machine.execute e.load.opcode = (e.target.loadRegisters e.x).done :=
    e.target.execute_load e.x
  rw [hexecute, machine_done, loadRegisters, place_advanceAddress, place_setFirst]
  · rfl
  · rw [config_setFirst]
    exact h.2

theorem getD_firstRegisters (m : Machine) {x k : Register} (hk : k ≤ x) (value : UInt8) :
    (m.firstRegisters x).getD k value = m.get k := by
  have hle : k.val ≤ x.val := hk
  rw [firstRegisters, getD_take_succ, if_pos hle, getD_toList]
  rfl

-- A row of saves is one write of all their blocks.
theorem handsOn_saves {es : List Exchange} (hes : ∀ e ∈ es, e.Advances)
    (h : HandsOn place (memory, start) (es.map Exchange.save) last) :
    last = (memory.writeAll start (es.flatMap Exchange.block),
      start + UInt16.ofNat (Exchange.total es)) := by
  induction es generalizing memory start with
  | nil =>
    have hlast : last = (memory, start) := h
    simpa [Exchange.total, Memory.writeAll] using hlast
  | cons e rest ih =>
    rw [List.forall_mem_cons] at hes
    obtain ⟨hplace, hrest⟩ := h
    obtain ⟨hmemory, haddress⟩ : e.source.memory = memory ∧ e.source.registers.address = start :=
      Prod.mk.inj hplace
    rw [place_save hes.1, hmemory, haddress] at hrest
    rw [ih hes.2 hrest, List.flatMap_cons, Memory.writeAll_append, e.length_block,
      e.add_total_cons]

-- A row of loads reads one stretch of the memory, which it leaves as it was.
theorem handsOn_loads {es : List Exchange} (hes : ∀ e ∈ es, e.Advances)
    (h : HandsOn place (memory, start) (es.map Exchange.load) last) :
    last = (memory, start + UInt16.ofNat (Exchange.total es)) ∧
      es.flatMap Exchange.found = memory.readMany start (Exchange.total es) := by
  induction es generalizing start with
  | nil =>
    have hlast : last = (memory, start) := h
    simpa [Exchange.total, Memory.readMany] using hlast
  | cons e rest ih =>
    rw [List.forall_mem_cons] at hes
    obtain ⟨hplace, hrest⟩ := h
    obtain ⟨hmemory, haddress⟩ : e.target.memory = memory ∧ e.target.registers.address = start :=
      Prod.mk.inj hplace
    rw [place_load hes.1, hmemory, haddress] at hrest
    obtain ⟨hlast, hread⟩ := ih hes.2 hrest
    refine ⟨?_, ?_⟩
    · rw [hlast, e.add_total_cons]
    · rw [List.flatMap_cons, hread, Exchange.found, hmemory, haddress]
      exact (memory.readMany_add start (e.x.val + 1) (Exchange.total rest)).symm

-- Blocks that do not overlap are found as they were saved.
theorem found_eq_block {es : List Exchange} (hes : ∀ e ∈ es, e.Advances)
    (htotal : Exchange.total es ≤ 4096) {behind : UInt16}
    (hsaves : HandsOn place (memory, start) (es.map Exchange.save) (saved, behind))
    (hloads : HandsOn place (saved, start) (es.map Exchange.load) last) :
    ∀ e ∈ es, e.found = e.block := by
  have hsaved := (Prod.mk.inj (handsOn_saves hes hsaves)).1
  have hlength := Exchange.length_flatMap_block es
  have hflat : es.flatMap Exchange.found = es.flatMap Exchange.block := by
    rw [(handsOn_loads hes hloads).2, hsaved, ← hlength]
    exact Memory.readMany_writeAll memory start (hlength ▸ htotal)
  -- the blocks are cut in the same places
  have hcuts : ∀ e ∈ es, e.found.length = e.block.length := by
    intro e _
    rw [Exchange.length_found, Exchange.length_block]
  have hlists : es.map Exchange.found = es.map Exchange.block := by
    rw [List.eq_iff_flatten_eq, List.map_map, List.map_map]
    exact ⟨hflat, List.map_congr_left hcuts⟩
  exact List.map_inj_left.mp hlists

theorem get_execute_load (m : Machine) (x k : Register) :
    (m.execute (Opcode.ofDigits 0xF x 6 5)).machine.get k =
      if k ≤ x then m.memory.byteAt (m.registers.address.toNat + k) else m.get k := by
  rw [execute_load]
  exact m.wrapsAround.loaded x k

-- What a load finds is what its registers hold then.
theorem get_load_of_found_eq {e : Exchange} (h : e.found = e.block) {k : Register}
    (hk : k ≤ e.x) : (e.target.execute e.load.opcode).machine.get k = e.source.get k := by
  have hlt : k.val < e.x.val + 1 := Nat.lt_succ_of_le hk
  have hfound : e.found.getD k 0 =
      e.target.memory.byteAt (e.target.registers.address.toNat + k) :=
    (Memory.getD_readMany _ _ _ _ _).trans (if_pos hlt)
  calc (e.target.execute e.load.opcode).machine.get k
      = e.target.memory.byteAt (e.target.registers.address.toNat + k) :=
        (e.target.get_execute_load e.x k).trans (if_pos hk)
    _ = e.block.getD k 0 := by rw [← hfound, h]
    _ = e.source.get k := e.source.getD_firstRegisters hk 0

-- `Fx55` and `Fx65` succeed. Of the memory, V0 to VF and I they change what they move and, where
-- the dialect says so, I. What `Fx55` saved comes back from the same memory at the same I, whatever
-- else happened in between. Where I moves on, saves in a row write one block behind the other, if
-- each of them finds memory and I as the one before left them. As many loads from where the first
-- save began bring all of them back, unless more bytes were written than there are.
theorem saved_registers_come_back :
    (∀ (m : Machine) (x : Register),
      let saved := (m.execute (Opcode.ofDigits 0xF x 5 5)).machine
      (m.execute (Opcode.ofDigits 0xF x 5 5)).fault = none ∧ saved.get = m.get ∧
        (∀ n, (∀ k ≤ x.val, (m.registers.address.toNat + k) % 4096 ≠ n % 4096) →
          saved.memory.byteAt n = m.memory.byteAt n) ∧
        saved.registers.address.toNat = m.addressBehind x ∧
        ∀ target : Machine, target.memory = saved.memory →
          target.registers.address = m.registers.address →
          let loaded := target.execute (Opcode.ofDigits 0xF x 6 5)
          loaded.fault = none ∧
            (∀ k, loaded.machine.get k = if k ≤ x then m.get k else target.get k) ∧
            loaded.machine.memory = target.memory ∧
            loaded.machine.registers.address.toNat = target.addressBehind x) ∧
    ∀ (es : List Exchange) (memory saved : Memory) (start behind : UInt16) (last : Memory × UInt16),
      (∀ e ∈ es, e.Advances) →
      HandsOn place (memory, start) (es.map Exchange.save) (saved, behind) →
      saved = memory.writeAll start (es.flatMap Exchange.block) ∧
        behind = start + UInt16.ofNat (Exchange.total es) ∧
        (Exchange.total es ≤ 4096 →
          HandsOn place (saved, start) (es.map Exchange.load) last →
          ∀ e ∈ es, ∀ k ≤ e.x,
            (e.target.execute e.load.opcode).machine.get k = e.source.get k) := by
  refine ⟨?_, ?_⟩
  · intro m x saved
    have hsaved : saved = m.saveRegisters x := congrArg Outcome.machine (m.execute_save x)
    have hfootprint : m.Footprint (.saveRegisters x) saved := by
      rw [hsaved]
      exact m.footprint_perform (.saveRegisters x)
    refine ⟨by rw [execute_save, fault_done], ?_, ?_, ?_, ?_⟩
    · funext k
      exact hfootprint.registers.get k id
    · intro n hn
      refine hfootprint.memory.kept Instruction.noConfusion n fun k hk => hn k ?_
      exact Nat.le_of_lt_succ hk
    · rw [hsaved]
      exact m.toNat_address_saveRegisters x
    · intro target hmemory haddress loaded
      have hloaded : loaded = (target.loadRegisters x).done := target.execute_load x
      refine ⟨by rw [hloaded, fault_done], ?_, ?_, ?_⟩
      · intro k
        rw [target.get_execute_load, hmemory, haddress]
        split
        case isTrue hk => exact hfootprint.memory.saveRegisters x rfl k hk
        case isFalse => rfl
      · rw [hloaded]
        exact target.memory_loadRegisters x
      · rw [hloaded]
        exact target.toNat_address_loadRegisters x
  · intro es memory saved start behind last hes hsaves
    obtain ⟨hsaved, hbehind⟩ := Prod.mk.inj (handsOn_saves hes hsaves)
    refine ⟨hsaved, hbehind, fun htotal hloads e he k hk => ?_⟩
    exact get_load_of_found_eq (found_eq_block hes htotal hsaves hloads e he) hk

-- One byte is saved to the last cell of the memory and two are saved behind it. I overflows.
theorem blocks_saved_around_end :
    let first := ((new (.standard 0)).setRegister 0 5).setAddress 0xFFFF
    let second :=
      ((first.execute (Opcode.ofDigits 0xF 0 5 5)).machine.setRegister 0 7).setRegister 1 9
    let third :=
      ((second.execute (Opcode.ofDigits 0xF 1 5 5)).machine.setRegister 1 0).setAddress 0xFFFF
    let fourth := (third.execute (Opcode.ofDigits 0xF 0 6 5)).machine
    let last := (fourth.execute (Opcode.ofDigits 0xF 1 6 5)).machine
    second.registers.address.toNat = 0 ∧ fourth.get 0 = 5 ∧ last.get 0 = 7 ∧ last.get 1 = 9 := by
  intro first second third fourth last
  let single : Exchange := ⟨0, first, third⟩
  let pair : Exchange := ⟨1, second, fourth⟩
  have hadvance : ∀ e ∈ [single, pair], e.Advances := by
    rw [List.forall_mem_cons, List.forall_mem_singleton]
    exact ⟨⟨rfl, rfl⟩, rfl, rfl⟩
  have hkept : second.place = (first.execute (Opcode.ofDigits 0xF 0 5 5)).machine.place :=
    (place_setRegister _ _ _).trans (place_setRegister _ _ _)
  have hsaves : HandsOn place first.place ([single, pair].map Exchange.save)
      (second.execute (Opcode.ofDigits 0xF 1 5 5)).machine.place :=
    ⟨rfl, hkept, rfl⟩
  have hloads : HandsOn place third.place ([single, pair].map Exchange.load) last.place :=
    ⟨rfl, rfl, rfl⟩
  obtain ⟨hone, hmany⟩ := saved_registers_come_back
  obtain ⟨-, -, -, haddress, -⟩ := hone first 0
  obtain ⟨-, -, hback⟩ := hmany [single, pair] _ _ _ _ _ hadvance hsaves
  have hloaded := hback (by decide) hloads
  have hsecond := congrArg (fun place => place.2.toNat) hkept
  have hbehind : first.addressBehind 0 = 0 := by decide
  exact ⟨hsecond.trans (haddress.trans hbehind), hloaded single (.head _) 0 (Fin.zero_le _),
    hloaded pair (.tail _ (.head _)) 0 (Fin.zero_le _),
    hloaded pair (.tail _ (.head _)) 1 (Fin.le_refl _)⟩

end Machine

end Chip8
