import Mathlib.Data.Finset.Card
import Mathlib.Data.Finset.Option
import Chip8.Breakpoints

namespace Chip8.Breakpoints

inductive Edit
  | add (b : Breakpoint)
  | remove (offset : UInt16)
  | removeName (name : String)
  | clear

def apply (bs : Breakpoints) : Edit → Breakpoints
  | .add b => bs.add b
  | .remove offset => (bs.remove offset).2
  | .removeName name => (bs.removeName name).2
  | .clear => empty

def run (bs : Breakpoints) (edits : List Edit) : Breakpoints := edits.foldl apply bs

-- The name or the address of a breakpoint is that of another one.
def Taken (pairs : Finset Breakpoint) (b : Breakpoint) : Prop :=
  ∃ c ∈ pairs, c.offset = b.offset ∨ c.name = b.name

instance (pairs : Finset Breakpoint) (b : Breakpoint) : Decidable (Taken pairs b) :=
  inferInstanceAs (Decidable (∃ c ∈ pairs, c.offset = b.offset ∨ c.name = b.name))

-- What an edit makes of the set of pairs.
def Edit.applyPairs (pairs : Finset Breakpoint) : Edit → Finset Breakpoint
  | .add b => if Taken pairs b then pairs else insert b pairs
  | .remove offset => pairs.filter (·.offset ≠ offset)
  | .removeName name => pairs.filter (·.name ≠ name)
  | .clear => ∅

-- Each map finds what the other one leads back from.
structure Inverse (bs : Breakpoints) : Prop where
  of_find? : ∀ offset b, bs.find? offset = some b →
    b.offset = offset ∧ bs.findName? b.name = some b
  of_findName? : ∀ name b, bs.findName? name = some b →
    b.name = name ∧ bs.find? b.offset = some b
  byName_iff : ∀ name offset, bs.byName[name]? = some offset ↔
    ∃ b : Breakpoint, bs.byOffset[offset]? = some b ∧ b.name = name

-- All questions are answered as the set of pairs has it, and no two pairs share anything.
structure Answers (bs : Breakpoints) (pairs : Finset Breakpoint) : Prop where
  find?_iff : ∀ offset b, bs.find? offset = some b ↔ b ∈ pairs ∧ b.offset = offset
  findName?_iff : ∀ name b, bs.findName? name = some b ↔ b ∈ pairs ∧ b.name = name
  has_iff : ∀ offset, bs.has offset = true ↔ ∃ b ∈ pairs, b.offset = offset
  hasName_iff : ∀ name, bs.hasName name = true ↔ ∃ b ∈ pairs, b.name = name
  mem_entries_iff : ∀ b, b ∈ bs.entries ↔ b ∈ pairs
  nodup_offsets : (bs.entries.map (·.offset)).Nodup
  nodup_names : (bs.entries.map (·.name)).Nodup
  size_eq : bs.size = pairs.card
  isEmpty_iff : bs.isEmpty = true ↔ pairs = ∅

-- What the two maps hold, given the pairs. Every edit keeps this.
structure Holds (bs : Breakpoints) (pairs : Finset Breakpoint) : Prop where
  byOffset_iff : ∀ offset b, bs.byOffset[offset]? = some b ↔ b ∈ pairs ∧ b.offset = offset
  byName_iff : ∀ name offset, bs.byName[name]? = some offset ↔
    ∃ b ∈ pairs, b.name = name ∧ b.offset = offset

variable {bs : Breakpoints} {pairs : Finset Breakpoint} {b c : Breakpoint}

namespace Holds

theorem eq_of_offset_eq (h : bs.Holds pairs) (hb : b ∈ pairs) (hc : c ∈ pairs)
    (hoffset : b.offset = c.offset) : b = c := by
  have hfirst := (h.byOffset_iff c.offset b).mpr ⟨hb, hoffset⟩
  have hsecond := (h.byOffset_iff c.offset c).mpr ⟨hc, rfl⟩
  exact Option.some.inj (hfirst.symm.trans hsecond)

-- A name leads to one address, and that to one pair.
theorem eq_of_name_eq (h : bs.Holds pairs) (hb : b ∈ pairs) (hc : c ∈ pairs)
    (hname : b.name = c.name) : b = c := by
  have hfirst := (h.byName_iff c.name b.offset).mpr ⟨b, hb, hname, rfl⟩
  have hsecond := (h.byName_iff c.name c.offset).mpr ⟨c, hc, rfl, rfl⟩
  exact h.eq_of_offset_eq hb hc (Option.some.inj (hfirst.symm.trans hsecond))

theorem has_iff (h : bs.Holds pairs) (offset : UInt16) :
    bs.has offset = true ↔ ∃ b ∈ pairs, b.offset = offset := by
  rw [has_eq_isSome, Option.isSome_iff_exists]
  exact exists_congr (h.byOffset_iff offset)

theorem hasName_iff (h : bs.Holds pairs) (name : String) :
    bs.hasName name = true ↔ ∃ b ∈ pairs, b.name = name := by
  rw [hasName, Std.ExtTreeMap.contains_eq_isSome_getElem?, Option.isSome_iff_exists]
  constructor
  · rintro ⟨offset, hoffset⟩
    obtain ⟨b, hb, hname, -⟩ := (h.byName_iff name offset).mp hoffset
    exact ⟨b, hb, hname⟩
  · rintro ⟨b, hb, hname⟩
    exact ⟨b.offset, (h.byName_iff name b.offset).mpr ⟨b, hb, hname, rfl⟩⟩

theorem findName?_iff (h : bs.Holds pairs) (name : String) (b : Breakpoint) :
    bs.findName? name = some b ↔ b ∈ pairs ∧ b.name = name := by
  rw [findName?, Option.bind_eq_some_iff]
  constructor
  · rintro ⟨offset, hoffset, hfound⟩
    obtain ⟨c, hc, hname, rfl⟩ := (h.byName_iff name offset).mp hoffset
    obtain ⟨hb, heq⟩ := (h.byOffset_iff c.offset b).mp hfound
    obtain rfl := h.eq_of_offset_eq hb hc heq
    exact ⟨hb, hname⟩
  · rintro ⟨hb, hname⟩
    exact ⟨b.offset, (h.byName_iff name b.offset).mpr ⟨b, hb, hname, rfl⟩,
      (h.byOffset_iff b.offset b).mpr ⟨hb, rfl⟩⟩

theorem mem_toList_iff (h : bs.Holds pairs) (offset : UInt16) (b : Breakpoint) :
    (offset, b) ∈ bs.byOffset.toList ↔ b ∈ pairs ∧ b.offset = offset := by
  rw [Std.ExtTreeMap.mem_toList_iff_getElem?_eq_some]
  exact h.byOffset_iff offset b

theorem mem_entries_iff (h : bs.Holds pairs) (b : Breakpoint) :
    b ∈ bs.entries ↔ b ∈ pairs := by
  rw [entries, List.mem_map]
  constructor
  · rintro ⟨⟨offset, c⟩, hc, rfl⟩
    exact ((h.mem_toList_iff offset c).mp hc).1
  · intro hb
    exact ⟨(b.offset, b), (h.mem_toList_iff b.offset b).mpr ⟨hb, rfl⟩, rfl⟩

-- The addresses of the breakpoints are the keys that they are kept under.
theorem map_offset_entries (h : bs.Holds pairs) :
    bs.entries.map (·.offset) = bs.byOffset.keys := by
  rw [entries, List.map_map, ← Std.ExtTreeMap.map_fst_toList_eq_keys]
  refine List.map_congr_left fun pair hpair => ?_
  exact ((h.mem_toList_iff pair.1 pair.2).mp hpair).2

theorem nodup_offsets (h : bs.Holds pairs) : (bs.entries.map (·.offset)).Nodup := by
  rw [h.map_offset_entries]
  exact Std.ExtTreeMap.nodup_keys

theorem nodup_names (h : bs.Holds pairs) : (bs.entries.map (·.name)).Nodup := by
  refine List.Nodup.map_on (fun b hb c hc hname => ?_) (h.nodup_offsets.of_map _)
  rw [h.mem_entries_iff] at hb hc
  exact h.eq_of_name_eq hb hc hname

theorem size_eq (h : bs.Holds pairs) : bs.size = pairs.card := by
  have hset : bs.entries.toFinset = pairs := by
    ext b
    rw [List.mem_toFinset, h.mem_entries_iff]
  have hlength : bs.entries.length = bs.size := by
    rw [entries, List.length_map, Std.ExtTreeMap.length_toList, size]
  rw [← hset, List.toFinset_card_of_nodup (h.nodup_offsets.of_map _), hlength]

theorem isEmpty_iff (h : bs.Holds pairs) : bs.isEmpty = true ↔ pairs = ∅ := by
  rw [isEmpty, Std.ExtTreeMap.isEmpty_iff, Std.ExtTreeMap.eq_empty_iff_size_eq_zero, ← size,
    h.size_eq, Finset.card_eq_zero]

theorem answers (h : bs.Holds pairs) : bs.Answers pairs where
  find?_iff := h.byOffset_iff
  findName?_iff := h.findName?_iff
  has_iff := h.has_iff
  hasName_iff := h.hasName_iff
  mem_entries_iff := h.mem_entries_iff
  nodup_offsets := h.nodup_offsets
  nodup_names := h.nodup_names
  size_eq := h.size_eq
  isEmpty_iff := h.isEmpty_iff

theorem inverse (h : bs.Holds pairs) : bs.Inverse where
  of_find? offset b hb := by
    obtain ⟨hmem, hoffset⟩ := (h.byOffset_iff offset b).mp hb
    exact ⟨hoffset, (h.findName?_iff b.name b).mpr ⟨hmem, rfl⟩⟩
  of_findName? name b hb := by
    obtain ⟨hmem, hname⟩ := (h.findName?_iff name b).mp hb
    exact ⟨hname, (h.byOffset_iff b.offset b).mpr ⟨hmem, rfl⟩⟩
  byName_iff name offset := by
    rw [h.byName_iff]
    refine exists_congr fun b => ?_
    rw [h.byOffset_iff, and_assoc, and_comm (a := b.name = name)]

theorem empty : Breakpoints.empty.Holds ∅ where
  byOffset_iff offset b := by simp [Breakpoints.empty]
  byName_iff name offset := by simp [Breakpoints.empty]

theorem taken_iff (h : bs.Holds pairs) (b : Breakpoint) :
    (bs.has b.offset || bs.hasName b.name) = true ↔ Taken pairs b := by
  rw [Bool.or_eq_true, h.has_iff, h.hasName_iff, Taken]
  simp only [and_or_left, exists_or]

theorem add (h : bs.Holds pairs) (b : Breakpoint) :
    (bs.add b).Holds (if Taken pairs b then pairs else insert b pairs) := by
  unfold Breakpoints.add
  by_cases htaken : Taken pairs b
  · rwa [if_pos ((h.taken_iff b).mpr htaken), if_pos htaken]
  rw [if_neg (mt (h.taken_iff b).mp htaken), if_neg htaken]
  have hfree (c : Breakpoint) (hc : c ∈ pairs) : b.offset ≠ c.offset ∧ b.name ≠ c.name :=
    ⟨fun heq => htaken ⟨c, hc, .inl heq.symm⟩, fun heq => htaken ⟨c, hc, .inr heq.symm⟩⟩
  constructor
  · intro offset c
    simp only [Std.ExtTreeMap.getElem?_insert, Std.compare_eq_iff_eq, Finset.mem_insert]
    by_cases hoffset : b.offset = offset
    · subst hoffset
      rw [if_pos rfl, Option.some.injEq]
      constructor
      · rintro rfl
        exact ⟨.inl rfl, rfl⟩
      · rintro ⟨rfl | hc, heq⟩
        · rfl
        · exact absurd heq.symm (hfree c hc).1
    · rw [if_neg hoffset, h.byOffset_iff]
      constructor
      · exact fun hc => ⟨.inr hc.1, hc.2⟩
      · rintro ⟨rfl | hc, heq⟩
        · exact absurd heq hoffset
        · exact ⟨hc, heq⟩
  · intro name offset
    simp only [Std.ExtTreeMap.getElem?_insert, Std.compare_eq_iff_eq]
    by_cases hname : b.name = name
    · subst hname
      rw [if_pos rfl, Option.some.injEq]
      constructor
      · rintro rfl
        exact ⟨b, Finset.mem_insert_self b pairs, rfl, rfl⟩
      · rintro ⟨c, hc, heq, rfl⟩
        rcases Finset.mem_insert.mp hc with rfl | hc
        · rfl
        · exact absurd heq.symm (hfree c hc).2
    · rw [if_neg hname, h.byName_iff]
      constructor
      · rintro ⟨c, hc, heq⟩
        exact ⟨c, Finset.mem_insert_of_mem hc, heq⟩
      · rintro ⟨c, hc, heq⟩
        rcases Finset.mem_insert.mp hc with rfl | hc
        · exact absurd heq.1 hname
        · exact ⟨c, hc, heq⟩

-- Both maps lose a pair at the same time.
theorem erase (h : bs.Holds pairs) (hb : b ∈ pairs) :
    Holds ⟨bs.byOffset.erase b.offset, bs.byName.erase b.name⟩ (pairs.erase b) where
  byOffset_iff offset c := by
    simp only [Std.ExtTreeMap.getElem?_erase, Std.compare_eq_iff_eq, Finset.mem_erase]
    by_cases hoffset : b.offset = offset
    · rw [if_pos hoffset]
      constructor
      · exact fun hc => nomatch hc
      · rintro ⟨⟨hne, hc⟩, heq⟩
        exact absurd (h.eq_of_offset_eq hc hb (heq.trans hoffset.symm)) hne
    · rw [if_neg hoffset, h.byOffset_iff]
      constructor
      · rintro ⟨hc, rfl⟩
        exact ⟨⟨fun heq => hoffset (heq ▸ rfl), hc⟩, rfl⟩
      · rintro ⟨⟨-, hc⟩, heq⟩
        exact ⟨hc, heq⟩
  byName_iff name offset := by
    simp only [Std.ExtTreeMap.getElem?_erase, Std.compare_eq_iff_eq]
    by_cases hname : b.name = name
    · rw [if_pos hname]
      constructor
      · exact fun hc => nomatch hc
      · rintro ⟨c, hc, heq, -⟩
        obtain ⟨hne, hc⟩ := Finset.mem_erase.mp hc
        exact absurd (h.eq_of_name_eq hc hb (heq.trans hname.symm)) hne
    · rw [if_neg hname, h.byName_iff]
      constructor
      · rintro ⟨c, hc, heq⟩
        exact ⟨c, Finset.mem_erase.mpr ⟨fun hcb => hname (hcb ▸ heq.1), hc⟩, heq⟩
      · rintro ⟨c, hc, heq⟩
        exact ⟨c, Finset.mem_of_mem_erase hc, heq⟩

theorem filter_offset_ne (h : bs.Holds pairs) (hb : b ∈ pairs) :
    pairs.filter (·.offset ≠ b.offset) = pairs.erase b := by
  ext c
  rw [Finset.mem_filter, Finset.mem_erase, and_comm]
  refine and_congr_left fun hc => not_congr ⟨fun heq => h.eq_of_offset_eq hc hb heq, ?_⟩
  exact congrArg Breakpoint.offset

theorem filter_name_ne (h : bs.Holds pairs) (hb : b ∈ pairs) :
    pairs.filter (·.name ≠ b.name) = pairs.erase b := by
  ext c
  rw [Finset.mem_filter, Finset.mem_erase, and_comm]
  refine and_congr_left fun hc => not_congr ⟨fun heq => h.eq_of_name_eq hc hb heq, ?_⟩
  exact congrArg Breakpoint.name

theorem remove (h : bs.Holds pairs) (offset : UInt16) :
    (bs.remove offset).2.Holds (pairs.filter (·.offset ≠ offset)) := by
  unfold Breakpoints.remove
  cases hfound : bs.byOffset[offset]? with
  | none =>
    have hother : ∀ b ∈ pairs, b.offset ≠ offset := by
      intro b hb heq
      rw [(h.byOffset_iff offset b).mpr ⟨hb, heq⟩] at hfound
      cases hfound
    rwa [Finset.filter_true_of_mem hother]
  | some b =>
    obtain ⟨hb, rfl⟩ := (h.byOffset_iff offset b).mp hfound
    rw [h.filter_offset_ne hb]
    exact h.erase hb

theorem removeName (h : bs.Holds pairs) (name : String) :
    (bs.removeName name).2.Holds (pairs.filter (·.name ≠ name)) := by
  unfold Breakpoints.removeName
  cases hfound : bs.byName[name]? with
  | none =>
    have hother : ∀ b ∈ pairs, b.name ≠ name := by
      intro b hb heq
      rw [(h.byName_iff name b.offset).mpr ⟨b, hb, heq, rfl⟩] at hfound
      cases hfound
    rwa [Finset.filter_true_of_mem hother]
  | some offset =>
    obtain ⟨b, hb, rfl, rfl⟩ := (h.byName_iff name offset).mp hfound
    rw [h.filter_name_ne hb]
    exact h.erase hb

theorem apply (h : bs.Holds pairs) (edit : Edit) :
    (bs.apply edit).Holds (edit.applyPairs pairs) := by
  cases edit with
  | add b => exact h.add b
  | remove offset => exact h.remove offset
  | removeName name => exact h.removeName name
  | clear => exact .empty

theorem run (h : bs.Holds pairs) (edits : List Edit) :
    (bs.run edits).Holds (edits.foldl Edit.applyPairs pairs) := by
  induction edits generalizing bs pairs with
  | nil => exact h
  | cons edit edits ih => exact ih (h.apply edit)

-- What is removed is all that leaves the set.
theorem filter_offset_ne_eq_sdiff (h : bs.Holds pairs) (offset : UInt16) :
    pairs.filter (·.offset ≠ offset) = pairs \ (bs.remove offset).1.toFinset := by
  ext b
  rw [Finset.mem_filter, Finset.mem_sdiff, Option.mem_toFinset, fst_remove]
  refine and_congr_right fun hb => not_congr ?_
  exact ((h.byOffset_iff offset b).trans (and_iff_right hb)).symm

theorem filter_name_ne_eq_sdiff (h : bs.Holds pairs) (name : String) :
    pairs.filter (·.name ≠ name) = pairs \ (bs.removeName name).1.toFinset := by
  ext b
  rw [Finset.mem_filter, Finset.mem_sdiff, Option.mem_toFinset, fst_removeName]
  refine and_congr_right fun hb => not_congr ?_
  exact ((h.findName?_iff name b).trans (and_iff_right hb)).symm

theorem add_eq_self_iff (h : bs.Holds pairs) (b : Breakpoint) :
    bs.add b = bs ↔ Taken pairs b := by
  constructor
  · intro heq
    have hadd := h.add b
    rw [heq] at hadd
    by_contra htaken
    rw [if_neg htaken] at hadd
    have hb : b ∈ pairs := by
      rw [← h.mem_entries_iff, hadd.mem_entries_iff]
      exact Finset.mem_insert_self b pairs
    exact htaken ⟨b, hb, .inl rfl⟩
  · intro htaken
    rw [Breakpoints.add, if_pos ((h.taken_iff b).mpr htaken)]

end Holds

-- After any edits of none the two maps are inverse and answer as the pairs do that the edits
-- make. What can be added is what shares nothing with a pair, and a removal takes the one pair
-- that it returns.
theorem inverse_and_answers_of_run_empty (edits : List Edit) :
    let bs := empty.run edits
    let pairs := edits.foldl Edit.applyPairs ∅
    bs.Inverse ∧ bs.Answers pairs ∧
      (∀ b, bs.add b = bs ↔ Taken pairs b) ∧
      (∀ b, ¬Taken pairs b → (bs.add b).Answers (insert b pairs)) ∧
      (∀ offset, (bs.remove offset).1 = bs.find? offset ∧
        (bs.remove offset).2.Answers (pairs \ (bs.remove offset).1.toFinset)) ∧
      ∀ name, (bs.removeName name).1 = bs.findName? name ∧
        (bs.removeName name).2.Answers (pairs \ (bs.removeName name).1.toFinset) := by
  intro bs pairs
  have h : bs.Holds pairs := Holds.empty.run edits
  refine ⟨h.inverse, h.answers, h.add_eq_self_iff, fun b htaken => ?_, fun offset => ?_,
    fun name => ?_⟩
  · have hadd := h.add b
    rw [if_neg htaken] at hadd
    exact hadd.answers
  · rw [← h.filter_offset_ne_eq_sdiff]
    exact ⟨bs.fst_remove offset, (h.remove offset).answers⟩
  · rw [← h.filter_name_ne_eq_sdiff]
    exact ⟨bs.fst_removeName name, (h.removeName name).answers⟩

-- A name that was removed is free for another address.
example :
    let bs := empty.run
      [.add ⟨"loop", 0x200⟩, .add ⟨"loop", 0x210⟩, .remove 0x200, .add ⟨"loop", 0x204⟩]
    bs.findName? "loop" = some ⟨"loop", 0x204⟩ ∧ bs.has 0x200 = false ∧ bs.size = 1 := by decide

end Chip8.Breakpoints
