import Mathlib.Data.List.Basic
import Chip8.Display.Lemmas
import Chip8.Display.Operation

namespace Chip8.Display

-- Nothing of the picture lies outside the display.
structure Cropped (d : Display) : Prop where
  length_rows : d.rows.length = d.height
  lit_lt : ∀ row ∈ d.rows, ∀ x, row.lit x = true → x < d.width
  contains_of_fading : ∀ p ∈ d.fading, d.contains p = true
  pending_lt : ∀ y ∈ d.pending, y < d.height

-- A row is recorded as waiting where some of its columns are.
structure Tracked (d : Display) : Prop where
  mem_pending_iff : ∀ y, y ∈ d.pending ↔
    ∃ row, d.rows[y]? = some row ∧ row.dirty.isEmpty = false
  past_le : ∀ row ∈ d.rows, row.dirty.past ≤ d.width

structure WellFormed (d : Display) : Prop extends Cropped d, Tracked d where
  fading_eq_empty : d.settings.graphics.fade = false → d.fading = ∅
  isChanged_iff : d.isChanged = true ↔ ∃ y, y ∈ d.pending

variable {d : Display}

theorem Cropped.lt_length_of_contains (h : d.Cropped) {p : Point} (hp : d.contains p = true) :
    p.y < d.rows.length := by
  rw [h.length_rows]
  exact ((d.contains_iff p).mp hp).2

theorem Cropped.lit_eq_any (h : d.Cropped) (p : Point) :
    d.lit p = d.rows[p.y]?.any (·.lit p.x) := by
  rw [lit, Bool.and_eq_right_iff_imp, Option.any_eq_true]
  rintro ⟨row, hrow, hx⟩
  have hy := (List.getElem?_eq_some_iff.mp hrow).1
  exact (d.contains_iff p).mpr
    ⟨h.lit_lt row (List.mem_of_getElem? hrow) p.x hx, h.length_rows ▸ hy⟩

theorem mem_pending_touchAll_iff (hlen : d.rows.length = d.height)
    (hpending : ∀ y ∈ d.pending, y < d.height) (y : Nat) :
    y ∈ d.touchAll.pending ↔ y < d.height := by
  simp only [Display.touchAll, Std.ExtTreeSet.mem_insertMany_list, List.contains_iff_mem,
    List.mem_range, hlen]
  exact ⟨fun hy => hy.elim (hpending y) id, Or.inr⟩

-- Once every pixel waits, the records agree whatever they said before.
theorem Cropped.touchAll (h : d.Cropped)
    (hf : d.settings.graphics.fade = false → d.fading = ∅) : d.touchAll.WellFormed := by
  have hpos : 0 < d.height := d.resolution.height_pos
  have hpend := mem_pending_touchAll_iff h.length_rows h.pending_lt
  refine ⟨⟨?_, ?_, h.contains_of_fading, fun y hy => (hpend y).mp hy⟩, ⟨?_, ?_⟩, hf, ?_⟩
  · rw [length_rows_touchAll]
    exact h.length_rows
  · intro row hrow x hx
    obtain ⟨old, hold, rfl⟩ := List.mem_map.mp hrow
    exact h.lit_lt old hold x hx
  · intro y
    have hne (row : Row) : (row.touchAll d.width).dirty.isEmpty = false :=
      (Span.isEmpty_eq_false_iff _).mpr d.resolution.width_pos
    rw [hpend, ← h.length_rows]
    simp only [Display.touchAll, List.getElem?_map, Option.map_eq_some_iff]
    constructor
    · intro hy
      exact ⟨_, ⟨_, List.getElem?_eq_getElem hy, rfl⟩, hne _⟩
    · rintro ⟨_, ⟨row, hrow, rfl⟩, -⟩
      exact (List.getElem?_eq_some_iff.mp hrow).1
  · intro row hrow
    obtain ⟨old, -, rfl⟩ := List.mem_map.mp hrow
    exact Nat.le_refl d.width
  · exact ⟨fun _ => ⟨0, (hpend 0).mpr hpos⟩, fun _ => rfl⟩

-- Touching one pixel or many.

theorem mem_pending_touch (d : Display) (p : Point) (y : Nat) :
    y ∈ (d.touch p).pending ↔ p.y = y ∨ y ∈ d.pending := by
  simp [touch, Std.ExtTreeSet.mem_insert]

theorem getElem?_rows_touch (d : Display) (p : Point) (y : Nat) :
    (d.touch p).rows[y]? = d.rows[y]?.map fun row => if p.y = y then row.touch p.x else row := by
  simp only [touch, List.getElem?_modify]
  split <;> simp

theorem Cropped.touch (h : d.Cropped) {p : Point} (hp : d.contains p = true) :
    (d.touch p).Cropped := by
  refine ⟨?_, ?_, h.contains_of_fading, ?_⟩
  · rw [length_rows_eq_of_pixels (d.pixels_touch p)]
    exact h.length_rows
  · intro row hrow x hx
    obtain ⟨y, hy⟩ := List.getElem?_of_mem hrow
    rw [getElem?_rows_touch, Option.map_eq_some_iff] at hy
    obtain ⟨old, hold, rfl⟩ := hy
    apply h.lit_lt old (List.mem_of_getElem? hold) x
    split at hx <;> exact hx
  · intro y hy
    rcases (d.mem_pending_touch p y).mp hy with rfl | hy
    · exact ((d.contains_iff p).mp hp).2
    · exact h.pending_lt y hy

theorem Tracked.touch (h : d.Tracked) (hlen : d.rows.length = d.height) {p : Point}
    (hp : d.contains p = true) : (d.touch p).Tracked := by
  have hin := (d.contains_iff p).mp hp
  constructor
  · intro y
    simp only [mem_pending_touch, getElem?_rows_touch, Option.map_eq_some_iff]
    by_cases hy : p.y = y
    · subst hy
      have hrow := List.getElem?_eq_getElem (show p.y < d.rows.length by omega)
      simp only [true_or, if_true, true_iff]
      exact ⟨_, ⟨_, hrow, rfl⟩, Span.isEmpty_expand _ _⟩
    · simp [hy, h.mem_pending_iff]
  · intro row hrow
    obtain ⟨y, hy⟩ := List.getElem?_of_mem hrow
    rw [getElem?_rows_touch, Option.map_eq_some_iff] at hy
    obtain ⟨old, hold, rfl⟩ := hy
    have hle := h.past_le old (List.mem_of_getElem? hold)
    split
    · exact Span.past_expand_le hle hin.1
    · exact hle

theorem foldl_touch_cropped_tracked (ps : List Point) {d : Display} (h : d.Cropped)
    (ht : d.Tracked) (hps : ∀ p ∈ ps, d.contains p = true) :
    (ps.foldl touch d).Cropped ∧ (ps.foldl touch d).Tracked := by
  induction ps generalizing d with
  | nil => exact ⟨h, ht⟩
  | cons p ps ih =>
    have hp := hps p List.mem_cons_self
    exact ih (h.touch hp) (ht.touch h.length_rows hp)
      (fun q hq => hps q (List.mem_cons_of_mem p hq))

theorem mem_pending_foldl_touch (ps : List Point) (d : Display) (y : Nat) :
    y ∈ (ps.foldl touch d).pending ↔ (∃ p ∈ ps, p.y = y) ∨ y ∈ d.pending := by
  induction ps generalizing d with
  | nil => simp
  | cons p ps ih =>
    simp only [List.foldl_cons, ih, mem_pending_touch, List.mem_cons, exists_eq_or_imp]
    rw [or_assoc, or_left_comm]

-- The records say nothing about which columns are lit.
theorem Tracked.congr {d' : Display} (h : d.Tracked) (hr : d'.resolution = d.resolution)
    (hp : d'.pending = d.pending) (hs : d'.rows.map (·.dirty) = d.rows.map (·.dirty)) :
    d'.Tracked := by
  have hrow (y : Nat) : (∃ row, d'.rows[y]? = some row ∧ row.dirty.isEmpty = false) ↔
      ∃ row, d.rows[y]? = some row ∧ row.dirty.isEmpty = false := by
    have hy := congrArg (·[y]?) hs
    simp only [List.getElem?_map] at hy
    cases h' : d'.rows[y]? <;> cases h'' : d.rows[y]? <;> simp_all
  constructor
  · intro y
    rw [hp, h.mem_pending_iff, hrow]
  · intro row hmem
    have hd : row.dirty ∈ d.rows.map (·.dirty) := hs ▸ List.mem_map_of_mem hmem
    obtain ⟨old, hold, he⟩ := List.mem_map.mp hd
    simpa only [← he, width, hr] using h.past_le old hold

theorem map_dirty_modify_set (rows : List Row) (y x : Nat) (on : Bool) :
    (rows.modify y (Row.set x on)).map (·.dirty) = rows.map (·.dirty) := by
  apply List.ext_getElem?
  intro k
  simp only [List.getElem?_map, List.getElem?_modify]
  cases rows[k]? with
  | none => rfl
  | some row =>
    simp only [Option.map_eq_map, Option.map_some]
    split
    · rw [Row.dirty_set]
    · rfl

theorem WellFormed.setPixel (h : d.WellFormed) (p : Point) (on : Bool) :
    (d.setPixel p on).WellFormed := by
  by_cases hp : d.contains p = true
  case neg => rwa [Display.setPixel, if_neg hp]
  case pos =>
    have hin := (d.contains_iff p).mp hp
    have hx : p.x < 128 := Nat.lt_of_lt_of_le hin.1 d.resolution.width_le
    have hc := h.toCropped.touch hp
    have ht := h.toTracked.touch h.length_rows hp
    rw [Display.setPixel, if_pos hp]
    refine ⟨⟨?_, ?_, ?_, hc.pending_lt⟩, ht.congr rfl rfl ?_, ?_, ?_⟩
    · exact (List.length_modify _ _ _).trans hc.length_rows
    · intro row hrow x hlit
      obtain ⟨y, hy⟩ := List.getElem?_of_mem hrow
      simp only [List.getElem?_modify, Option.map_eq_map, Option.map_eq_some_iff] at hy
      obtain ⟨old, hold, rfl⟩ := hy
      split at hlit
      · rw [Row.lit_set _ _ _ hx] at hlit
        by_cases hxp : x = p.x
        · exact hxp ▸ hin.1
        · rw [if_neg hxp] at hlit
          exact hc.lit_lt old (List.mem_of_getElem? hold) x hlit
      · exact hc.lit_lt old (List.mem_of_getElem? hold) x hlit
    · intro q hq
      apply h.contains_of_fading q
      cases on with
      | false => exact hq
      | true => exact Std.ExtTreeMap.mem_of_mem_erase hq
    · exact map_dirty_modify_set _ p.y p.x on
    · intro hf
      have he : (d.touch p).fading = ∅ := h.fading_eq_empty hf
      cases on with
      | false => exact he
      | true => simp [he]
    · exact ⟨fun _ => ⟨p.y, (d.mem_pending_touch p p.y).mpr (.inl rfl)⟩, fun _ => rfl⟩

theorem WellFormed.draw (h : d.WellFormed) (s : Sprite) : (d.draw s).1.WellFormed :=
  List.foldlRecOn (motive := fun drawn => drawn.1.WellFormed) _ toggle h
    (fun _ hd p _ => hd.setPixel p _)

theorem mem_litPoints {p : Point} (hp : p ∈ d.litPoints) :
    ∃ row, d.rows[p.y]? = some row ∧ row.lit p.x = true := by
  simp only [litPoints, List.mem_flatMap, List.mem_map, List.mem_filter, Prod.exists] at hp
  obtain ⟨row, y, hrow, x, ⟨-, hx⟩, rfl⟩ := hp
  exact ⟨row, List.mem_zipIdx_iff_getElem?.mp hrow, hx⟩

theorem Cropped.contains_of_mem_litPoints (h : d.Cropped) {p : Point} (hp : p ∈ d.litPoints) :
    d.contains p = true := by
  obtain ⟨row, hrow, hx⟩ := mem_litPoints hp
  have hlt := (List.getElem?_eq_some_iff.mp hrow).1
  rw [h.length_rows] at hlt
  exact (d.contains_iff p).mpr ⟨h.lit_lt row (List.mem_of_getElem? hrow) p.x hx, hlt⟩

theorem mem_foldl_insert {glow : Std.ExtTreeMap Point Color Point.order} {color : Color}
    {ps : List Point} {q : Point} (hq : q ∈ ps.foldl (·.insert · color) glow) :
    q ∈ ps ∨ q ∈ glow := by
  induction ps generalizing glow with
  | nil => exact .inr hq
  | cons p ps ih =>
    rcases ih hq with hmem | hmem
    · exact .inl (List.mem_cons_of_mem p hmem)
    · rcases Std.ExtTreeMap.mem_insert.mp hmem with heq | hmem
      · exact .inl (by simp [(Point.order_eq_iff p q).mp heq])
      · exact .inr hmem

theorem WellFormed.clear (h : d.WellFormed) : d.clear.WellFormed := by
  apply Cropped.touchAll
  · refine ⟨(List.length_map _).trans h.length_rows, ?_, ?_, h.pending_lt⟩
    · intro row hrow x hx
      obtain ⟨old, -, rfl⟩ := List.mem_map.mp hrow
      simp [Row.lit_clear] at hx
    · intro p hp
      simp only at hp
      split at hp
      · exact (mem_foldl_insert hp).elim h.contains_of_mem_litPoints (h.contains_of_fading p)
      · exact h.contains_of_fading p hp
  · intro hf
    have hoff : d.settings.graphics.fade = false := hf
    simpa [hoff] using h.fading_eq_empty hoff

theorem WellFormed.scroll (h : d.WellFormed) (direction : Direction) (n : Nat) :
    (d.scroll direction n).WellFormed := by
  unfold Display.scroll
  refine Cropped.touchAll ⟨?_, ?_, h.contains_of_fading, h.pending_lt⟩ h.fading_eq_empty
  · have hlen : d.rows.length = d.height := h.length_rows
    cases direction <;> simp only [length_lower, List.length_map] <;> exact hlen
  · intro row hrow x hx
    cases direction with
    | down =>
      rcases List.mem_append.mp hrow with hmem | hmem
      · obtain ⟨old, -, rfl⟩ := List.mem_map.mp hmem
        simp [Row.lit_clear] at hx
      · exact h.lit_lt row (List.mem_of_mem_take hmem) x hx
    | right =>
      obtain ⟨old, -, rfl⟩ := List.mem_map.mp hrow
      rw [Row.lit_shiftRight old d.width d.resolution.width_le, Bool.and_eq_true,
        decide_eq_true_eq] at hx
      exact hx.1.1
    | left =>
      obtain ⟨old, hold, rfl⟩ := List.mem_map.mp hrow
      rw [Row.lit_shiftLeft] at hx
      exact Nat.lt_of_le_of_lt (Nat.le_add_right x _) (h.lit_lt old hold _ hx)

-- A new resolution crops whatever there was.
theorem wellFormed_setResolution (hf : d.settings.graphics.fade = false → d.fading = ∅)
    (resolution : Resolution) : (d.setResolution resolution).WellFormed := by
  apply Cropped.touchAll
  · refine ⟨?_, ?_, ?_, ?_⟩
    · simp only [List.length_map, List.length_append, List.length_take, List.length_replicate]
      exact Nat.add_sub_of_le (Nat.min_le_left _ _)
    · intro row hrow x hx
      obtain ⟨old, -, rfl⟩ := List.mem_map.mp hrow
      rw [Row.lit_crop _ _ resolution.width_le, Bool.and_eq_true, decide_eq_true_eq] at hx
      exact hx.1
    · intro p hp
      obtain ⟨_, hin⟩ := Std.ExtTreeMap.mem_filter.mp hp
      have hxy : p.x < resolution.width ∧ p.y < resolution.height := by simpa using hin
      exact (contains_iff _ p).mpr hxy
    · intro y hy
      obtain ⟨_, hlt⟩ := Std.ExtTreeSet.mem_filter.mp hy
      have hy : y < resolution.height := by simpa using hlt
      exact hy
  · intro hoff
    simp [hf hoff, Std.ExtTreeMap.filter_eq_empty_iff]

theorem wellFormed_new (settings : Settings) : (new settings).WellFormed :=
  wellFormed_setResolution (fun _ => rfl) .low

theorem WellFormed.animate (h : d.WellFormed) : d.animate.WellFormed := by
  unfold Display.animate
  split
  case isFalse => exact h
  case isTrue hfading =>
    have hkeys : ∀ p ∈ d.fading.keys, d.contains p = true := fun p hp =>
      h.contains_of_fading p (Std.ExtTreeMap.mem_keys.mp hp)
    obtain ⟨hc, ht⟩ := foldl_touch_cropped_tracked d.fading.keys h.toCropped h.toTracked hkeys
    obtain ⟨-, hres, hset, -⟩ := foldl_touch_fields d.fading.keys d
    refine ⟨⟨hc.length_rows, hc.lit_lt, ?_, hc.pending_lt⟩, ⟨ht.mem_pending_iff, ht.past_le⟩,
      ?_, ?_⟩
    · intro p hp
      have hold := h.contains_of_fading p (Std.ExtTreeMap.mem_of_mem_filterMap hp)
      rwa [← contains_congr hres] at hold
    · intro hoff
      have he := h.fading_eq_empty (hset ▸ hoff)
      simp [he, Std.ExtTreeMap.filterMap_eq_empty_iff]
    · have hne : d.fading.keys ≠ [] := by
        simpa [isFading, ← Std.ExtTreeMap.isEmpty_keys] using hfading
      obtain ⟨p, hp⟩ := List.exists_mem_of_ne_nil _ hne
      exact ⟨fun _ => ⟨p.y, (mem_pending_foldl_touch _ d p.y).mpr (.inl ⟨p, hp, rfl⟩)⟩,
        fun _ => rfl⟩

theorem wellFormed_editGraphics (h : d.Cropped) (f : Graphics → Graphics)
    (hf : (f d.settings.graphics).fade = false → d.fading = ∅) :
    (d.editGraphics f).WellFormed :=
  Cropped.touchAll ⟨h.length_rows, h.lit_lt, h.contains_of_fading, h.pending_lt⟩ hf

-- Settings other than those of the fade leave every glow as it is.
theorem WellFormed.editGraphics (h : d.WellFormed) {f : Graphics → Graphics}
    (hf : ∀ g, (f g).fade = g.fade) : (d.editGraphics f).WellFormed :=
  wellFormed_editGraphics h.toCropped f (fun hoff => h.fading_eq_empty (hf _ ▸ hoff))

theorem WellFormed.setFade (h : d.WellFormed) (enabled : Bool) (speed : UInt8) :
    (d.setFade enabled speed).WellFormed := by
  unfold Display.setFade
  cases enabled with
  | false =>
    have hc : Cropped { d with fading := ∅ } :=
      ⟨h.length_rows, h.lit_lt, fun p hp => absurd hp Std.ExtTreeMap.not_mem_empty, h.pending_lt⟩
    exact wellFormed_editGraphics hc _ (fun _ => rfl)
  | true => exact wellFormed_editGraphics h.toCropped _ (fun hf => nomatch hf)

theorem WellFormed.setEdges (h : d.WellFormed) (horizontal vertical : Edge) :
    (d.setEdges horizontal vertical).WellFormed :=
  ⟨⟨h.length_rows, h.lit_lt, h.contains_of_fading, h.pending_lt⟩, ⟨h.mem_pending_iff, h.past_le⟩,
    h.fading_eq_empty, h.isChanged_iff⟩

-- What does not wait has nothing to hand over.
theorem WellFormed.dirty_of_not_mem_pending (h : d.WellFormed) {y : Nat} (hy : y ∉ d.pending)
    {row : Row} (hrow : d.rows[y]? = some row) : row.dirty.isEmpty = true := by
  rw [h.mem_pending_iff] at hy
  simpa using fun he => hy ⟨row, hrow, he⟩

theorem WellFormed.settle (h : d.WellFormed) : d.settle.WellFormed := by
  have hrow {y : Nat} {row : Row} (hr : d.settle.rows[y]? = some row) :
      ∃ old, d.rows[y]? = some old ∧ (row = old.settle ∨ row = old ∧ y ∉ d.pending) := by
    simp only [Display.settle, List.getElem?_mapIdx, Option.map_eq_some_iff] at hr
    obtain ⟨old, hold, rfl⟩ := hr
    refine ⟨old, hold, ?_⟩
    by_cases hy : y ∈ d.pending <;> simp [hy]
  refine ⟨⟨?_, ?_, h.contains_of_fading, ?_⟩, ⟨?_, ?_⟩, h.fading_eq_empty, ?_⟩
  · exact List.length_mapIdx.trans h.length_rows
  · intro row hmem x hx
    obtain ⟨y, hy⟩ := List.getElem?_of_mem hmem
    obtain ⟨old, hold, rfl | ⟨rfl, -⟩⟩ := hrow hy
    · exact h.lit_lt old (List.mem_of_getElem? hold) x hx
    · exact h.lit_lt row (List.mem_of_getElem? hold) x hx
  · exact fun y hy => absurd hy Std.ExtTreeSet.not_mem_empty
  · intro y
    refine ⟨fun hy => absurd hy Std.ExtTreeSet.not_mem_empty, ?_⟩
    rintro ⟨row, hy, he⟩
    obtain ⟨old, hold, rfl | ⟨rfl, hn⟩⟩ := hrow hy
    · simp [Row.settle, Span.nothing, Span.isEmpty] at he
    · simp [h.dirty_of_not_mem_pending hn hold] at he
  · intro row hmem
    obtain ⟨y, hy⟩ := List.getElem?_of_mem hmem
    obtain ⟨old, hold, rfl | ⟨rfl, -⟩⟩ := hrow hy
    · exact Nat.zero_le _
    · exact h.past_le row (List.mem_of_getElem? hold)
  · constructor
    · intro hc
      exact Bool.noConfusion hc
    · rintro ⟨y, hy⟩
      exact absurd hy Std.ExtTreeSet.not_mem_empty

theorem WellFormed.apply (h : d.WellFormed) (operation : Operation) :
    (d.apply operation).WellFormed := by
  cases operation with
  | setPixel p on => exact h.setPixel p on
  | draw sprite => exact h.draw sprite
  | clear => exact h.clear
  | scroll direction n => exact h.scroll direction n
  | setResolution resolution => exact wellFormed_setResolution h.fading_eq_empty resolution
  | animate => exact h.animate
  | setOn _ | setOff _ | setScale _ | setGrid _ =>
    simp only [Display.apply, setOn, setOff, setScale, setGrid]
    exact h.editGraphics (fun _ => rfl)
  | setFade enabled speed => exact h.setFade enabled speed
  | setEdges horizontal vertical => exact h.setEdges horizontal vertical
  | settle => exact h.settle

theorem WellFormed.run (h : d.WellFormed) (operations : List Operation) :
    (d.run operations).WellFormed :=
  List.foldlRecOn (motive := WellFormed) operations Display.apply h
    (fun _ hd operation _ => hd.apply operation)

theorem WellFormed.setGraphics (h : d.WellFormed) (g : Graphics) :
    (d.setGraphics g).WellFormed :=
  h.run [.setOn g.on, .setOff g.off, .setScale g.scale, .setGrid g.grid,
    .setFade g.fade g.fadeSpeed]

-- What is handed over: one stretch for each row that waits.

theorem WellFormed.dirtyLine?_eq (h : d.WellFormed) {y : Nat} (hy : y ∈ d.pending) :
    ∃ row, d.rows[y]? = some row ∧ row.dirty.isEmpty = false ∧
      d.dirtyLine? y = some ⟨y, row.dirty⟩ := by
  obtain ⟨row, hrow, he⟩ := (h.mem_pending_iff y).mp hy
  exact ⟨row, hrow, he, by simp [dirtyLine?, hrow, he, Option.filter]⟩

theorem WellFormed.map_row_dirtyLines (h : d.WellFormed) :
    d.dirtyLines.map (·.row) = d.pending.toList := by
  have hsome : ∀ y ∈ d.pending.toList, (d.dirtyLine? y).map (·.row) = some y := by
    intro y hy
    obtain ⟨_, _, _, heq⟩ := h.dirtyLine?_eq (Std.ExtTreeSet.mem_toList.mp hy)
    rw [heq]
    rfl
  rw [dirtyLines, List.map_filterMap, List.filterMap_congr hsome, List.filterMap_some]

theorem WellFormed.of_mem_dirtyLines (h : d.WellFormed) {line : DirtyLine}
    (hline : line ∈ d.dirtyLines) :
    ∃ row, d.rows[line.row]? = some row ∧ row.dirty = line.columns ∧ row.dirty.isEmpty = false := by
  obtain ⟨y, hy, heq⟩ := List.mem_filterMap.mp hline
  obtain ⟨row, hrow, he, hsome⟩ := h.dirtyLine?_eq (Std.ExtTreeSet.mem_toList.mp hy)
  obtain rfl : _ = line := Option.some.inj (hsome.symm.trans heq)
  exact ⟨row, hrow, rfl, he⟩

-- After any run the records agree and all they name is inside the display, so that fading and
-- handing over never ask for a row that is not there. What is handed over comes from the top,
-- all of it at once.
theorem wellFormed_of_run_new (settings : Settings) (operations : List Operation) :
    let d := (new settings).run operations
    d.WellFormed ∧
      (∀ p ∈ d.fading, p.y < d.rows.length) ∧
      (∀ y ∈ d.pending, y < d.rows.length) ∧
      d.dirtyLines.map (·.row) = d.pending.toList ∧
      (d.dirtyLines.map (·.row)).Pairwise (· < ·) ∧
      (∀ line ∈ d.dirtyLines, line.columns.first < line.columns.past ∧
        line.columns.past ≤ d.width) ∧
      d.settle.dirtyLines = [] := by
  intro d
  have h : d.WellFormed := (wellFormed_new settings).run operations
  refine ⟨h, fun p hp => h.lt_length_of_contains (h.contains_of_fading p hp), ?_,
    h.map_row_dirtyLines, ?_, ?_, d.dirtyLines_settle⟩
  · intro y hy
    rw [h.length_rows]
    exact h.pending_lt y hy
  · rw [h.map_row_dirtyLines]
    exact Std.ExtTreeSet.ordered_toList.imp Nat.compare_eq_lt.mp
  · intro line hline
    obtain ⟨row, hrow, heq, he⟩ := h.of_mem_dirtyLines hline
    rw [← heq]
    exact ⟨(Span.isEmpty_eq_false_iff _).mp he, h.past_le row (List.mem_of_getElem? hrow)⟩

end Chip8.Display
