import Chip8.Proofs.Display.Painting

namespace Chip8

namespace Display

-- A physical pixel waits with the position that it belongs to.
def WaitsAt (d : Display) (px py : Nat) : Prop :=
  d.Waits ⟨px / d.pixelSize, py / d.pixelSize⟩

theorem contains_of_lt_frameSize {d : Display} {px py : Nat} (hx : px < d.frameSize.1)
    (hy : py < d.frameSize.2) : d.contains ⟨px / d.pixelSize, py / d.pixelSize⟩ = true := by
  rw [← width_mul_pixelSize] at hx
  rw [← height_mul_pixelSize] at hy
  exact (d.contains_iff _).mpr
    ⟨Nat.div_lt_of_lt_mul (Nat.mul_comm _ _ ▸ hx), Nat.div_lt_of_lt_mul (Nat.mul_comm _ _ ▸ hy)⟩

-- What waits.

theorem waits_congr {d d' : Display} (h : d'.rows.map (·.dirty) = d.rows.map (·.dirty))
    (p : Point) : d'.Waits p ↔ d.Waits p := by
  have hy := congrArg (·[p.y]?) h
  simp only [List.getElem?_map] at hy
  unfold Waits
  cases h' : d'.rows[p.y]? <;> cases h'' : d.rows[p.y]? <;> simp_all

theorem Waits.touch {d : Display} {q : Point} (h : d.Waits q) (p : Point) :
    (d.touch p).Waits q := by
  obtain ⟨row, hrow, hmem⟩ := h
  refine ⟨_, by rw [getElem?_rows_touch, hrow, Option.map_some], ?_⟩
  split
  · exact Span.mem_columns_expand_of_mem hmem p.x
  · exact hmem

theorem waits_touch_self {d : Display} {p : Point} (hp : p.y < d.rows.length) :
    (d.touch p).Waits p := by
  refine ⟨_, by rw [getElem?_rows_touch, List.getElem?_eq_getElem hp, Option.map_some], ?_⟩
  rw [if_pos rfl]
  exact Span.mem_columns_expand _ p.x

theorem Waits.foldl_touch {d : Display} {q : Point} (h : d.Waits q) (ps : List Point) :
    (ps.foldl Display.touch d).Waits q :=
  List.foldlRecOn (motive := (·.Waits q)) ps Display.touch h (fun _ hd p _ => hd.touch p)

theorem waits_foldl_touch {d : Display} {ps : List Point} {q : Point} (hq : q ∈ ps)
    (hy : q.y < d.rows.length) : (ps.foldl touch d).Waits q := by
  induction ps generalizing d with
  | nil => exact absurd hq List.not_mem_nil
  | cons p ps ih =>
    rcases List.mem_cons.mp hq with rfl | hmem
    · exact (waits_touch_self hy).foldl_touch ps
    · exact ih hmem (by rwa [length_rows_eq_of_pixels (d.pixels_touch p)])

theorem waits_touchAll {d : Display} (hlen : d.rows.length = d.height) {p : Point}
    (hp : d.contains p = true) : d.touchAll.Waits p := by
  have hin := (d.contains_iff p).mp hp
  have hrow := List.getElem?_eq_getElem (show p.y < d.rows.length by omega)
  refine ⟨_, by rw [touchAll, List.getElem?_map, hrow, Option.map_some], ?_⟩
  exact (Span.mem_columns _ p.x).mpr ⟨Nat.zero_le _, hin.1⟩

theorem waitsAt_touchAll {d : Display} (hlen : d.rows.length = d.height) {px py : Nat}
    (hx : px < d.frameSize.1) (hy : py < d.frameSize.2) : d.touchAll.WaitsAt px py :=
  waits_touchAll hlen (contains_of_lt_frameSize hx hy)

-- After a change all those pixels wait that waited before or that look different now.
structure Marks (d d' : Display) : Prop where
  scale_eq : d'.settings.graphics.scale = d.settings.graphics.scale
  waitsAt : ∀ {px py}, px < d.frameSize.1 → py < d.frameSize.2 →
    d.WaitsAt px py → d'.WaitsAt px py
  rendered_eq : ∀ {px py}, px < d.frameSize.1 → py < d.frameSize.2 →
    ¬d'.WaitsAt px py → d'.rendered px py = d.rendered px py

namespace Marks

variable {d d' d'' : Display}

theorem refl (d : Display) : Marks d d := ⟨rfl, fun _ _ h => h, fun _ _ _ => rfl⟩

theorem frameSize_eq (h : Marks d d') : d'.frameSize = d.frameSize := by
  simp only [frameSize, h.scale_eq]

theorem frameIndex_eq (h : Marks d d') (px py : Nat) :
    d'.frameIndex px py = d.frameIndex px py := by
  simp only [frameIndex, h.frameSize_eq]

theorem frameBytes_eq (h : Marks d d') : d'.frameBytes = d.frameBytes := by
  simp only [frameBytes, h.frameSize_eq]

theorem trans (h : Marks d d') (h' : Marks d' d'') : Marks d d'' where
  scale_eq := h'.scale_eq.trans h.scale_eq
  waitsAt hx hy hw := by
    rw [← h.frameSize_eq] at hx hy
    exact h'.waitsAt hx hy (h.waitsAt (h.frameSize_eq ▸ hx) (h.frameSize_eq ▸ hy) hw)
  rendered_eq {px py} hx hy hw := by
    have hx' : px < d'.frameSize.1 := h.frameSize_eq ▸ hx
    have hy' : py < d'.frameSize.2 := h.frameSize_eq ▸ hy
    have hidle : ¬d'.WaitsAt px py := fun hw' => hw (h'.waitsAt hx' hy' hw')
    exact (h'.rendered_eq hx' hy' hw).trans (h.rendered_eq hx hy hidle)

-- Where everything waits there is nothing to keep.
theorem of_touchAll (hlen : d'.rows.length = d'.height)
    (hs : d'.settings.graphics.scale = d.settings.graphics.scale) : Marks d d'.touchAll := by
  have hall {px py : Nat} (hx : px < d.frameSize.1) (hy : py < d.frameSize.2) :
      d'.touchAll.WaitsAt px py := by
    have hsize : d'.frameSize = d.frameSize := by simp only [frameSize, hs]
    exact waitsAt_touchAll hlen (hsize ▸ hx) (hsize ▸ hy)
  exact ⟨hs, fun hx hy _ => hall hx hy, fun hx hy hidle => absurd (hall hx hy) hidle⟩

-- Where the positions keep their places it is enough to look at them.
theorem of_positions (hr : d'.resolution = d.resolution)
    (hg : d'.settings.graphics = d.settings.graphics) (hw : ∀ p, d.Waits p → d'.Waits p)
    (hc : ∀ p, ¬d'.Waits p → d'.colorAt p = d.colorAt p) : Marks d d' := by
  have hcell : d'.pixelSize = d.pixelSize := by simp only [pixelSize, hr, hg]
  refine ⟨by rw [hg], fun _ _ hwaits => ?_, fun _ _ hidle => ?_⟩
  · rw [WaitsAt, hcell]
    exact hw _ hwaits
  · rw [WaitsAt, hcell] at hidle
    simp only [rendered, hcell, hg, hc _ hidle]

end Marks

variable {d : Display}

theorem WellFormed.marks_setPixel (h : d.WellFormed) (p : Point) (on : Bool) :
    Marks d (d.setPixel p on) := by
  by_cases hp : d.contains p = true
  case neg =>
    rw [Display.setPixel, if_neg hp]
    exact Marks.refl d
  case pos =>
    have hwaits (q : Point) : (d.setPixel p on).Waits q ↔ (d.touch p).Waits q := by
      apply waits_congr
      rw [Display.setPixel, if_pos hp]
      exact map_dirty_modify_set _ p.y p.x on
    have hself : (d.setPixel p on).Waits p :=
      (hwaits p).mpr (waits_touch_self (h.lt_length_of_contains hp))
    have hfields : (d.setPixel p on).resolution = d.resolution ∧
        (d.setPixel p on).settings = d.settings := by
      rw [Display.setPixel, if_pos hp]
      exact ⟨rfl, rfl⟩
    obtain ⟨hr, hs⟩ := hfields
    refine Marks.of_positions hr (by rw [hs]) (fun q hq => (hwaits q).mpr (hq.touch p)) ?_
    intro q hidle
    have hne : q ≠ p := fun heq => hidle (heq ▸ hself)
    simp only [colorAt, lit_setPixel d h.length_rows, glowAt_setPixel, hne, false_and, if_false,
      hs]

theorem WellFormed.marks_draw (h : d.WellFormed) (s : Sprite) : Marks d (d.draw s).1 := by
  have hboth : (d.draw s).1.WellFormed ∧ Marks d (d.draw s).1 :=
    List.foldlRecOn (motive := fun drawn => drawn.1.WellFormed ∧ Marks d drawn.1) _ toggle
      ⟨h, Marks.refl d⟩
      (fun _ hd p _ => ⟨hd.1.setPixel p _, hd.2.trans (hd.1.marks_setPixel p _)⟩)
  exact hboth.2

-- A glow may change only where it was, and there every pixel is touched.
theorem WellFormed.marks_animate (h : d.WellFormed) : Marks d d.animate := by
  by_cases hfading : d.isFading = true
  case neg =>
    rw [Display.animate, if_neg hfading]
    exact Marks.refl d
  case pos =>
    obtain ⟨-, hres, hset, -⟩ := foldl_touch_fields d.fading.keys d
    have hwaits (q : Point) : d.animate.Waits q ↔ (d.fading.keys.foldl touch d).Waits q := by
      rw [Display.animate, if_pos hfading]
      rfl
    have hfields : d.animate.resolution = d.resolution ∧ d.animate.settings = d.settings := by
      rw [Display.animate, if_pos hfading]
      exact ⟨hres, hset⟩
    obtain ⟨hr, hs⟩ := hfields
    refine Marks.of_positions hr (by rw [hs]) (fun q hq => (hwaits q).mpr (hq.foldl_touch _)) ?_
    intro q hidle
    have hdark : d.glowAt q = none := by
      apply Option.eq_none_iff_forall_ne_some.mpr
      intro color hcolor
      obtain ⟨hq, -⟩ := Std.ExtTreeMap.getElem?_eq_some_iff.mp hcolor
      exact hidle ((hwaits q).mpr (waits_foldl_touch (Std.ExtTreeMap.mem_keys.mpr hq)
        (h.lt_length_of_contains (h.contains_of_fading q hq))))
    simp only [colorAt, lit_animate, glowAt_animate, hdark, Option.bind_none, hs]

theorem WellFormed.marks_editGraphics (h : d.WellFormed) {f : Graphics → Graphics}
    (hf : ∀ g, (f g).scale = g.scale) : Marks d (d.editGraphics f) :=
  Marks.of_touchAll h.length_rows (hf _)

theorem WellFormed.marks_setFade (h : d.WellFormed) (enabled : Bool) (speed : UInt8) :
    Marks d (d.setFade enabled speed) := by
  unfold Display.setFade
  cases enabled <;> exact Marks.of_touchAll h.length_rows rfl

-- Operations that neither resize the frame nor take away what waits.
def Operation.keepsFrame : Operation → Bool
  | setScale _ | settle => false
  | _ => true

theorem WellFormed.marks_apply (h : d.WellFormed) {operation : Operation}
    (hk : operation.keepsFrame = true) : Marks d (d.apply operation) := by
  have hlen : d.rows.length = d.height := h.length_rows
  cases operation with
  | setPixel p on => exact h.marks_setPixel p on
  | draw sprite => exact h.marks_draw sprite
  | clear => exact Marks.of_touchAll ((List.length_map _).trans hlen) rfl
  | scroll direction n =>
    have hscroll := length_rows_scroll d direction n
    simp only [Display.scroll, length_rows_touchAll] at hscroll
    exact Marks.of_touchAll (hscroll.trans hlen) rfl
  | setResolution resolution =>
    have hcropped := length_rows_setResolution d resolution
    rw [Display.setResolution, length_rows_touchAll] at hcropped
    exact Marks.of_touchAll hcropped rfl
  | animate => exact h.marks_animate
  | setOn _ | setOff _ | setGrid _ =>
    simp only [Display.apply, setOn, setOff, setGrid]
    exact h.marks_editGraphics fun _ => rfl
  | setFade enabled speed => exact h.marks_setFade enabled speed
  | setEdges horizontal vertical =>
    exact Marks.of_positions rfl rfl (fun _ hw => hw) (fun _ _ => rfl)
  | setScale _ | settle => exact Bool.noConfusion hk

theorem rendered_settle (d : Display) (px py : Nat) :
    d.settle.rendered px py = d.rendered px py := by
  simp only [rendered, colorAt, lit_settle]
  rfl

theorem WellFormed.not_waits_of_not_isChanged (h : d.WellFormed) (hc : d.isChanged = false)
    (p : Point) : ¬d.Waits p := by
  rw [h.waits_iff]
  rintro ⟨line, hline, -, -⟩
  have hy : line.row ∈ d.dirtyLines.map (·.row) := List.mem_map_of_mem hline
  rw [h.map_row_dirtyLines, Std.ExtTreeSet.mem_toList] at hy
  exact Bool.eq_false_iff.mp hc (h.isChanged_iff.mpr ⟨_, hy⟩)

end Display

namespace Screen

-- The frame shows what it should at one physical pixel.
def ShowsAt (s : Screen) (px py : Nat) : Prop :=
  s.frame.pixel? (s.display.frameIndex px py) = some (s.display.rendered px py)

-- Only what waits may be out of date.
structure UpToDate (s : Screen) : Prop where
  wellFormed : s.display.WellFormed
  size_eq : s.frame.bytes.size = s.display.frameBytes
  showsAt : ∀ px py, px < s.display.frameSize.1 → py < s.display.frameSize.2 →
    ¬s.display.WaitsAt px py → s.ShowsAt px py

theorem upToDate_new (settings : Display.Settings) : (new settings).UpToDate := by
  refine ⟨Display.wellFormed_new settings, Array.size_replicate, ?_⟩
  intro px py hx hy hidle
  have hlen := Display.length_rows_setResolution ⟨[], .low, settings, ∅, false, ∅⟩ .low
  rw [Display.setResolution, Display.length_rows_touchAll] at hlen
  exact absurd (Display.waitsAt_touchAll hlen hx hy) hidle

namespace UpToDate

variable {s : Screen}

theorem operation (h : s.UpToDate) {operation : Display.Operation}
    (hk : operation.keepsFrame = true) : (s.apply (.operation operation)).UpToDate := by
  have hm := h.wellFormed.marks_apply hk
  refine ⟨h.wellFormed.apply operation, h.size_eq.trans hm.frameBytes_eq.symm, ?_⟩
  intro px py hx hy hidle
  change px < (s.display.apply operation).frameSize.1 at hx
  change py < (s.display.apply operation).frameSize.2 at hy
  rw [hm.frameSize_eq] at hx hy
  have hshows := h.showsAt px py hx hy fun hw => hidle (hm.waitsAt hx hy hw)
  change s.frame.pixel? ((s.display.apply operation).frameIndex px py) =
    some ((s.display.apply operation).rendered px py)
  rw [hm.frameIndex_eq, hm.rendered_eq hx hy hidle]
  exact hshows

-- Where nothing changed nothing waits, and else all that waits is painted.
theorem showsAt_refresh (h : s.UpToDate) {px py : Nat} (hx : px < s.display.frameSize.1)
    (hy : py < s.display.frameSize.2) : s.refresh.ShowsAt px py := by
  unfold refresh
  split
  case isTrue =>
    have hpaint := h.wellFormed.colours_paint px py hx
    change (s.display.paint s.frame).2.pixel? (s.display.settle.frameIndex px py) =
      some (s.display.settle.rendered px py)
    rw [Display.rendered_settle]
    by_cases hw : s.display.WaitsAt px py
    · exact hpaint.of_hit hw s.frame h.size_eq
    · exact (hpaint.of_miss hw s.frame h.size_eq).trans (h.showsAt px py hx hy hw)
  case isFalse hc =>
    exact h.showsAt px py hx hy
      (h.wellFormed.not_waits_of_not_isChanged (Bool.eq_false_iff.mpr hc) _)

theorem frameSize_refresh (s : Screen) : s.refresh.display.frameSize = s.display.frameSize := by
  unfold refresh
  split <;> rfl

theorem refresh (h : s.UpToDate) : s.refresh.UpToDate := by
  refine ⟨?_, ?_, ?_⟩
  · unfold Screen.refresh
    split
    · exact h.wellFormed.settle
    · exact h.wellFormed
  · unfold Screen.refresh
    split
    · exact (s.display.size_paint s.frame).trans h.size_eq
    · exact h.size_eq
  · intro px py hx hy _
    rw [frameSize_refresh] at hx hy
    exact h.showsAt_refresh hx hy

end UpToDate

-- No event resizes the frame or takes away what waits without painting it.
def Event.keepsFrame : Event → Bool
  | .operation op => op.keepsFrame
  | .refresh => true

theorem UpToDate.apply {s : Screen} (h : s.UpToDate) {event : Event}
    (hk : event.keepsFrame = true) : (s.apply event).UpToDate := by
  cases event with
  | operation operation => exact h.operation hk
  | refresh => exact h.refresh

theorem UpToDate.run {s : Screen} (h : s.UpToDate) {events : List Event}
    (hk : ∀ event ∈ events, event.keepsFrame = true) : (s.run events).UpToDate :=
  List.foldlRecOn (motive := UpToDate) events Screen.apply h
    (fun _ hs event hmem => hs.apply (hk event hmem))

-- Whatever happened before, once there was an occasion to paint the whole frame shows what a
-- full painting would.
theorem showsAt_of_run_refresh (settings : Display.Settings) (events : List Event)
    (hk : ∀ event ∈ events, event.keepsFrame = true) :
    let s := (new settings).run (events ++ [.refresh])
    s.frame.bytes.size = 4 * (s.display.frameSize.1 * s.display.frameSize.2) ∧
      ∀ px py, px < s.display.frameSize.1 → py < s.display.frameSize.2 →
        s.frame.pixel? (py * s.display.frameSize.1 + px) = some (s.display.rendered px py) := by
  have h : ((new settings).run events).UpToDate := (upToDate_new settings).run hk
  have hrun : (new settings).run (events ++ [.refresh]) = ((new settings).run events).refresh := by
    simp only [run, List.foldl_append]
    rfl
  rw [hrun]
  refine ⟨h.refresh.size_eq, fun px py hx hy => ?_⟩
  rw [UpToDate.frameSize_refresh] at hx hy
  exact h.showsAt_refresh hx hy

-- A grid that is switched on over a blank picture shows in the first corner of the frame.
theorem corner_inverted_of_run_refresh :
    let events : List Event := [.operation (.setPixel ⟨0, 0⟩ true), .refresh,
      .operation (.setGrid true), .operation .clear]
    (∀ event ∈ events, event.keepsFrame = true) ∧
      ((new .standard).run (events ++ [.refresh])).frame.pixel? 0 = some Color.black.inverted := by
  intro events
  have hk : ∀ event ∈ events, event.keepsFrame = true := by decide
  have hshows := (showsAt_of_run_refresh .standard events hk).2 0 0
    (by decide +kernel) (by decide +kernel)
  refine ⟨hk, Eq.trans hshows ?_⟩
  decide +kernel

end Screen

end Chip8
