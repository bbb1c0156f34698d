import Chip8.Proofs.Display.Painting

namespace Chip8

-- A number that has to stay below a limit.
def fit? (limit n : Nat) : Option Nat := if n < limit then some n else none

theorem fit?_eq_some {limit n : Nat} (h : n < limit) : fit? limit n = some n := if_pos h

-- The first elements of a list that has as many.
def slice? {α : Type} (as : List α) (count : Nat) : Option (List α) :=
  if count ≤ as.length then some (as.take count) else none

theorem slice?_eq_some {α : Type} {as : List α} {count : Nat} (h : count ≤ as.length) :
    slice? as count = some (as.take count) := if_pos h

-- A loop of checked steps goes through if an invariant makes each of them do so.
theorem foldlM_eq_some {α β : Type} {step : β → α → β} {step? : β → α → Option β}
    {I : β → Prop} (as : List α) {b : β} (hb : I b)
    (h : ∀ b a, a ∈ as → I b → step? b a = some (step b a) ∧ I (step b a)) :
    as.foldlM step? b = some (as.foldl step b) := by
  induction as generalizing b with
  | nil => rfl
  | cons a as ih =>
    obtain ⟨hstep, hnext⟩ := h b a List.mem_cons_self hb
    rw [List.foldlM_cons, hstep]
    exact ih hnext (fun c x hx => h c x (List.mem_cons_of_mem a hx))

-- Likewise for a list of checked results.
theorem mapM_eq_some_filterMap {α β : Type} {f : α → Option β} (as : List α)
    (h : ∀ a ∈ as, ∃ b, f a = some b) : as.mapM f = some (as.filterMap f) := by
  induction as with
  | nil => rfl
  | cons a as ih =>
    obtain ⟨b, hb⟩ := h a List.mem_cons_self
    have hrest := ih (fun x hx => h x (List.mem_cons_of_mem a hx))
    simp [List.mapM_cons, hb, hrest]

theorem Sprite.lt_of_mem_points {s : Sprite} {p : Point} (hp : p ∈ s.points) :
    p.x < s.position.x + 16 ∧ p.y < s.position.y + s.rows.length := by
  simp only [points, List.mem_flatMap, List.mem_map, Prod.exists] at hp
  obtain ⟨row, dy, hrow, dx, hdx, rfl⟩ := hp
  have hy := (List.getElem?_eq_some_iff.mp (List.mem_zipIdx_iff_getElem?.mp hrow)).1
  have hx := List.mem_range.mp (List.mem_of_mem_filter hdx)
  have hwidth : s.width ≤ 16 := by
    unfold width
    split <;> decide
  simp only at hy ⊢
  omega

namespace Display

-- Checked operations have no result where a row is missing, where a column has no bit or where a
-- number has no room.

def Row.lit? (r : Row) (x : Nat) : Option Bool := if x < 128 then some (r.lit x) else none

def Row.set? (x : Nat) (on : Bool) (r : Row) : Option Row :=
  if x < 128 then some (r.set x on) else none

def lit? (d : Display) (p : Point) : Option Bool :=
  if d.contains p then do
    let row ← d.rows[p.y]?
    row.lit? p.x
  else some false

def setPixel? (d : Display) (p : Point) (on : Bool) : Option Display :=
  if d.contains p then do
    let row ← d.rows[p.y]?
    let row ← row.set? p.x on
    return { d with
      rows := d.rows.set p.y (row.touch p.x)
      pending := d.pending.insert p.y
      changed := true
      fading := if on then d.fading.erase p else d.fading }
  else some d

def toggle? (drawn : Display × Bool) (p : Point) : Option (Display × Bool) := do
  let lit ← drawn.1.lit? p
  let d ← drawn.1.setPixel? p (!lit)
  return (d, drawn.2 || lit)

-- Both coordinates of every position of the sprite are computed in 64 bits.
def draw? (d : Display) (s : Sprite) : Option (Display × Bool) :=
  if ∀ p ∈ s.points, p.x < UInt64.size ∧ p.y < UInt64.size then
    (d.targets s).foldlM toggle? (d, false)
  else none

-- The rows that scrolling down moves to the top.
def scrollDown? (d : Display) (n : Nat) : Option Display := do
  let moved := min (d.distance n) d.rows.length
  let _ ← slice? d.rows moved
  return d.scroll .down n

def touch? (d : Display) (p : Point) : Option Display := do
  let row ← d.rows[p.y]?
  return { d with rows := d.rows.set p.y (row.touch p.x), pending := d.pending.insert p.y }

def animate? (d : Display) : Option Display := do
  let g := d.settings.graphics
  if d.isFading then
    let touched ← d.fading.keys.foldlM touch? d
    return { touched with
      changed := true
      fading := d.fading.filterMap fun _ => cool g.off g.fadeSpeed }
  else return d

def colorAt? (d : Display) (p : Point) : Option Color := do
  if ← d.lit? p then return d.settings.graphics.on
  else return (d.glowAt p).getD d.settings.graphics.off

-- Every row that waits has to be there.
def dirtyLines? (d : Display) : Option (List DirtyLine) := do
  let lines ← d.pending.toList.mapM fun y => d.rows[y]?.map fun row => DirtyLine.mk y row.dirty
  return lines.filter fun line => !line.columns.isEmpty

-- The edges of a frame and the end of the four bytes of a pixel are computed in 64 bits.
def paintPixel? (d : Display) (frame : Frame) (p : Point) : Option Frame := do
  let cell := d.pixelSize
  let stride := d.frameSize.1
  let color ← d.colorAt? p
  (List.range cell).foldlM (fun frame dy =>
    (List.range cell).foldlM (fun frame dx => do
      let index := (p.y * cell + dy) * stride + p.x * cell + dx
      let _ ← fit? UInt64.size (4 * index + 4)
      return frame.put index (d.cellColor color dx dy))
      frame) frame

def paintLine? (d : Display) (frame : Frame) (line : DirtyLine) : Option Frame :=
  line.columns.columns.foldlM (fun frame x => d.paintPixel? frame ⟨x, line.row⟩) frame

def paint? (d : Display) (frame : Frame) : Option (Display × Frame) := do
  let _ ← fit? UInt64.size d.frameSize.1
  let _ ← fit? UInt64.size d.frameSize.2
  let _ ← fit? UInt64.size d.pixelSize
  let lines ← d.dirtyLines?
  let frame ← lines.foldlM d.paintLine? frame
  return (d.settle, frame)

theorem scrollDown?_eq (d : Display) (n : Nat) : d.scrollDown? n = some (d.scroll .down n) := by
  rw [scrollDown?, slice?_eq_some (Nat.min_le_right _ _)]
  rfl

theorem set_eq_modify {rows : List Row} {y : Nat} {row : Row} (hrow : rows[y]? = some row)
    (f : Row → Row) : rows.set y (f row) = rows.modify y f := by
  obtain ⟨hy, rfl⟩ := List.getElem?_eq_some_iff.mp hrow
  apply List.ext_getElem?
  intro k
  rw [List.getElem?_set, List.getElem?_modify]
  by_cases hk : y = k
  · subst hk
    simp [hy]
  · simp [hk]

theorem touch?_eq {d : Display} {p : Point} (hp : p.y < d.rows.length) :
    d.touch? p = some (d.touch p) := by
  have hrow := List.getElem?_eq_getElem hp
  simp [touch?, touch, hrow, set_eq_modify hrow (Row.touch p.x)]

namespace WellFormed

variable {d : Display}

theorem exists_row (h : d.WellFormed) {p : Point} (hp : d.contains p = true) :
    ∃ row, d.rows[p.y]? = some row :=
  ⟨_, List.getElem?_eq_getElem (h.lt_length_of_contains hp)⟩

theorem lit?_eq (h : d.WellFormed) (p : Point) : d.lit? p = some (d.lit p) := by
  unfold Display.lit? Display.lit
  by_cases hp : d.contains p = true
  · obtain ⟨row, hrow⟩ := h.exists_row hp
    have hx : p.x < 128 :=
      Nat.lt_of_lt_of_le ((d.contains_iff p).mp hp).1 d.resolution.width_le
    simp [hp, hrow, Row.lit?, hx]
  · simp [hp]

theorem setPixel?_eq (h : d.WellFormed) (p : Point) (on : Bool) :
    d.setPixel? p on = some (d.setPixel p on) := by
  unfold Display.setPixel? Display.setPixel
  by_cases hp : d.contains p = true
  · obtain ⟨row, hrow⟩ := h.exists_row hp
    have hx : p.x < 128 :=
      Nat.lt_of_lt_of_le ((d.contains_iff p).mp hp).1 d.resolution.width_le
    have hrows : d.rows.set p.y ((row.set p.x on).touch p.x) =
        (d.rows.modify p.y (Row.touch p.x)).modify p.y (Row.set p.x on) := by
      rw [List.modify_modify_eq, ← set_eq_modify hrow]
      cases on <;> rfl
    simp [hp, hrow, Row.set?, hx, hrows, Display.touch]
  · simp [hp]

theorem toggle?_eq {drawn : Display × Bool} (h : drawn.1.WellFormed) (p : Point) :
    toggle? drawn p = some (toggle drawn p) := by
  simp [toggle?, toggle, h.lit?_eq, h.setPixel?_eq]

theorem draw?_eq (h : d.WellFormed) {s : Sprite}
    (hs : ∀ p ∈ s.points, p.x < UInt64.size ∧ p.y < UInt64.size) : d.draw? s = some (d.draw s) := by
  rw [Display.draw?, if_pos hs]
  exact foldlM_eq_some (I := fun drawn => drawn.1.WellFormed) _ h
    (fun _ p _ hd => ⟨toggle?_eq hd p, hd.setPixel p _⟩)

theorem animate?_eq (h : d.WellFormed) : d.animate? = some d.animate := by
  unfold Display.animate? Display.animate
  by_cases hfading : d.isFading = true
  · have htouch : d.fading.keys.foldlM touch? d = some (d.fading.keys.foldl touch d) := by
      apply foldlM_eq_some (I := fun touched => touched.rows.length = d.rows.length) _ rfl
      intro touched p hp hlen
      have hin := h.lt_length_of_contains
        (h.contains_of_fading p (Std.ExtTreeMap.mem_keys.mp hp))
      rw [← hlen] at hin
      exact ⟨touch?_eq hin, (length_rows_eq_of_pixels (touched.pixels_touch p)).trans hlen⟩
    simp [hfading, htouch]
  · simp [hfading]

theorem colorAt?_eq (h : d.WellFormed) (p : Point) : d.colorAt? p = some (d.colorAt p) := by
  simp only [Display.colorAt?, Display.colorAt, h.lit?_eq]
  cases d.lit p <;> rfl

theorem dirtyLines?_eq (h : d.WellFormed) : d.dirtyLines? = some d.dirtyLines := by
  have hline : ∀ y ∈ d.pending.toList,
      (d.rows[y]?.map fun row => DirtyLine.mk y row.dirty) = d.dirtyLine? y ∧
        ∃ line, d.dirtyLine? y = some line := by
    intro y hy
    obtain ⟨row, hrow, -, heq⟩ := h.dirtyLine?_eq (Std.ExtTreeSet.mem_toList.mp hy)
    exact ⟨by rw [hrow, heq, Option.map_some], _, heq⟩
  have hsome := mapM_eq_some_filterMap d.pending.toList fun y hy => by
    obtain ⟨heq, line, hsome⟩ := hline y hy
    exact ⟨line, heq.trans hsome⟩
  have hfilter : (d.dirtyLines.filter fun line => !line.columns.isEmpty) = d.dirtyLines := by
    apply List.filter_eq_self.mpr
    intro line hmem
    obtain ⟨row, -, heq, he⟩ := h.of_mem_dirtyLines hmem
    simp [← heq, he]
  rw [Display.dirtyLines?, hsome, List.filterMap_congr fun y hy => (hline y hy).1]
  exact congrArg some hfilter

-- The edges are no longer than the whole frame.
theorem edges_lt (hb : d.frameBytes < UInt64.size) :
    d.frameSize.1 < UInt64.size ∧ d.frameSize.2 < UInt64.size ∧ d.pixelSize < UInt64.size := by
  have hsquare := Nat.le_mul_self d.settings.graphics.scale
  have hbytes : d.frameBytes =
      32768 * (d.settings.graphics.scale * d.settings.graphics.scale) := by
    simp only [frameBytes, frameSize, Resolution.width, Resolution.height]
    rw [Nat.mul_mul_mul_comm, ← Nat.mul_assoc]
  have hcell : d.pixelSize ≤ 2 * d.settings.graphics.scale := by
    apply Nat.mul_le_mul_right
    cases d.resolution <;> decide
  rw [hbytes] at hb
  simp only [frameSize, Resolution.width, Resolution.height]
  omega

theorem paintPixel?_eq (h : d.WellFormed) (hb : d.frameBytes < UInt64.size) (frame : Frame)
    {p : Point} (hp : d.contains p = true) :
    d.paintPixel? frame p = some (d.paintPixel frame p) := by
  have hin := (d.contains_iff p).mp hp
  rw [Display.paintPixel?, h.colorAt?_eq]
  refine foldlM_eq_some (I := fun _ => True) _ trivial fun frame dy hdy _ => ⟨?_, trivial⟩
  refine foldlM_eq_some (I := fun _ => True) _ trivial fun frame dx hdx _ => ⟨?_, trivial⟩
  rw [List.mem_range] at hdy hdx
  have hx : p.x * d.pixelSize + dx < d.frameSize.1 :=
    d.width_mul_pixelSize ▸ place_lt hin.1 hdx
  have hy : p.y * d.pixelSize + dy < d.frameSize.2 :=
    d.height_mul_pixelSize ▸ place_lt hin.2 hdy
  have hfit := frameIndex_lt hx hy
  rw [frameIndex, ← Nat.add_assoc] at hfit
  simp only [fit?_eq_some (Nat.lt_of_le_of_lt hfit hb)]
  rfl

theorem paint?_eq (h : d.WellFormed) (hb : d.frameBytes < UInt64.size) (frame : Frame) :
    d.paint? frame = some (d.paint frame) := by
  have hlines : d.dirtyLines.foldlM d.paintLine? frame =
      some (d.dirtyLines.foldl d.paintLine frame) := by
    refine foldlM_eq_some (I := fun _ => True) _ trivial fun frame line hline _ => ⟨?_, trivial⟩
    obtain ⟨row, hrow, heq, -⟩ := h.of_mem_dirtyLines hline
    have hy := (List.getElem?_eq_some_iff.mp hrow).1
    rw [h.length_rows] at hy
    have hpast := h.past_le row (List.mem_of_getElem? hrow)
    refine foldlM_eq_some (I := fun _ => True) _ trivial fun frame x hx _ => ⟨?_, trivial⟩
    apply h.paintPixel?_eq hb
    rw [← heq, Span.mem_columns] at hx
    exact (d.contains_iff _).mpr ⟨Nat.lt_of_lt_of_le hx.2 hpast, hy⟩
  obtain ⟨hwidth, hheight, hcell⟩ := edges_lt hb
  rw [Display.paint?, fit?_eq_some hwidth, fit?_eq_some hheight, fit?_eq_some hcell,
    h.dirtyLines?_eq]
  simp only [Option.bind_eq_bind, Option.bind_some, hlines]
  rfl

end WellFormed

end Display

end Chip8
