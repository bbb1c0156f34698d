import Mathlib.Data.List.Basic
import Chip8.Files.Tree

namespace Chip8.Files.Tree

variable {t t' : Tree}

-- The tree with directories added to it.
def withDirectories (t : Tree) (made : List Location) : Tree :=
  { t with entries := t.entries ++ made.map (·, .directory) }

-- Where a path leads, whether or not anything is there.
def place? (t : Tree) (p : Path) : Option Location :=
  match t.locate p with
  | .ok (.directory l) => some l
  | .ok (.name directory name) => some (directory ++ [name])
  | .error _ => none

-- The second tree is the first one with directories added where nothing was. Each of them is where
-- one of the paths leads.
structure GrowsTo (t : Tree) (paths : List Path) (made : List Location) (t' : Tree) : Prop where
  eq : t' = t.withDirectories made
  nodup : made.Nodup
  lookup_eq_none : ∀ l ∈ made, t.lookup l = none
  place?_eq : ∀ l ∈ made, ∃ p ∈ paths, t'.place? p = some l

theorem lookup_eq_or (t : Tree) {l : Location} (hl : l ≠ []) :
    t.lookup l = t.entries.lookup l := by
  rw [lookup, if_neg hl]

theorem lookup_withDirectories (t : Tree) (made : List Location) (l : Location) :
    (t.withDirectories made).lookup l =
      (t.lookup l).or (if l ∈ made then some .directory else none) := by
  by_cases hl : l = []
  · simp [lookup, hl]
  · rw [lookup_eq_or _ hl, lookup_eq_or _ hl, withDirectories, List.lookup_append]
    congr 1
    induction made with
    | nil => rfl
    | cons first rest ih =>
      by_cases h : l = first
      · simp [h]
      · simpa [List.lookup_cons, h, beq_eq_false_iff_ne.mpr h] using ih

theorem enter_withDirectories (made : List Location) {start l : Location} {names : List String}
    (h : t.enter start names = .ok l) : (t.withDirectories made).enter start names = .ok l := by
  fun_induction t.enter start names with
  | case1 start => exact h
  | case2 start rest ih => exact ih h
  | case3 start rest ih => exact ih h
  | case4 start name rest hdot hup ih =>
    simp only [bind, Except.bind] at h
    rw [enter]
    · cases hchild : child start name with
      | error e => simp [hchild] at h
      | ok inner =>
        simp only [hchild] at h
        simp only [bind, Except.bind, lookup_withDirectories]
        cases hinner : t.lookup inner with
        | none => simp [hinner, throw, throwThe, MonadExceptOf.throw] at h
        | some entry =>
          cases entry with
          | file content => simp [hinner, throw, throwThe, MonadExceptOf.throw] at h
          | directory =>
            simp only [hinner] at h
            exact ih inner h
    · exact hdot
    · exact hup

theorem bind_enter_withDirectories {α : Type} (made : List Location) {start : Location}
    {names : List String} {f : Location → Except Error α} {a : α}
    (h : (t.enter start names).bind f = .ok a) :
    ((t.withDirectories made).enter start names).bind f = .ok a := by
  cases henter : t.enter start names with
  | error e => simp [henter, Except.bind] at h
  | ok l =>
    rw [enter_withDirectories made henter]
    simpa only [henter] using h

-- A path leads where it led before.
theorem locate_withDirectories (made : List Location) {p : Path} {target : Target}
    (h : t.locate p = .ok target) : (t.withDirectories made).locate p = .ok target := by
  have hcurrent : (t.withDirectories made).current = t.current := rfl
  unfold locate at h ⊢
  rw [hcurrent]
  simp only [bind, Except.bind, pure, Except.pure, throw, throwThe, MonadExceptOf.throw] at h ⊢
  split at h
  · cases h
  case isFalse hnull =>
  split at h
  · cases h
  case isFalse hlong =>
  rw [if_neg hnull, if_neg hlong]
  cases hlast : p.steps.getLast? with
  | none => simpa only [hlast] using h
  | some name =>
    simp only [hlast] at h ⊢
    generalize (if p.isAbsolute = true then [] else t.current) = start at h ⊢
    split at h
    case isTrue hdots =>
      rw [if_pos hdots]
      exact bind_enter_withDirectories made h
    case isFalse hdots =>
      rw [if_neg hdots]
      exact bind_enter_withDirectories made h

theorem place?_withDirectories (made : List Location) {p : Path} {l : Location}
    (h : t.place? p = some l) : (t.withDirectories made).place? p = some l := by
  unfold place? at h ⊢
  cases hlocate : t.locate p with
  | error e => simp [hlocate] at h
  | ok target =>
    rw [locate_withDirectories made hlocate]
    simpa only [hlocate] using h

theorem GrowsTo.refl (t : Tree) (paths : List Path) : t.GrowsTo paths [] t where
  eq := by simp [withDirectories]
  nodup := List.nodup_nil
  lookup_eq_none := by simp
  place?_eq := by simp

theorem GrowsTo.lookup_eq {paths : List Path} {made : List Location} (h : t.GrowsTo paths made t')
    (l : Location) :
    t'.lookup l = (t.lookup l).or (if l ∈ made then some .directory else none) := by
  rw [h.eq, lookup_withDirectories]

theorem GrowsTo.trans {t'' : Tree} {paths : List Path} {made more : List Location}
    (h : t.GrowsTo paths made t') (h' : t'.GrowsTo paths more t'') :
    t.GrowsTo paths (made ++ more) t'' := by
  have hnew (l : Location) (hl : l ∈ more) : t.lookup l = none ∧ l ∉ made := by
    have hnone := h'.lookup_eq_none l hl
    rw [h.lookup_eq, Option.or_eq_none_iff] at hnone
    exact ⟨hnone.1, by simpa using hnone.2⟩
  refine ⟨?_, ?_, ?_, ?_⟩
  · rw [h'.eq, h.eq]
    simp [withDirectories]
  · refine List.nodup_append.mpr ⟨h.nodup, h'.nodup, ?_⟩
    rintro l hl _ hl' rfl
    exact (hnew l hl').2 hl
  · intro l hl
    rcases List.mem_append.mp hl with hl | hl
    · exact h.lookup_eq_none l hl
    · exact (hnew l hl).1
  · intro l hl
    rcases List.mem_append.mp hl with hl | hl
    · obtain ⟨p, hp, hplace⟩ := h.place?_eq l hl
      exact ⟨p, hp, h'.eq ▸ place?_withDirectories more hplace⟩
    · exact h'.place?_eq l hl

-- Making one directory.

end Chip8.Files.Tree
