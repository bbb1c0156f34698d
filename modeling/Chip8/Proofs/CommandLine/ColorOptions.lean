import Chip8.Proofs.CommandLine.Reading

namespace Chip8.CommandLine

namespace Level

variable {σ : Type} {level : Level σ} {p : Progress σ} {text : String}

-- While a value is missing no option can start.

theorem startValue_of_resolve {e : UsageError} (hp : p.resolve = .error e) (name : String)
    (set : String → σ → Except UsageError σ) (attached : Option String) :
    startValue p name set attached = .error e := by
  rw [startValue, hp]
  rfl

theorem readLong_of_resolve {e : UsageError} (hp : p.resolve = .error e) (name : String)
    (attached : Option String) : ∃ e', level.readLong p name attached = .error e' := by
  unfold readLong
  split
  · exact ⟨_, rfl⟩
  · split
    · exact ⟨e, startValue_of_resolve hp _ _ _⟩
    · exact ⟨_, rfl⟩
    · exact ⟨e, by rw [hp]; rfl⟩
    · exact ⟨e, by rw [hp]; rfl⟩

theorem readShort_of_resolve {e : UsageError} (hp : p.resolve = .error e) (letter : Char)
    (rest : List Char) : ∃ e', level.readShort p (letter :: rest) = .error e' := by
  unfold readShort
  split
  · exact ⟨_, rfl⟩
  · split
    · exact ⟨e, startValue_of_resolve hp _ _ _⟩
    · exact ⟨e, by rw [hp]; rfl⟩
    · exact ⟨e, by rw [hp]; rfl⟩

-- So the missing value can only be a plain word.
theorem read_resolve_of_not_plain (hsub : level.subcommands = []) (hp : p.trailing = false)
    {name : String} {set : String → σ → Except UsageError σ}
    (hpending : p.pending = some ⟨name, set, none⟩) (hword : Word.ofText text ≠ .plain text) :
    ∃ e, ((level.read [text] p).bind fun q => q.1.resolve) = .error e := by
  have hresolve : p.resolve = .error .invalidValue := by rw [Progress.resolve, hpending]
  simp only [read, hp, hsub, List.not_mem_nil, Bool.and_false, decide_false, Bool.false_eq_true,
    if_false]
  cases h : Word.ofText text with
  | escape =>
    refine ⟨.invalidValue, ?_⟩
    simp only [Except.bind, Progress.resolve, hpending]
  | long long attached =>
    obtain ⟨e, he⟩ : ∃ e, level.readLong p long attached = .error e :=
      readLong_of_resolve hresolve long attached
    exact ⟨e, by simp only [he]; rfl⟩
  | short letters =>
    cases letters with
    | nil =>
      refine ⟨.invalidValue, ?_⟩
      simp only [readShort, bind, Except.bind, hresolve]
    | cons letter rest =>
      obtain ⟨e, he⟩ : ∃ e, level.readShort p (letter :: rest) = .error e :=
        readShort_of_resolve hresolve letter rest
      exact ⟨e, by simp only [he]; rfl⟩
  | plain t => exact absurd (h.trans (congrArg Word.plain (Word.eq_of_ofText_plain h))) hword

end Level

namespace Command

-- What is left to do once all words are read.
def finishRun (p : Progress RunSettings) : Except UsageError Command := do
  let p ← p.resolve
  unless p.placed do throw .missingArgument
  match p.settings.path with
  | some path => return .run ⟨path⟩ p.settings
  | none => throw .missingArgument

-- The path was met and is still to be judged.
def pathMet (path : String) : Progress RunSettings :=
  ⟨.standard, [], some ⟨"", fun text s => do return { s with path := some (← readPath text) },
    some path⟩, true, false⟩

def pathTaken (path : String) : Progress RunSettings :=
  ⟨{ RunSettings.standard with path := some path }, [""], none, true, false⟩

theorem readRun_eq {path : String} (hplain : Word.ofText path = .plain path)
    (words : List String) :
    readRun (path :: words) =
      (RunSettings.level.read words (pathMet path)).bind fun q => finishRun q.1 := by
  have hplace : RunSettings.level.place (.start .standard) path = .ok (pathMet path) := rfl
  have hread : RunSettings.level.read (path :: words) (.start .standard) =
      (RunSettings.level.place (.start .standard) path).bind (RunSettings.level.read words) :=
    Level.read_place rfl rfl rfl hplain words
  rw [hplace] at hread
  simp only [readRun, Level.readAll, hread, bind, Except.bind]
  cases RunSettings.level.read words (pathMet path) with
  | error e => rfl
  | ok q =>
    simp only [finishRun, bind, Except.bind]
    cases q.1.resolve with
    | error e => rfl
    | ok r =>
      cases hplaced : r.placed with
      | false =>
        simp only [hplaced, Bool.false_eq_true, if_false]
        rfl
      | true =>
        simp only [hplaced, if_true]
        rfl

theorem resolve_pathMet {path : String} (hpath : path ≠ "") :
    (pathMet path).resolve = .ok (pathTaken path) := by
  simp [pathMet, pathTaken, Progress.resolve, Progress.effect, readPath, hpath, bind, Except.bind,
    pure, Except.pure]

-- The options that take a colour, and where they put it.
def colorOptions : List (String × (Color → Graphics → Graphics)) :=
  [("on-color", fun color g => { g with on := color }),
    ("off-color", fun color g => { g with off := color })]

-- The two ways to give an option of `run` its value.
def spellings (path name text : String) : List (List String) :=
  [["run", path, "--" ++ name ++ "=" ++ text], ["run", path, "--" ++ name, text]]

def runWith (path : String) (put : Graphics → Graphics) : Command :=
  .run ⟨path⟩ ((pathTaken path).settings.editGraphics put)

-- The option was met and its value is still to be judged.
def colorMet (path name : String) (put : Color → Graphics → Graphics) (text : Option String) :
    Progress RunSettings :=
  { pathTaken path with
    pending := some ⟨name, fun text s => do
      return RunSettings.editGraphics (put (← readColor text)) s, text⟩ }

theorem long?_colorOption {name : String} {put : Color → Graphics → Graphics}
    (h : (name, put) ∈ colorOptions) :
    RunSettings.level.long? name =
        some (valued name none readColor fun color => RunSettings.editGraphics (put color)) ∧
      name ≠ "" ∧ '=' ∉ name.toList := by
  simp only [colorOptions, List.mem_cons, Prod.mk.injEq, List.not_mem_nil, or_false] at h
  rcases h with ⟨rfl, rfl⟩ | ⟨rfl, rfl⟩
  · exact ⟨rfl, by decide, by decide⟩
  · exact ⟨rfl, by decide, by decide⟩

theorem finishRun_colorMet {name : String} (hname : name ≠ "") (path : String)
    (put : Color → Graphics → Graphics) (text : String) :
    finishRun (colorMet path name put (some text)) =
      (readColor text).map fun color => runWith path (put color) := by
  simp [finishRun, colorMet, pathTaken, Progress.resolve, Progress.effect, hname, bind,
    Except.bind, pure, Except.pure, runWith]
  cases readColor text <;> rfl

theorem readLong_colorOption {path name : String} {put : Color → Graphics → Graphics}
    (h : (name, put) ∈ colorOptions) (hpath : path ≠ "") (attached : Option String) :
    RunSettings.level.readLong (pathMet path) name attached =
      match attached with
      | some text => (colorMet path name put (some text)).resolve
      | none => .ok (colorMet path name put none) := by
  obtain ⟨hlong, -, -⟩ := long?_colorOption h
  simp only [Level.readLong, hlong, valued, Level.startValue, resolve_pathMet hpath]
  cases attached <;> rfl

-- A value in the same word is judged at once, one in the next word at the end.

theorem read_joined {path name : String} {put : Color → Graphics → Graphics}
    (h : (name, put) ∈ colorOptions) (hplain : Word.ofText path = .plain path) (hpath : path ≠ "")
    (text : String) :
    read ["run", path, "--" ++ name ++ "=" ++ text] =
      (readColor text).map fun color => runWith path (put color) := by
  obtain ⟨-, hne, hequals⟩ := long?_colorOption h
  have hword := Word.ofText_long_value hne hequals text
  rw [read_run, readRun_eq hplain, Level.read_long rfl rfl hword, readLong_colorOption h hpath,
    ← finishRun_colorMet hne path put text]
  simp only [finishRun]
  cases hresolve : (colorMet path name put (some text)).resolve with
  | error e => rfl
  | ok q =>
    have hq := Progress.resolve_of_resolve hresolve
    simp only [Except.bind, Level.read, hq]

theorem read_apart {path name : String} {put : Color → Graphics → Graphics}
    (h : (name, put) ∈ colorOptions) (hplain : Word.ofText path = .plain path) (hpath : path ≠ "")
    {text : String} (htext : Word.ofText text = .plain text) :
    read ["run", path, "--" ++ name, text] =
      (readColor text).map fun color => runWith path (put color) := by
  obtain ⟨-, hne, hequals⟩ := long?_colorOption h
  have hword := Word.ofText_long hne hequals
  rw [read_run, readRun_eq hplain, Level.read_long rfl rfl hword, readLong_colorOption h hpath,
    ← finishRun_colorMet hne path put text]
  simp only [Except.bind]
  rw [Level.read_value rfl rfl rfl htext]
  rfl

theorem read_apart_of_not_plain {path name : String} {put : Color → Graphics → Graphics}
    (h : (name, put) ∈ colorOptions) (hplain : Word.ofText path = .plain path) (hpath : path ≠ "")
    {text : String} (htext : Word.ofText text ≠ .plain text) :
    ∃ e, read ["run", path, "--" ++ name, text] = .error e := by
  obtain ⟨-, hne, hequals⟩ := long?_colorOption h
  have hword := Word.ofText_long hne hequals
  rw [read_run, readRun_eq hplain, Level.read_long rfl rfl hword, readLong_colorOption h hpath]
  obtain ⟨e, he⟩ : ∃ e, ((RunSettings.level.read [text] (colorMet path name put none)).bind
      fun q => q.1.resolve) = .error e :=
    Level.read_resolve_of_not_plain rfl rfl rfl htext
  simp only [Except.bind] at he ⊢
  cases hread : RunSettings.level.read [text] (colorMet path name put none) with
  | error e => exact ⟨e, rfl⟩
  | ok q =>
    rw [hread] at he
    refine ⟨e, ?_⟩
    simp only [finishRun, he]
    rfl

-- An option takes a text, in either spelling, just where the text is a colour.
theorem read_spelling {path name : String} {put : Color → Graphics → Graphics}
    (h : (name, put) ∈ colorOptions) (hplain : Word.ofText path = .plain path) (hpath : path ≠ "")
    {text : String} {words : List String} (hwords : words ∈ spellings path name text)
    (command : Command) :
    read words = .ok command ↔
      ∃ color, Color.ofText? text = some color ∧ command = runWith path (put color) := by
  have hvalue : (readColor text).map (fun color => runWith path (put color)) = .ok command ↔
      ∃ color, Color.ofText? text = some color ∧ command = runWith path (put color) := by
    rw [readColor]
    cases Color.ofText? text <;> simp [Except.map, eq_comm]
  simp only [spellings, List.mem_cons, List.not_mem_nil, or_false] at hwords
  rcases hwords with rfl | rfl
  · rw [read_joined h hplain hpath, hvalue]
  · by_cases htext : Word.ofText text = .plain text
    · rw [read_apart h hplain hpath htext, hvalue]
    · obtain ⟨e, he⟩ := read_apart_of_not_plain h hplain hpath htext
      rw [he]
      constructor
      · intro hok
        cases hok
      · rintro ⟨color, hcolor, -⟩
        exact absurd (Word.ofText_of_color hcolor) htext

end Command

-- What is read as a colour, and what the options for colours take, is `RRGGBB` or `RRGGBBAA` with
-- or without one `#` in front. The one exception are texts with a plus sign in place of the first
-- digit.
theorem color_iff_written_or_signed (text : String) :
    (∀ c, Color.ofText? text = some c ↔
      Color.Written text.toList c ∨ Color.WrittenSigned text.toList c) ∧
      ((∀ c, Color.ofText? text = some c ↔ Color.Written text.toList c) ↔
        ∀ c, ¬ Color.WrittenSigned text.toList c) ∧
      ∀ path, Word.ofText path = .plain path → path ≠ "" →
        ∀ option ∈ Command.colorOptions, ∀ words ∈ Command.spellings path option.1 text,
          ∀ command, Command.read words = .ok command ↔
            ∃ c, (Color.Written text.toList c ∨ Color.WrittenSigned text.toList c) ∧
              command = Command.runWith path (option.2 c) := by
  have hread := Color.ofText?_eq_some_iff text
  refine ⟨hread, ?_, ?_⟩
  · constructor
    · intro hwritten c hsigned
      exact hsigned.not_written c ((hwritten c).mp ((hread c).mpr (.inr hsigned)))
    · intro hunsigned c
      rw [hread, or_iff_left (hunsigned c)]
  · intro path hplain hpath option hoption words hwords command
    simp only [Command.read_spelling hoption hplain hpath hwords, hread]

-- Eight digits of either case behind a mark, and none of them is left out.
theorem unlit_color_set :
    Word.ofText "game.ch8" = .plain "game.ch8" ∧ "game.ch8" ≠ "" ∧
      Color.ofText? "#1f2E3d40" = some ⟨0x1F, 0x2E, 0x3D, 0x40⟩ ∧
      Command.read ["run", "game.ch8", "--off-color", "#1f2E3d40"] =
        .ok (Command.runWith "game.ch8" ({ · with off := ⟨0x1F, 0x2E, 0x3D, 0x40⟩ })) := by
  have hplain : Word.ofText "game.ch8" = .plain "game.ch8" := by decide +kernel
  have hpath : "game.ch8" ≠ "" := by decide
  obtain ⟨hread, -, hoptions⟩ := color_iff_written_or_signed "#1f2E3d40"
  have hwritten : Color.Written "#1f2E3d40".toList ⟨0x1F, 0x2E, 0x3D, 0x40⟩ :=
    .inr ⟨"1f2E3d40".toList, by decide +kernel, [1, 15, 2, 14, 3, 13, 4, 0], by decide +kernel,
      .inr ⟨rfl, by decide⟩⟩
  have hspelled : ["run", "game.ch8", "--off-color", "#1f2E3d40"] ∈
      Command.spellings "game.ch8" "off-color" "#1f2E3d40" := by simp [Command.spellings]
  exact ⟨hplain, hpath, (hread _).mpr (.inl hwritten),
    (hoptions _ hplain hpath _ (List.mem_cons_of_mem _ List.mem_cons_self) _ hspelled _).mpr
      ⟨_, .inl hwritten, rfl⟩⟩

-- A plus sign and five digits pass for six digits, of which the first is zero.
theorem signed_text_read :
    Color.ofText? "+12345" = some ⟨0x01, 0x23, 0x45, 0xFF⟩ ∧
      ∀ c, ¬ Color.Written "+12345".toList c := by
  have hsigned : Color.WrittenSigned "+12345".toList ⟨0x01, 0x23, 0x45, 0xFF⟩ :=
    ⟨"12345".toList, .inl (by decide +kernel), [0, 1, 2, 3, 4, 5], by decide +kernel,
      .inl ⟨rfl, by decide⟩⟩
  exact ⟨(Color.ofText?_eq_some_iff _ _).mpr (.inr hsigned), hsigned.not_written⟩

end Chip8.CommandLine
