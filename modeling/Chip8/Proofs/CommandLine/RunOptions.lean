import Mathlib.Data.List.Nodup
import Chip8.Proofs.CommandLine.Reading

namespace Chip8.CommandLine

inductive RunOption
  | ips
  | uncap
  | seed
  | schip
  | jumpVx
  | wrapX
  | wrapY
  | vfReset
  | shiftVx
  | keepI
  | lores8x16
  | onColor
  | offColor
  | scale
  | grid
  | fade
  | fadeSpeed
  | mute
  | layout
deriving DecidableEq

namespace RunOption

def all : List RunOption :=
  [ips, uncap, seed, schip, jumpVx, wrapX, wrapY, vfReset, shiftVx, keepI, lores8x16, onColor,
    offColor, scale, grid, fade, fadeSpeed, mute, layout]

def name : RunOption → String
  | ips => "ips"
  | uncap => "uncap"
  | seed => "seed"
  | schip => "schip"
  | jumpVx => "jump-vx"
  | wrapX => "wrap-x"
  | wrapY => "wrap-y"
  | vfReset => "vf-reset"
  | shiftVx => "shift-vx"
  | keepI => "keep-i"
  | lores8x16 => "lores-8x16"
  | onColor => "on-color"
  | offColor => "off-color"
  | scale => "scale"
  | grid => "grid"
  | fade => "fade"
  | fadeSpeed => "fade-speed"
  | mute => "mute"
  | layout => "layout"

def isFlag : RunOption → Bool
  | ips | seed | onColor | offColor | scale | fadeSpeed | layout => false
  | _ => true

-- What an option is given. A flag is there or not.
abbrev Value : RunOption → Type
  | ips => UInt32
  | seed => UInt64
  | onColor | offColor => Color
  | scale => { n : Nat // 1 ≤ n ∧ n ≤ 255 }
  | fadeSpeed => UInt8
  | layout => Layout
  | _ => Unit

-- How a value is written. A flag has no text.
def Spells : (o : RunOption) → String → o.Value → Prop
  | ips, text, n => Text.Integer.Spells text.toList (UInt32.toNat n)
  | seed, text, n => Text.Integer.Spells text.toList (UInt64.toNat n)
  | onColor, text, color | offColor, text, color => Color.Written text.toList color
  | scale, text, n => Text.Integer.Spells text.toList n.val
  | fadeSpeed, text, n => Text.Integer.Spells text.toList (UInt8.toNat n)
  | layout, text, .literal => text = "original"
  | layout, text, .modern => text = "modern"
  | _, _, _ => False

-- The words that give an option.
inductive Gives (o : RunOption) (v : o.Value) : List String → Prop
  | flag : o.isFlag = true → Gives o v ["--" ++ o.name]
  | apart {text : String} : o.Spells text v → Gives o v ["--" ++ o.name, text]
  | joined {text : String} : o.Spells text v → Gives o v ["--" ++ o.name ++ "=" ++ text]

theorem mem_all (o : RunOption) : o ∈ all := by cases o <;> decide

theorem name_injective : Function.Injective name := by
  have hnodup : (all.map name).Nodup := by decide
  intro o o' h
  exact List.inj_on_of_nodup_map hnodup (mem_all o) (mem_all o') h

theorem name_ne_empty (o : RunOption) : o.name ≠ "" := by cases o <;> decide

theorem equals_not_mem_name (o : RunOption) : '=' ∉ o.name.toList := by cases o <;> decide

end RunOption

-- For each option the value that it is given, if it is.
abbrev RunChoices : Type := (o : RunOption) → Option o.Value

namespace RunChoices

-- The standard configuration, where each option that is given changes its own field.
def config (a : RunChoices) (clock : UInt64) : Config :=
  let standard := Config.standard clock
  { processor := { standard.processor with
      cyclesPerSecond := (a .ips).getD standard.processor.cyclesPerSecond
      uncapped := (a .uncap).elim standard.processor.uncapped fun _ => true
      seed := (a .seed).getD standard.processor.seed }
    graphics :=
      { on := (a .onColor).getD standard.graphics.on
        off := (a .offColor).getD standard.graphics.off
        scale := (a .scale).elim standard.graphics.scale Subtype.val
        grid := (a .grid).elim standard.graphics.grid fun _ => true
        fade := (a .fade).elim standard.graphics.fade fun _ => true
        fadeSpeed := (a .fadeSpeed).getD standard.graphics.fadeSpeed }
    sound := { standard.sound with
      enabled := (a .mute).elim standard.sound.enabled fun _ => false }
    layout := (a .layout).getD standard.layout
    dialect :=
      { jumpFromV0 := (a .jumpVx).elim standard.dialect.jumpFromV0 fun _ => false
        horizontal := (a .wrapX).elim standard.dialect.horizontal fun _ => .wrap
        vertical := (a .wrapY).elim standard.dialect.vertical fun _ => .wrap
        logicClearsFlag := (a .vfReset).elim standard.dialect.logicClearsFlag fun _ => true
        shiftCopiesY := (a .shiftVx).elim standard.dialect.shiftCopiesY fun _ => false
        transferAdvances := (a .keepI).elim standard.dialect.transferAdvances fun _ => false
        narrowTallSprite := (a .lores8x16).elim standard.dialect.narrowTallSprite fun _ => true }
    instructionSet := (a .schip).elim standard.instructionSet fun _ => .superChip }

-- What the words for the options of `order` are, one after another.
inductive Row (a : RunChoices) : List RunOption → List String → Prop
  | nil : Row a [] []
  | cons {o : RunOption} {v : o.Value} {order : List RunOption} {words rest : List String} :
      a o = some v → o.Gives v words → Row a order rest → Row a (o :: order) (words ++ rest)

-- The words for some options, the path, and the words for some more.
def Writes (a : RunChoices) (path : String) (before after : List RunOption)
    (words : List String) : Prop :=
  ∃ front back, a.Row before front ∧ a.Row after back ∧ words = front ++ path :: back

-- The options of a list only.
def only (a : RunChoices) (given : List RunOption) : RunChoices :=
  fun o => if o ∈ given then a o else none

-- The settings once the options are read, and the path if it was met. Words put no seed into the
-- configuration itself.
def settings (a : RunChoices) (path : Option String) : RunSettings :=
  let c := a.config 0
  ⟨path, { c with processor := { c.processor with seed := 0 } }, a .seed, none⟩

-- What has been read of the options and of the path, with nothing left to be judged.
def reached (a : RunChoices) (path : Option String) (given : List String) :
    Progress RunSettings :=
  ⟨a.settings path, given, none, path.isSome, false⟩

theorem configAt_settings (a : RunChoices) (path : Option String) (clock : UInt64) :
    (a.settings path).configAt clock = a.config clock := rfl

theorem reached_only_nil (a : RunChoices) : (a.only []).reached none [] = .start .standard := rfl

theorem update_only {a : RunChoices} {o : RunOption} {v : o.Value} (h : a o = some v)
    (given : List RunOption) :
    Function.update (a.only given) o (some v) = a.only (o :: given) := by
  funext o'
  by_cases ho : o' = o
  · subst ho
    simp [only, h]
  · simp [only, ho]

theorem only_eq_self {a : RunChoices} {given : List RunOption}
    (h : ∀ o, (a o).isSome = true → o ∈ given) : a.only given = a := by
  funext o
  simp only [only]
  split
  case isTrue => rfl
  case isFalse ho => exact (Option.not_isSome_iff_eq_none.mp fun hsome => ho (h o hsome)).symm

end RunChoices

theorem readLayout_of_spells {text : String} {l : Layout}
    (h : RunOption.Spells .layout text l) : readOneOf layouts text = .ok l := by
  cases l with
  | literal => rw [show text = "original" from h]; rfl
  | modern => rw [show text = "modern" from h]; rfl

namespace RunOption

open RunChoices

variable {o : RunOption}

theorem long?_flag (hflag : o.isFlag = true) :
    ∃ set : RunSettings → RunSettings,
      RunSettings.level.long? o.name = some ⟨o.name, none, .flag set⟩ ∧
        ∀ (a : RunChoices) (v : o.Value) (path : Option String),
          set (a.settings path) = settings (Function.update a o (some v)) path := by
  cases o with
  | ips | seed | onColor | offColor | scale | fadeSpeed | layout => cases hflag
  | _ => exact ⟨_, rfl, fun _ _ _ => rfl⟩

-- An option carries a value, and a text of it is taken for that value.
def Accepts (o : RunOption) (text : String) (v : o.Value) : Prop :=
  ∃ set : String → RunSettings → Except UsageError RunSettings,
    RunSettings.level.long? o.name = some ⟨o.name, none, .value set⟩ ∧
      ∀ (a : RunChoices) (path : Option String),
        set text (a.settings path) = .ok (settings (Function.update a o (some v)) path)

theorem accepts_of_valued {α : Type} {read : String → Except UsageError α}
    {put : α → RunSettings → RunSettings} {text : String} {x : α} {v : o.Value}
    (hlong : RunSettings.level.long? o.name = some (valued o.name none read put))
    (hread : read text = .ok x)
    (hput : ∀ (a : RunChoices) (path : Option String),
      put x (a.settings path) = settings (Function.update a o (some v)) path) :
    o.Accepts text v := by
  refine ⟨_, hlong, fun a path => ?_⟩
  simp only [hread]
  exact congrArg Except.ok (hput a path)

theorem accepts_of_spells {text : String} {v : o.Value} (h : o.Spells text v) :
    o.Accepts text v := by
  cases o with
  | ips =>
    have hread : readNumber 0 (UInt32.size - 1) text = .ok (UInt32.toNat v) :=
      readNumber_of_spells h (Nat.zero_le _) (Nat.le_pred_of_lt (UInt32.toNat_lt_size v))
    refine accepts_of_valued rfl hread fun a path => ?_
    rw [UInt32.ofNat_toNat]
    rfl
  | seed =>
    have hread : readSeed text = .ok v := readSeed_of_spells h
    exact accepts_of_valued rfl hread fun _ _ => rfl
  | onColor | offColor =>
    have hread : readColor text = .ok v := readColor_of_written h
    exact accepts_of_valued rfl hread fun _ _ => rfl
  | scale =>
    have hread : readNumber 1 255 text = .ok v.val :=
      readNumber_of_spells h v.property.1 v.property.2
    exact accepts_of_valued rfl hread fun _ _ => rfl
  | fadeSpeed =>
    have hread : readNumber 0 255 text = .ok (UInt8.toNat v) :=
      readNumber_of_spells h (Nat.zero_le _) (Nat.le_of_lt_succ (UInt8.toNat_lt v))
    refine accepts_of_valued rfl hread fun a path => ?_
    rw [UInt8.ofNat_toNat]
    rfl
  | layout =>
    have hread : readOneOf layouts text = .ok v := readLayout_of_spells h
    exact accepts_of_valued rfl hread fun _ _ => rfl
  | _ => cases h

-- No value starts like an option.
theorem ofText_of_spells {text : String} {v : o.Value} (h : o.Spells text v) :
    Word.ofText text = .plain text := by
  cases o with
  | ips | seed | scale | fadeSpeed => exact Word.ofText_of_numeral h
  | onColor | offColor => exact Word.ofText_of_color ((Color.ofText?_eq_some_iff _ _).mpr (.inl h))
  | layout =>
    cases v with
    | literal =>
      subst h
      decide +kernel
    | modern =>
      subst h
      decide +kernel
  | _ => cases h

-- There is no value that cannot be given.

theorem exists_spells_or_flag (v : o.Value) : o.isFlag = true ∨ ∃ text, o.Spells text v := by
  cases o with
  | ips | seed | scale | fadeSpeed => exact .inr (Text.Integer.exists_spells _)
  | onColor | offColor => exact .inr (Color.exists_written v)
  | layout =>
    cases v with
    | literal => exact .inr ⟨"original", rfl⟩
    | modern => exact .inr ⟨"modern", rfl⟩
  | _ => exact .inl rfl

theorem exists_gives (v : o.Value) : ∃ words, o.Gives v words := by
  rcases exists_spells_or_flag v with hflag | ⟨text, hspells⟩
  · exact ⟨_, .flag hflag⟩
  · exact ⟨_, .joined hspells⟩

theorem Gives.leads {v : o.Value} {words : List String} (h : o.Gives v words) (a : RunChoices)
    (path : Option String) {given : List String} (hnew : o.name ∉ given) :
    RunSettings.level.Leads words (a.reached path given)
      (reached (Function.update a o (some v)) path (o.name :: given)) := by
  have hne := o.name_ne_empty
  have hequals := o.equals_not_mem_name
  cases h with
  | flag hflag =>
    obtain ⟨set, hlong, hset⟩ := long?_flag hflag
    have hleads : RunSettings.level.Leads ["--" ++ o.name] (a.reached path given)
        ((a.reached path given).taking o.name (set (a.settings path))) :=
      Level.Leads.flag rfl rfl hne hequals hnew hlong
    rwa [hset a v path] at hleads
  | apart hspells =>
    obtain ⟨set, hlong, hset⟩ := accepts_of_spells hspells
    have htext := ofText_of_spells hspells
    exact Level.Leads.apart rfl rfl hne hequals hnew hlong htext (hset a path)
  | joined hspells =>
    obtain ⟨set, hlong, hset⟩ := accepts_of_spells hspells
    exact Level.Leads.joined rfl rfl hne hequals hnew hlong (hset a path)

end RunOption

namespace RunChoices

-- One option after another takes effect, which the names of those before do not hinder.
theorem Row.leads {a : RunChoices} {order : List RunOption} {words : List String}
    (h : a.Row order words) (path : Option String) (done : List RunOption) (given : List String)
    (hnodup : order.Nodup) (hnew : ∀ o ∈ order, o.name ∉ given) :
    RunSettings.level.Leads words ((a.only done).reached path given)
      ((a.only (order.reverse ++ done)).reached path
        (order.reverse.map RunOption.name ++ given)) := by
  induction h generalizing done given with
  | nil => exact .nil
  | @cons o v order words rest hv hgives hrow ih =>
    obtain ⟨ho, hnodup⟩ := List.nodup_cons.mp hnodup
    obtain ⟨hnewOne, hnewRest⟩ := List.forall_mem_cons.mp hnew
    have hstep := hgives.leads (a.only done) path hnewOne
    rw [update_only hv] at hstep
    have hnames : ∀ o' ∈ order, o'.name ∉ o.name :: given := by
      intro o' ho'
      have hne : o'.name ≠ o.name := fun heq => ho (RunOption.name_injective heq ▸ ho')
      exact List.not_mem_cons_of_ne_of_not_mem hne (hnewRest o' ho')
    have hrest := ih (o :: done) (o.name :: given) hnodup hnames
    simpa using hstep.append hrest

theorem leads_path (a : RunChoices) {path : String} (hne : path ≠ "")
    (hplain : Word.ofText path = .plain path) {given : List String} (hnew : "" ∉ given) :
    RunSettings.level.Leads [path] (a.reached none given)
      (a.reached (some path) ("" :: given)) := by
  have hread : readPath path = .ok path := by simp [readPath, hne]
  have hset : (do return { a.settings none with path := some (← readPath path) }) =
      (.ok (a.settings (some path)) : Except UsageError RunSettings) := by
    rw [hread]
    rfl
  exact Level.Leads.place rfl rfl rfl rfl hnew hplain hset

theorem exists_row (a : RunChoices) {order : List RunOption}
    (h : ∀ o ∈ order, (a o).isSome = true) : ∃ words, a.Row order words := by
  induction order with
  | nil => exact ⟨[], .nil⟩
  | cons o order ih =>
    obtain ⟨ho, horder⟩ := List.forall_mem_cons.mp h
    obtain ⟨v, hv⟩ := Option.isSome_iff_exists.mp ho
    obtain ⟨words, hwords⟩ := RunOption.exists_gives v
    obtain ⟨rest, hrest⟩ := ih horder
    exact ⟨words ++ rest, .cons hv hwords hrest⟩

theorem read_of_writes {a : RunChoices} {path : String} (hne : path ≠ "")
    (hplain : Word.ofText path = .plain path) {before after : List RunOption}
    (hnodup : (before ++ after).Nodup) (hgiven : ∀ o, (a o).isSome = true → o ∈ before ++ after)
    {words : List String} (h : a.Writes path before after words) :
    Command.read ("run" :: words) = .ok (.run ⟨path⟩ (a.settings (some path))) := by
  obtain ⟨front, back, hfront, hback, rfl⟩ := h
  obtain ⟨hbefore, hafter, hdisjoint⟩ := List.nodup_append.mp hnodup
  have hempty : "" ∉ before.reverse.map RunOption.name := by
    simpa using fun o _ => o.name_ne_empty
  have hnames : ∀ o ∈ after, o.name ∉ "" :: before.reverse.map RunOption.name := by
    intro o ho hmem
    simp only [List.mem_cons, o.name_ne_empty, false_or, List.mem_map, List.mem_reverse] at hmem
    obtain ⟨o', ho', heq⟩ := hmem
    exact hdisjoint o' ho' o ho (RunOption.name_injective heq)
  have hleadsFront := hfront.leads none [] [] hbefore (by simp)
  rw [List.append_nil, List.append_nil] at hleadsFront
  have hleadsPath := leads_path (a.only before.reverse) hne hplain hempty
  have hleadsBack := hback.leads (some path) before.reverse _ hafter hnames
  have hall : a.only (after.reverse ++ before.reverse) = a :=
    only_eq_self fun o ho => by simpa [or_comm] using hgiven o ho
  have hleads := (hleadsFront.append hleadsPath).append hleadsBack
  rw [reached_only_nil, hall, List.append_assoc, List.singleton_append] at hleads
  have hsettings : RunSettings.level.readAll (front ++ path :: back) .standard =
      .ok (a.settings (some path)) := Level.readAll_of_leads hleads rfl
  rw [Command.read_run]
  simp only [Command.readRun, hsettings, bind, Except.bind]
  rfl

end RunChoices

-- Any values of any options can be given, in any order and with the path at any place among them.
-- However they are written, `run` reads them, and its configuration is the standard one with the
-- field of each option that is given changed.
theorem choices_configure_in_any_order (a : RunChoices) (path : String) (hne : path ≠ "")
    (hdash : path.toList.head? ≠ some '-') (before after : List RunOption)
    (hnodup : (before ++ after).Nodup)
    (hgiven : ∀ o, o ∈ before ++ after ↔ (a o).isSome = true) :
    (∃ words, a.Writes path before after words) ∧
      ∀ words, a.Writes path before after words →
        ∃ settings, Command.read ("run" :: words) = .ok (.run ⟨path⟩ settings) ∧
          settings.seed = a .seed ∧ ∀ clock, settings.configAt clock = a.config clock := by
  have hplain : Word.ofText path = .plain path := by
    refine (Word.ofText_plain_or path).resolve_right ?_
    rintro ⟨rest, hrest⟩
    simp [hrest] at hdash
  constructor
  · have hsome : ∀ o ∈ before ++ after, (a o).isSome = true := fun o ho => (hgiven o).mp ho
    obtain ⟨hbefore, hafter⟩ := List.forall_mem_append.mp hsome
    obtain ⟨front, hfront⟩ := a.exists_row hbefore
    obtain ⟨back, hback⟩ := a.exists_row hafter
    exact ⟨front ++ path :: back, front, back, hfront, hback, rfl⟩
  · intro words hwords
    exact ⟨a.settings (some path),
      RunChoices.read_of_writes hne hplain hnodup (fun o => (hgiven o).mpr) hwords, rfl,
      a.configAt_settings (some path)⟩

-- Six options, some with a value and some without.
def tunedChoices : RunChoices
  | .scale => some ⟨8, by decide⟩
  | .jumpVx => some ()
  | .onColor => some ⟨0x33, 0xFF, 0x66, 0xFF⟩
  | .seed => some 7
  | .mute => some ()
  | .layout => some .literal
  | _ => none

-- Two of them stand before the path and four behind it.
def tunedBefore : List RunOption := [.scale, .jumpVx]

def tunedAfter : List RunOption := [.onColor, .seed, .mute, .layout]

theorem tuned_run_configured :
    "game.ch8" ≠ "" ∧ "game.ch8".toList.head? ≠ some '-' ∧ (tunedBefore ++ tunedAfter).Nodup ∧
      (∀ o, o ∈ tunedBefore ++ tunedAfter ↔ (tunedChoices o).isSome = true) ∧
      ∃ settings,
        Command.read ["run", "--scale=8", "--jump-vx", "game.ch8", "--on-color", "33ff66",
          "--seed", "007", "--mute", "--layout=original"] = .ok (.run ⟨"game.ch8"⟩ settings) ∧
        settings.seed = some 7 ∧
        ∀ clock, settings.configAt clock =
          { Config.standard 7 with
            graphics := { Graphics.standard with scale := 8, on := ⟨0x33, 0xFF, 0x66, 0xFF⟩ }
            sound := { Sound.standard with enabled := false }
            layout := .literal
            dialect := { Dialect.standard with jumpFromV0 := false } } := by
  have hne : "game.ch8" ≠ "" := by decide
  have hdash : "game.ch8".toList.head? ≠ some '-' := by decide +kernel
  have hnodup : (tunedBefore ++ tunedAfter).Nodup := by decide
  have hgiven : ∀ o, o ∈ tunedBefore ++ tunedAfter ↔ (tunedChoices o).isSome = true := by
    intro o
    cases o <;> decide
  have hscale : RunOption.scale.Spells "8" ⟨8, by decide⟩ :=
    ⟨[8], by decide, by decide, by decide +kernel, rfl⟩
  have hcolor : RunOption.onColor.Spells "33ff66" ⟨0x33, 0xFF, 0x66, 0xFF⟩ :=
    .inl ⟨[3, 3, 15, 15, 6, 6], by decide +kernel, .inl ⟨rfl, by decide⟩⟩
  have hseed : RunOption.seed.Spells "007" 7 :=
    ⟨[0, 0, 7], by decide, by decide, by decide +kernel, by decide⟩
  have hlayout : RunOption.layout.Spells "original" .literal := rfl
  have hbefore : tunedChoices.Row tunedBefore ["--scale=8", "--jump-vx"] :=
    .cons rfl (.joined hscale) (.cons rfl (.flag rfl) .nil)
  have hafter : tunedChoices.Row tunedAfter
      ["--on-color", "33ff66", "--seed", "007", "--mute", "--layout=original"] :=
    .cons rfl (.apart hcolor) (.cons rfl (.apart hseed) (.cons rfl (.flag rfl)
      (.cons rfl (.joined hlayout) .nil)))
  exact ⟨hne, hdash, hnodup, hgiven,
    (choices_configure_in_any_order tunedChoices "game.ch8" hne hdash tunedBefore tunedAfter hnodup
      hgiven).2 _ ⟨_, _, hbefore, hafter, rfl⟩⟩

-- Where nothing is given nothing changes.
example (clock : UInt64) : RunChoices.config (fun _ => none) clock = .standard clock := rfl

end Chip8.CommandLine
