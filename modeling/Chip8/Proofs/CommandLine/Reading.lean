import Chip8.CommandLine.Command
import Chip8.Proofs.Color.Text
import Chip8.Proofs.Text.Integer

namespace Chip8.CommandLine

theorem bne_equals_of_not_mem {cs : List Char} (h : '=' ∉ cs) : ∀ c ∈ cs, (c != '=') = true := by
  intro c hc
  simpa using fun heq : c = '=' => h (heq ▸ hc)

theorem splitEquals_append {name : List Char} (hname : '=' ∉ name) (value : List Char) :
    splitEquals (name ++ '=' :: value) = (String.ofList name, some (String.ofList value)) := by
  have hne := bne_equals_of_not_mem hname
  have hdrop : (name ++ '=' :: value).dropWhile (· != '=') = '=' :: value := by
    rw [List.dropWhile_append_of_pos hne]
    rfl
  have htake : (name ++ '=' :: value).takeWhile (· != '=') = name := by
    rw [List.takeWhile_append_of_pos hne]
    simp
  simp [splitEquals, hdrop, htake]

theorem splitEquals_of_not_mem {name : List Char} (hname : '=' ∉ name) :
    splitEquals name = (String.ofList name, none) := by
  have hdrop : name.dropWhile (· != '=') = [] := by
    rw [← List.append_nil name, List.dropWhile_append_of_pos (bne_equals_of_not_mem hname)]
    rfl
  simp [splitEquals, hdrop]

namespace Word

theorem ofText_long {name : String} (hne : name ≠ "") (hname : '=' ∉ name.toList) :
    ofText ("--" ++ name) = .long name none := by
  obtain ⟨c, rest, hc⟩ := List.exists_cons_of_ne_nil (show name.toList ≠ [] by simpa using hne)
  have hsplit := splitEquals_of_not_mem hname
  rw [String.ofList_toList, hc] at hsplit
  simp [ofText, hc, hsplit]

theorem ofText_long_value {name : String} (hne : name ≠ "") (hname : '=' ∉ name.toList)
    (value : String) : ofText ("--" ++ name ++ "=" ++ value) = .long name (some value) := by
  obtain ⟨c, rest, hc⟩ := List.exists_cons_of_ne_nil (show name.toList ≠ [] by simpa using hne)
  have hsplit := splitEquals_append hname value.toList
  rw [String.ofList_toList, String.ofList_toList, hc, List.cons_append] at hsplit
  simp [ofText, hc, hsplit]

theorem eq_of_ofText_plain {text t : String} (h : ofText text = .plain t) : t = text := by
  unfold ofText at h
  split at h <;> simp_all

theorem ofText_plain_or (text : String) :
    ofText text = .plain text ∨ ∃ rest, text.toList = '-' :: rest := by
  unfold ofText
  split <;> simp_all

end Word

namespace Progress

variable {σ : Type} {p q : Progress σ} {name : String}

-- A parameter has taken effect and left some settings.
def taking (p : Progress σ) (name : String) (settings : σ) : Progress σ :=
  { p with settings, given := name :: p.given }

theorem effect_of_not_mem {set : σ → Except UsageError σ} {s : σ} (hnew : name ∉ p.given)
    (hset : set p.settings = .ok s) : p.effect name set = .ok (p.taking name s) := by
  simp only [effect, hnew, if_false, hset]
  rfl

theorem effect_inv {set : σ → Except UsageError σ} (h : p.effect name set = .ok q) :
    ∃ s, q = p.taking name s := by
  simp only [effect, bind, Except.bind, pure, Except.pure] at h
  split at h
  · cases h
  · split at h
    · cases h
    · cases h
      exact ⟨_, rfl⟩

theorem resolve_of_pending (h : p.pending = none) : p.resolve = .ok p := by rw [resolve, h]

-- What is pending comes to its end with a value only, and nothing is pending then.
theorem resolve_inv (h : p.resolve = .ok q) :
    p.awaitsValue = false ∧ q.pending = none ∧ q.placed = p.placed ∧ q.trailing = p.trailing := by
  unfold resolve at h
  split at h
  case h_1 hp =>
    cases h
    exact ⟨by simp [awaitsValue, hp], hp, rfl, rfl⟩
  case h_2 pending hp =>
    split at h
    case h_1 => cases h
    case h_2 value hvalue =>
      obtain ⟨s, rfl⟩ := effect_inv h
      exact ⟨by simp [awaitsValue, hp, hvalue], rfl, rfl, rfl⟩

theorem resolve_of_resolve (h : p.resolve = .ok q) : q.resolve = .ok q :=
  resolve_of_pending (resolve_inv h).2.1

end Progress

namespace Level

variable {σ : Type} {level : Level σ} {p : Progress σ} {text : String}

theorem read_long (hsub : level.subcommands = []) (hp : p.trailing = false) {name : String}
    {attached : Option String} (hword : Word.ofText text = .long name attached)
    (rest : List String) :
    level.read (text :: rest) p = (level.readLong p name attached).bind (level.read rest) := by
  simp only [read, hp, hsub, hword, List.not_mem_nil, decide_false, Bool.and_false,
    Bool.false_eq_true, if_false]
  rfl

theorem read_value (hsub : level.subcommands = []) (hp : p.trailing = false)
    {name : String} {set : String → σ → Except UsageError σ}
    (hpending : p.pending = some ⟨name, set, none⟩) (hword : Word.ofText text = .plain text)
    (rest : List String) :
    level.read (text :: rest) p =
      level.read rest { p with pending := some ⟨name, set, some text⟩ } := by
  simp only [read, hp, hsub, hword, hpending, List.not_mem_nil, Bool.and_false, decide_false,
    Bool.false_eq_true, if_false]

theorem read_place (hsub : level.subcommands = []) (hp : p.trailing = false)
    (hpending : p.awaitsValue = false) (hword : Word.ofText text = .plain text)
    (rest : List String) :
    level.read (text :: rest) p = (level.place p text).bind (level.read rest) := by
  simp only [read, hp, hsub, hword, List.not_mem_nil, Bool.and_false, decide_false,
    Bool.false_eq_true, if_false]
  split
  case h_1 h => simp [Progress.awaitsValue, h] at hpending
  case h_2 => rfl

-- From wherever what was read comes to `q`, the words lead to where it comes to `q'`. The last
-- value may be pending before and after.
def Leads (level : Level σ) (words : List String) (q q' : Progress σ) : Prop :=
  ∀ p, p.resolve = .ok q →
    ∃ p', p'.resolve = .ok q' ∧ ∀ rest, level.read (words ++ rest) p = level.read rest p'

namespace Leads

variable {q q' q'' : Progress σ} {words words' : List String}

theorem nil : level.Leads [] q q := fun p hp => ⟨p, hp, fun _ => rfl⟩

theorem append (h : level.Leads words q q') (h' : level.Leads words' q' q'') :
    level.Leads (words ++ words') q q'' := by
  intro p hp
  obtain ⟨p', hp', hread⟩ := h p hp
  obtain ⟨p'', hp'', hread'⟩ := h' p' hp'
  exact ⟨p'', hp'', fun rest => by rw [List.append_assoc, hread, hread']⟩

section Parameters

variable {name text : String} {s : σ} {set : String → σ → Except UsageError σ}
variable (hsub : level.subcommands = []) (htrailing : q.trailing = false)

include hsub htrailing

section Options

variable {letter : Option Char}
variable (hne : name ≠ "") (hname : '=' ∉ name.toList) (hnew : name ∉ q.given)

include hne hname hnew

theorem flag {set : σ → σ} (hlong : level.long? name = some ⟨name, letter, .flag set⟩) :
    level.Leads ["--" ++ name] q (q.taking name (set q.settings)) := by
  intro p hp
  obtain ⟨-, hnone, -, htrail⟩ := Progress.resolve_inv hp
  refine ⟨q.taking name (set q.settings), Progress.resolve_of_pending hnone, fun rest => ?_⟩
  have hword := Word.ofText_long hne hname
  have heffect : q.effect name (fun s => .ok (set s)) = .ok (q.taking name (set q.settings)) :=
    Progress.effect_of_not_mem hnew rfl
  have hlong' : level.readLong p name none = .ok (q.taking name (set q.settings)) := by
    simp only [readLong, hlong, hp, bind, Except.bind, heffect]
  rw [List.singleton_append, read_long hsub (htrail ▸ htrailing) hword, hlong']
  rfl

theorem joined (hlong : level.long? name = some ⟨name, letter, .value set⟩)
    (hset : set text q.settings = .ok s) :
    level.Leads ["--" ++ name ++ "=" ++ text] q (q.taking name s) := by
  intro p hp
  obtain ⟨-, hnone, -, htrail⟩ := Progress.resolve_inv hp
  refine ⟨q.taking name s, Progress.resolve_of_pending hnone, fun rest => ?_⟩
  have hword := Word.ofText_long_value hne hname text
  have heffect : q.effect name (set text) = .ok (q.taking name s) :=
    Progress.effect_of_not_mem hnew hset
  have hlong' : level.readLong p name (some text) = .ok (q.taking name s) := by
    simp only [readLong, hlong, startValue, hp, bind, Except.bind, heffect]
  rw [List.singleton_append, read_long hsub (htrail ▸ htrailing) hword, hlong']
  rfl

-- A value in a word of its own stays pending.
theorem apart (hlong : level.long? name = some ⟨name, letter, .value set⟩)
    (htext : Word.ofText text = .plain text) (hset : set text q.settings = .ok s) :
    level.Leads ["--" ++ name, text] q (q.taking name s) := by
  intro p hp
  obtain ⟨-, hnone, -, htrail⟩ := Progress.resolve_inv hp
  have hclear : { q with pending := none } = q := by rw [← hnone]
  have heffect : q.effect name (set text) = .ok (q.taking name s) :=
    Progress.effect_of_not_mem hnew hset
  refine ⟨{ q with pending := some ⟨name, set, some text⟩ }, ?_, fun rest => ?_⟩
  · simp only [Progress.resolve, hclear, heffect]
  · have hword := Word.ofText_long hne hname
    have hlong' : level.readLong p name none =
        .ok { q with pending := some ⟨name, set, none⟩ } := by
      simp only [readLong, hlong, startValue, hp, bind, Except.bind, pure, Except.pure]
    rw [List.cons_append, read_long hsub (htrail ▸ htrailing) hword, hlong']
    exact read_value (p := { q with pending := some ⟨name, set, none⟩ }) hsub htrailing rfl htext
      rest

end Options

theorem place (hpositional : level.positional = some set) (hplaced : q.placed = false)
    (hnew : "" ∉ q.given) (htext : Word.ofText text = .plain text)
    (hset : set text q.settings = .ok s) :
    level.Leads [text] q { q.taking "" s with placed := true } := by
  intro p hp
  obtain ⟨hawaits, hnone, hplace, htrail⟩ := Progress.resolve_inv hp
  have heffect : { q with pending := none, placed := true }.effect "" (set text) =
      .ok { q.taking "" s with pending := none, placed := true } :=
    Progress.effect_of_not_mem hnew hset
  refine ⟨{ q with pending := some ⟨"", set, some text⟩, placed := true }, ?_, fun rest => ?_⟩
  · simp only [Progress.resolve, heffect, Progress.taking, hnone]
  · have hmet : level.place p text =
        .ok { q with pending := some ⟨"", set, some text⟩, placed := true } := by
      simp only [Level.place, hpositional, ← hplace, hplaced, hp, bind, Except.bind, pure,
        Except.pure]
    rw [List.singleton_append, read_place hsub (htrail ▸ htrailing) hawaits htext, hmet]
    rfl

end Parameters

end Leads

theorem readAll_of_leads {words : List String} {s : σ} {q : Progress σ}
    (h : level.Leads words (.start s) q) (hplaced : q.placed = true) :
    level.readAll words s = .ok q.settings := by
  obtain ⟨p, hp, hread⟩ := h (.start s) (Progress.resolve_of_pending rfl)
  have hwords : level.read words (.start s) = .ok (p, none) := by
    rw [← List.append_nil words, hread, read]
  simp only [readAll, hwords, bind, Except.bind, hp, hplaced, if_true, pure, Except.pure]

end Level

-- The values of options are read for what they spell, and none of them starts like an option.

theorem readNumber_of_spells {text : String} {n low high : Nat}
    (h : Text.Integer.Spells text.toList n) (hlow : low ≤ n) (hhigh : n ≤ high) :
    readNumber low high text = .ok n := by
  rw [readNumber, Text.Integer.readBetween?_of_spells h hlow hhigh]

theorem readSeed_of_spells {text : String} {n : UInt64}
    (h : Text.Integer.Spells text.toList n.toNat) : readSeed text = .ok n := by
  rw [readSeed, Text.Integer.readNat?_of_spells h]
  simp only [n.toNat_lt_size, if_true, UInt64.ofNat_toNat]

theorem readColor_of_written {text : String} {color : Color}
    (h : Color.Written text.toList color) : readColor text = .ok color := by
  rw [readColor, (Color.ofText?_eq_some_iff text color).mpr (.inl h)]

theorem Word.ofText_of_numeral {text : String} {n : Nat} (h : Text.Integer.Spells text.toList n) :
    ofText text = .plain text := by
  obtain ⟨c, rest, hcons, hdigit⟩ := h.exists_cons
  refine (ofText_plain_or text).resolve_right ?_
  rintro ⟨rest', hminus⟩
  rw [hcons] at hminus
  cases hminus
  exact absurd hdigit (by decide)

theorem Word.ofText_of_color {text : String} {color : Color} (h : Color.ofText? text = some color) :
    ofText text = .plain text := by
  refine (ofText_plain_or text).resolve_right ?_
  rintro ⟨rest, hrest⟩
  have hminus : ¬ Color.Spells ('-' :: rest) color := Color.not_spells_cons (by decide) rest color
  rw [Color.ofText?_eq_some_iff, hrest] at h
  simp [Color.Written, Color.WrittenSigned, hminus] at h

theorem Command.read_run (words : List String) : read ("run" :: words) = readRun words := by
  have htop : topLevel.read ("run" :: words) (.start none) =
      .ok (.start none, some ("run", words)) := rfl
  simp only [read, htop, bind, Except.bind]
  cases readRun words <;> rfl

end Chip8.CommandLine
