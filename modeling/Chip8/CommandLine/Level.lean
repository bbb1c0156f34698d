namespace Chip8.CommandLine

-- Why the words were not a command.
inductive UsageError
  | help
  | version
  -- no argument was given where one is needed
  | helpOnMissing
  | missingSubcommand
  | invalidSubcommand
  | missingArgument
  | unknownArgument
  -- an option was given twice
  | conflict
  -- a value is missing, empty or not one of those listed
  | invalidValue
  -- a number or colour cannot be read
  | unreadableValue
  -- a value was given to an option that takes none
  | tooManyValues
deriving DecidableEq, Repr

-- Asking for help or the version is no failure.
def UsageError.exitCode : UsageError → Nat
  | help | version => 0
  | _ => 2

-- How a word reads outside the place of a value.
inductive Word
  -- `--`, after which all words are positional
  | escape
  -- `--name` or `--name=value`
  | long (name : String) (value : Option String)
  -- `-` and letters
  | short (letters : List Char)
  | plain (text : String)
deriving DecidableEq, Repr

-- What stands before and behind the first equals sign.
def splitEquals (cs : List Char) : String × Option String :=
  match cs.dropWhile (· != '=') with
  | [] => (String.ofList cs, none)
  | _ :: value => (String.ofList (cs.takeWhile (· != '=')), some (String.ofList value))

def Word.ofText (text : String) : Word :=
  match text.toList with
  | '-' :: '-' :: [] => .escape
  | '-' :: '-' :: rest =>
    let (name, value) := splitEquals rest
    .long name value
  | '-' :: c :: rest => .short (c :: rest)
  | _ => .plain text

-- What an option does to the settings `σ` of its level.
inductive Action (σ : Type)
  | flag (set : σ → σ)
  | value (set : String → σ → Except UsageError σ)
  -- ends the reading
  | answer (e : UsageError)

structure Parameter (σ : Type) where
  name : String
  letter : Option Char
  action : Action σ

-- The words of one command: its options, its positional argument and the names of subcommands.
structure Level (σ : Type) where
  parameters : List (Parameter σ)
  positional : Option (String → σ → Except UsageError σ)
  subcommands : List String

-- An argument whose value is still to come or to be judged.
structure Pending (σ : Type) where
  name : String
  set : String → σ → Except UsageError σ
  value : Option String

structure Progress (σ : Type) where
  settings : σ
  -- names of the parameters that have taken effect
  given : List String
  pending : Option (Pending σ)
  -- whether the positional argument was met
  placed : Bool
  -- whether all further words are positional
  trailing : Bool

namespace Progress

variable {σ : Type}

def start (settings : σ) : Progress σ := ⟨settings, [], none, false, false⟩

-- Whether the next word is the value of an option.
def awaitsValue (p : Progress σ) : Bool := p.pending.any (·.value.isNone)

-- Lets a parameter take effect, which it may do once.
def effect (p : Progress σ) (name : String) (set : σ → Except UsageError σ) :
    Except UsageError (Progress σ) := do
  if name ∈ p.given then throw .conflict
  return { p with settings := ← set p.settings, given := name :: p.given }

-- Judges the value that is pending, which waits until the next argument starts or the words end. So
-- a fault in a later word can come before one in an earlier value.
def resolve (p : Progress σ) : Except UsageError (Progress σ) :=
  match p.pending with
  | none => .ok p
  | some pending =>
    match pending.value with
    | none => .error .invalidValue
    | some value => { p with pending := none }.effect pending.name (pending.set value)

end Progress

namespace Level

variable {σ : Type} (level : Level σ)

def long? (name : String) : Option (Parameter σ) := level.parameters.find? (·.name == name)

def short? (letter : Char) : Option (Parameter σ) :=
  level.parameters.find? (·.letter == some letter)

-- An option that takes a value, which may be attached.
def startValue (p : Progress σ) (name : String) (set : String → σ → Except UsageError σ)
    (attached : Option String) : Except UsageError (Progress σ) := do
  let p ← p.resolve
  match attached with
  | some value => p.effect name (set value)
  | none => return { p with pending := some ⟨name, set, none⟩ }

def readLong (p : Progress σ) (name : String) (attached : Option String) :
    Except UsageError (Progress σ) := do
  match level.long? name with
  | none => throw .unknownArgument
  | some parameter =>
    match parameter.action, attached with
    | .value set, _ => startValue p parameter.name set attached
    | _, some _ => throw .tooManyValues
    | .flag set, none => (← p.resolve).effect parameter.name fun s => .ok (set s)
    | .answer e, none =>
      let _ ← p.resolve
      throw e

-- The value that follows a letter in the same word, behind an equals sign or not.
def attachedValue : List Char → Option String
  | [] => none
  | '=' :: rest => some (String.ofList rest)
  | rest => some (String.ofList rest)

def readShort (p : Progress σ) : List Char → Except UsageError (Progress σ)
  | [] => .ok p
  | letter :: rest =>
    match level.short? letter with
    | none => .error .unknownArgument
    | some parameter =>
      match parameter.action with
      | .value set => startValue p parameter.name set (attachedValue rest)
      | .flag set => do
        let p ← (← p.resolve).effect parameter.name fun s => .ok (set s)
        readShort p rest
      | .answer e => do
        let _ ← p.resolve
        throw e

-- A word in the place of the positional argument.
def place (p : Progress σ) (text : String) : Except UsageError (Progress σ) :=
  match level.positional, p.placed with
  | some set, false => do
    let p ← p.resolve
    return { p with pending := some ⟨"", set, some text⟩, placed := true }
  | _, _ =>
    if level.subcommands.isEmpty || (p.trailing && text ∈ level.subcommands) then
      .error .unknownArgument
    else .error .invalidSubcommand

-- Reads words up to the name of a subcommand, which comes with the words behind it.
def read : List String → Progress σ →
    Except UsageError (Progress σ × Option (String × List String))
  | [], p => .ok (p, none)
  | text :: rest, p =>
    if p.trailing then do read rest (← level.place p text)
    else if !p.awaitsValue && text ∈ level.subcommands then .ok (p, some (text, rest))
    else match Word.ofText text with
      | .escape => read rest { p with trailing := true }
      | .long name attached => do read rest (← level.readLong p name attached)
      | .short letters => do read rest (← level.readShort p letters)
      | .plain text =>
        match p.pending with
        | some ⟨name, set, none⟩ =>
          read rest { p with pending := some ⟨name, set, some text⟩ }
        | _ => do read rest (← level.place p text)

-- Reads a level that has no subcommands and needs its positional argument.
def readAll (words : List String) (settings : σ) : Except UsageError σ := do
  let (p, _) ← level.read words (.start settings)
  let p ← p.resolve
  unless p.placed do throw .missingArgument
  return p.settings

end Level

end Chip8.CommandLine
