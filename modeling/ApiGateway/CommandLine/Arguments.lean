import ApiGateway.Compilation.Options
import ApiGateway.Configuration.Render

/-!
# Command lines

What the words of a command line ask for. Some options may stand in front of the name of the
task as well as behind it; the others belong to the task. Where an option is not given, a
variable of the environment can stand in for it, and is checked like the option itself.

## Main definitions

* `Setting`: an option with its value, or a flag.
* `settings?`: the settings at the front of a list of words.
* `Command`: what a command line asks for.
* `Command.parse?`: the reader of command lines; without a result the usage is wrong.
-/
namespace ApiGateway

/-- The options, which have a value. -/
inductive OptionName where
  | spec
  | output
  | format
  | selectTag
  | uuidBase
  | docName
  | logLevel
  | logFormat
  deriving DecidableEq, Inhabited, Repr

/-- The flags, which have none. -/
inductive FlagName where
  | insoCompatible
  | noId
  | generateSecurity
  | ignoreSecurityErrors
  | ignoreCircularRefs
  deriving DecidableEq, Inhabited, Repr

/-- An option with its value, or a flag. -/
inductive Setting where
  | option (name : OptionName) (value : String)
  | flag (name : FlagName)
  deriving DecidableEq, Inhabited, Repr

/-- The tasks. -/
inductive TaskName where
  | compile
  | validate
  deriving DecidableEq, Inhabited, Repr

namespace OptionName

/-- The option of a long name. -/
def ofLong? (name : String) : Option OptionName :=
  [("spec", spec), ("output", output), ("format", format), ("select-tag", selectTag),
    ("uuid-base", uuidBase), ("doc-name", docName), ("log-level", logLevel),
    ("log-format", logFormat)].lookup name

/-- The option of a letter. -/
def ofLetter? (letter : Char) : Option OptionName :=
  [('s', spec), ('o', output)].lookup letter

/-- The variable that stands in for an option. -/
def environmentName? : OptionName → Option String
  | selectTag => some "DECKFORGE_SELECT_TAG"
  | uuidBase => some "DECKFORGE_UUID_BASE"
  | docName => some "DECKFORGE_DOC_NAME"
  | logLevel => some "DECKFORGE_LOG_LEVEL"
  | logFormat => some "DECKFORGE_LOG_FORMAT"
  | spec | output | format => none

/-- Whether an option may stand in front of the task. -/
def isShared (name : OptionName) : Bool := name = logLevel || name = logFormat

/-- Whether a task has an option. Only a compilation has an output. -/
def belongsTo (name : OptionName) (task : TaskName) : Bool :=
  match name with
  | output | format => task = .compile
  | _ => true

end OptionName

/-- The flag of a long name. -/
def FlagName.ofLong? (name : String) : Option FlagName :=
  [("inso-compatible", insoCompatible), ("no-id", noId), ("generate-security", generateSecurity),
    ("ignore-security-errors", ignoreSecurityErrors),
    ("ignore-circular-refs", ignoreCircularRefs)].lookup name

/-- The task of a name. -/
def TaskName.ofName? (name : String) : Option TaskName :=
  [("compile", compile), ("validate", validate)].lookup name

/-- The forms a word can have. Two hyphens alone end the settings. -/
inductive Word where
  | plain
  | endOfSettings
  | long (name : String) (value : Option String)
  | short (letter : Char) (value : Option String)
  deriving DecidableEq, Inhabited, Repr

/-- The form of a word. A long option has its value behind the first equals sign, one of a
letter right behind the letter, with or without an equals sign. A hyphen alone is plain. -/
def Word.of (word : String) : Word :=
  match word.toList with
  | ['-', '-'] => .endOfSettings
  | '-' :: '-' :: rest =>
    let value := match rest.dropWhile (· ≠ '=') with
      | _ :: value => some (String.ofList value)
      | [] => none
    .long (String.ofList (rest.takeWhile (· ≠ '='))) value
  | '-' :: letter :: rest =>
    let value := match rest with
      | [] => none
      | '=' :: value => some (String.ofList value)
      | value => some (String.ofList value)
    .short letter value
  | _ => .plain

/-- What a word sets: an option that still needs its value, or something complete. -/
inductive Effect where
  | needsValue (name : OptionName)
  | complete (setting : Setting)

/-- The effect of an option with the value attached to it. -/
def effectOfOption (name : OptionName) (value : Option String) : Effect :=
  match value with
  | some value => .complete (.option name value)
  | none => .needsValue name

/-- What a word sets, if it is a setting. A flag has no value. -/
def Word.effect? : Word → Option Effect
  | .long name value =>
    match OptionName.ofLong? name, FlagName.ofLong? name, value with
    | some option, _, value => some (effectOfOption option value)
    | none, some flag, none => some (.complete (.flag flag))
    | _, _, _ => none
  | .short letter value => (OptionName.ofLetter? letter).map (effectOfOption · value)
  | _ => none

/-- The settings at the front of a list of words and what follows them. The value of an option
is the next word, unless that has the form of a setting. -/
def settings? : List String → Option (List Setting × List String)
  | [] => some ([], [])
  | word :: rest =>
    match Word.of word with
    | .plain | .endOfSettings => some ([], word :: rest)
    | setting =>
      match setting.effect?, rest with
      | some (.complete setting), rest => do
        let (settings, left) ← settings? rest
        some (setting :: settings, left)
      | some (.needsValue name), value :: rest =>
        if Word.of value = .plain then do
          let (settings, left) ← settings? rest
          some (.option name value :: settings, left)
        else none
      | _, _ => none

namespace Setting

/-- Whether two settings set the same thing. -/
def sameName : Setting → Setting → Bool
  | option a _, option b _ => a = b
  | flag a, flag b => a = b
  | _, _ => false

/-- Whether something is set twice that may be set only once. Tags add up. -/
def repeats : List Setting → Bool
  | [] => false
  | setting :: rest =>
    (!sameName setting (option .selectTag "") && rest.any (sameName setting)) || repeats rest

/-- The values of an option. -/
def values (name : OptionName) (settings : List Setting) : List String :=
  settings.filterMap fun
    | option other value => if other = name then some value else none
    | flag _ => none

/-- Whether a flag is set. -/
def has (name : FlagName) (settings : List Setting) : Bool := settings.contains (flag name)

/-- The values of an option, or that of its variable. -/
def valuesOr (environment : String → Option String) (name : OptionName)
    (settings : List Setting) : List String :=
  match values name settings with
  | [] => (name.environmentName?.bind environment).toList
  | given => given

/-- Whether a setting may stand in front of the task. -/
def isShared : Setting → Bool
  | option name _ => name.isShared
  | flag _ => false

/-- Whether a task has a setting. -/
def belongsTo (task : TaskName) : Setting → Bool
  | option name _ => name.belongsTo task
  | flag _ => true

end Setting

/-- Whether a value names a format of log lines, in any case. -/
def isLogFormat (value : String) : Bool :=
  String.ofList (value.toList.map Char.toLower) ∈ ["json", "pretty"]

/-- What to do with a configuration: write it, or only see that there is one. -/
inductive Task where
  | compile (output : String) (format : Format)
  | validate
  deriving DecidableEq, Inhabited, Repr

/-- What a command line asks for. -/
structure Command where
  spec : String
  task : Task
  options : Options

namespace Command

/-- The tags that are given, each value split at its commas. Without a value the document's tags
stay. -/
def tagsOf (values : List String) : Option (List String) :=
  if values.isEmpty then none
  else some (values.flatMap fun value =>
    (value.toList.splitOn ',').map String.ofList)

/-- The options that settings and the environment ask for. The conventions are those of the
program. -/
def options? (environment : String → Option String) (settings : List Setting)
    (conventions : Conventions := {}) : Option Options := do
  let values (name : OptionName) := Setting.valuesOr environment name settings
  let space ← match values .uuidBase with
    | [] => some Uuid.dns
    | text :: _ => Uuid.parse? text
  some {
    toConventions := conventions
    tags := tagsOf (values .selectTag)
    documentName := (values .docName).head?
    space := space
    flatNames := Setting.has .insoCompatible settings
    skipId := Setting.has .noId settings
    openId := Setting.has .generateSecurity settings
    ignoreSecurityErrors := Setting.has .ignoreSecurityErrors settings
    ignoreCircularReferences := Setting.has .ignoreCircularRefs settings }

/-- The task that settings ask for. -/
def task? (name : TaskName) (settings : List Setting) : Option Task :=
  match name with
  | .validate => some .validate
  | .compile => do
    let format ← match Setting.values .format settings with
      | [] => some .yaml
      | name :: _ => Format.ofName? name
    some (.compile ((Setting.values .output settings).head?.getD "-") format)

/-- Whether the settings of one place agree with each other: nothing is set twice, and log lines
have a known format. -/
def agree (environment : String → Option String) (settings : List Setting) : Bool :=
  !Setting.repeats settings &&
    (Setting.valuesOr environment .logFormat settings).all isLogFormat

/-- What a command line asks for in an environment, if its usage is right. Behind the settings of
the task there is nothing but a mark that they have ended. -/
def parse? (environment : String → Option String) (words : List String)
    (conventions : Conventions := {}) : Option Command := do
  let (shared, rest) ← settings? words
  match rest with
  | [] => none
  | name :: rest =>
    let name ← TaskName.ofName? name
    let (settings, left) ← settings? rest
    let spec ← (Setting.values .spec settings).head?
    if shared.all Setting.isShared ∧ settings.all (Setting.belongsTo name) ∧
        agree environment shared ∧ agree environment settings ∧ left ∈ [[], ["--"]] then
      some ⟨spec, ← task? name settings, ← options? environment settings conventions⟩
    else none

end Command

end ApiGateway
