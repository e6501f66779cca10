import ApiGateway.CommandLine.Arguments
import Mathlib.Data.List.TakeWhile
import Mathlib.Data.String.Basic

/-!
# The usage of command lines

A command line is settings, the name of a task, and the settings of the task. Each setting is a
word of its own, or an option and its value in two words; a word is spelled in one of a few ways.
Which command a line asks for depends on its parts alone: on which settings are among them, and on
the order of the values of the option that may be repeated. The reader of command lines finds these
parts in every line that has them, whatever its words are, and refuses all others.

## Main definitions

* `Word.Spelled`, `Setting.Written`, `Setting.Listed`: the words of settings.
* `Setting.Given`: the values of an option, or that of its variable.
* `Options.GivenBy`, `Task.GivenBy`: the options and the task that settings ask for.
* `Invocation`: the parts of a command line, how they are written (`Invocation.Written`), when their
  usage is right (`Invocation.Proper`), and what they ask for (`Invocation.Asks`).

## Main results

* `Word.of_eq_iff`, `settings?_eq_some_iff`: words and settings are read as they are written.
* `Command.parse?_eq_some_iff`: so are command lines.
* `Command.exists_validating`: what can be compiled can be validated with the same options.
-/
namespace ApiGateway

/-! ## Words -/

/-- How a word of a form is spelled. The value of an option may stand behind an equals sign, and
that of a letter right behind the letter. -/
inductive Word.Spelled : Word → String → Prop
  | hyphen : Spelled .plain "-"
  | plain {word : String} (h : word.toList.head? ≠ some '-') : Spelled .plain word
  | endOfSettings : Spelled .endOfSettings "--"
  | long {name : String} (hname : '=' ∉ name.toList) (hne : name ≠ "") :
      Spelled (.long name none) ("--" ++ name)
  | longWith {name : String} (hname : '=' ∉ name.toList) (value : String) :
      Spelled (.long name (some value)) ("--" ++ name ++ "=" ++ value)
  | short {letter : Char} (h : letter ≠ '-') : Spelled (.short letter none) ("-" ++ letter.toString)
  | shortWith {letter : Char} (h : letter ≠ '-') (value : String) :
      Spelled (.short letter (some value)) ("-" ++ letter.toString ++ "=" ++ value)
  | attached {letter : Char} {value : String} (h : letter ≠ '-') (hne : value ≠ "")
      (hvalue : value.toList.head? ≠ some '=') :
      Spelled (.short letter (some value)) ("-" ++ letter.toString ++ value)

namespace Word
variable {word : String} {rest : List Char}

theorem of_hyphens (hne : rest ≠ []) (h : word.toList = '-' :: '-' :: rest) :
    Word.of word = .long (String.ofList (rest.takeWhile (· ≠ '=')))
      (match rest.dropWhile (· ≠ '=') with
        | _ :: value => some (String.ofList value)
        | [] => none) := by
  cases rest with
  | nil => exact absurd rfl hne
  | cons c rest =>
    rw [Word.of, h]
    rfl

/-- A word has the form as which it is spelled. -/
theorem Spelled.of_eq {form : Word} (h : form.Spelled word) : Word.of word = form := by
  cases h with
  | hyphen => rfl
  | plain hhead =>
    unfold Word.of
    split <;> simp_all
  | endOfSettings => rfl
  | @long name hname hne =>
    have hkept : ∀ c ∈ name.toList, decide (c ≠ '=') = true :=
      fun c hc => decide_eq_true fun h => hname (h ▸ hc)
    have hchars : ("--" ++ name).toList = '-' :: '-' :: name.toList := by simp
    rw [of_hyphens (by simpa using hne) hchars,
      List.takeWhile_eq_self_iff.2 hkept, List.dropWhile_eq_nil_iff.2 hkept, String.ofList_toList]
  | @longWith name hname value =>
    have hkept : ∀ c ∈ name.toList, decide (c ≠ '=') = true :=
      fun c hc => decide_eq_true fun h => hname (h ▸ hc)
    have hchars : ("--" ++ name ++ "=" ++ value).toList =
        '-' :: '-' :: (name.toList ++ '=' :: value.toList) := by simp
    rw [of_hyphens (by simp) hchars,
      List.takeWhile_append_of_pos hkept, List.dropWhile_append_of_pos hkept]
    simp
  | @short letter hletter =>
    have hchars : ("-" ++ letter.toString).toList = ['-', letter] := by simp
    rw [Word.of, hchars]
    split <;> simp_all
  | @shortWith letter hletter value =>
    have hchars : ("-" ++ letter.toString ++ "=" ++ value).toList =
        '-' :: letter :: '=' :: value.toList := by simp
    rw [Word.of, hchars]
    split
    · simp_all
    · simp_all
    · rename_i hchars
      obtain ⟨rfl, rfl⟩ : _ ∧ _ := by simpa using hchars
      simp
    · simp_all
  | @attached letter value hletter hne hvalue =>
    have hchars : ("-" ++ letter.toString ++ value).toList = '-' :: letter :: value.toList := by
      simp
    rw [Word.of, hchars]
    split
    · simp_all
    · simp_all
    · rename_i hchars
      obtain ⟨rfl, rfl⟩ : _ ∧ _ := by simpa using hchars
      split <;> simp_all
    · simp_all

/-- A word with two hyphens ends the settings or is a long option. -/
theorem exists_spelled_hyphens (rest : List Char) :
    ∃ form : Word, form.Spelled (String.ofList ('-' :: '-' :: rest)) := by
  by_cases hmem : '=' ∈ rest
  · obtain ⟨name, value, rfl, hname⟩ := List.eq_append_cons_of_mem hmem
    have hword : String.ofList ('-' :: '-' :: (name ++ '=' :: value)) =
        "--" ++ String.ofList name ++ "=" ++ String.ofList value :=
      String.toList_injective (by simp)
    rw [hword]
    exact ⟨_, .longWith (by simpa using hname) _⟩
  · have hword : String.ofList ('-' :: '-' :: rest) = "--" ++ String.ofList rest :=
      String.toList_injective (by simp)
    rw [hword]
    by_cases hrest : rest = []
    · subst hrest
      exact ⟨_, .endOfSettings⟩
    · exact ⟨_, .long (by simpa using hmem) (by simpa using hrest)⟩

/-- A word with one hyphen is an option of a letter. -/
theorem exists_spelled_letter {letter : Char} (h : letter ≠ '-') (rest : List Char) :
    ∃ form : Word, form.Spelled (String.ofList ('-' :: letter :: rest)) := by
  have hword : ∀ rest, String.ofList ('-' :: letter :: rest) =
      "-" ++ letter.toString ++ String.ofList rest :=
    fun rest => String.toList_injective (by simp)
  by_cases hhead : rest.head? = some '='
  · obtain ⟨value, rfl⟩ := List.head?_eq_some_iff.1 hhead
    have hvalue : String.ofList ('=' :: value) = "=" ++ String.ofList value :=
      String.toList_injective (by simp)
    rw [hword, hvalue, ← String.append_assoc]
    exact ⟨_, .shortWith h _⟩
  · by_cases hrest : rest = []
    · rw [hword, hrest, String.ofList_nil, String.append_empty]
      exact ⟨_, .short h⟩
    · rw [hword]
      exact ⟨_, .attached h (by simpa using hrest) (by simpa using hhead)⟩

/-- Every word is spelled as one of the forms. -/
theorem exists_spelled (word : String) : ∃ form : Word, form.Spelled word := by
  obtain ⟨chars, rfl⟩ : ∃ chars, word = String.ofList chars :=
    ⟨word.toList, String.ofList_toList.symm⟩
  by_cases hhead : chars.head? = some '-'
  · obtain ⟨rest, rfl⟩ := List.head?_eq_some_iff.1 hhead
    cases rest with
    | nil => exact ⟨_, .hyphen⟩
    | cons letter rest =>
      by_cases hletter : letter = '-'
      · subst hletter
        exact exists_spelled_hyphens rest
      · exact exists_spelled_letter hletter rest
  · exact ⟨_, .plain (by simpa using hhead)⟩

/-- The form of a word is the one as which it is spelled. -/
theorem of_eq_iff {form : Word} : Word.of word = form ↔ form.Spelled word := by
  constructor
  · rintro rfl
    obtain ⟨form, hform⟩ := exists_spelled word
    rwa [hform.of_eq]
  · exact Spelled.of_eq

end Word

/-! ## Settings -/

/-- How a setting is written: as one word, or as an option and its value in a word of its own. -/
inductive Setting.Written : Setting → List String → Prop
  | whole {setting : Setting} {form : Word} {word : String} (hword : form.Spelled word)
      (heffect : form.effect? = some (.complete setting)) : Written setting [word]
  | apart {name : OptionName} {form : Word} {word value : String} (hword : form.Spelled word)
      (heffect : form.effect? = some (.needsValue name)) (hvalue : Word.plain.Spelled value) :
      Written (.option name value) [word, value]

/-- How settings are written, one after the other. -/
inductive Setting.Listed : List Setting → List String → Prop
  | nil : Listed [] []
  | cons {setting : Setting} {settings : List Setting} {front back : List String}
      (h : setting.Written front) (hrest : Listed settings back) :
      Listed (setting :: settings) (front ++ back)

/-- Words that do not begin with a setting, nor with what could be meant as one. -/
def Setting.Ended (words : List String) : Prop :=
  ∀ word ∈ words.head?, Word.plain.Spelled word ∨ Word.endOfSettings.Spelled word

section Settings
variable {setting : Setting} {settings : List Setting} {words front left : List String}

/-- The settings of a list of words, by what its first word sets. -/
theorem settings?_cons (word : String) (words : List String) :
    settings? (word :: words) =
      match (Word.of word).effect?, words with
      | some (.complete setting), rest => (settings? rest).map (Prod.map (setting :: ·) id)
      | some (.needsValue name), value :: rest =>
        if Word.of value = .plain then
          (settings? rest).map (Prod.map (.option name value :: ·) id)
        else none
      | some (.needsValue _), [] => none
      | none, _ =>
        if Word.of word = .plain ∨ Word.of word = .endOfSettings then some ([], word :: words)
        else none := by
  rw [settings?]
  split
  · rename_i hform
    simp [hform, Word.effect?]
  · rename_i hform
    simp [hform, Word.effect?]
  · rename_i hplain hended
    cases heffect : (Word.of word).effect? with
    | none => simp [show Word.of word ≠ .plain from hplain,
        show Word.of word ≠ .endOfSettings from hended]
    | some effect =>
      cases effect with
      | complete setting => cases hrest : settings? words <;> simp [hrest, Prod.map]
      | needsValue name =>
        cases words with
        | nil => simp
        | cons value rest => cases hrest : settings? rest <;> simp [hrest, Prod.map]

theorem settings?_of_ended (h : Setting.Ended words) : settings? words = some ([], words) := by
  cases words with
  | nil => rfl
  | cons word rest =>
    obtain hform | hform := h word rfl <;> rw [settings?, hform.of_eq]

/-- A setting in front is read as it is written. -/
theorem settings?_append (h : setting.Written front) (words : List String) :
    settings? (front ++ words) = (settings? words).map (Prod.map (setting :: ·) id) := by
  cases h with
  | whole hword heffect =>
    rw [List.cons_append, List.nil_append, settings?_cons, hword.of_eq, heffect]
  | apart hword heffect hvalue =>
    rw [List.cons_append, List.cons_append, List.nil_append, settings?_cons, hword.of_eq, heffect]
    exact if_pos hvalue.of_eq

/-- What is read of settings ends at once or begins with a setting as it is written. -/
theorem settings?_cases (h : settings? words = some (settings, left)) :
    (settings = [] ∧ left = words ∧ Setting.Ended words) ∨
      ∃ setting front rest settings', Setting.Written setting front ∧ words = front ++ rest ∧
        rest.length < words.length ∧ settings = setting :: settings' ∧
        settings? rest = some (settings', left) := by
  cases words with
  | nil =>
    obtain ⟨rfl, rfl⟩ := Prod.mk.inj (Option.some.inj h)
    exact Or.inl ⟨rfl, rfl, by simp [Setting.Ended]⟩
  | cons word words =>
    rw [settings?_cons] at h
    split at h
    · rename_i setting heffect
      obtain ⟨⟨settings', left⟩, hrest, heq⟩ := Option.map_eq_some_iff.1 h
      obtain ⟨rfl, rfl⟩ := Prod.mk.inj heq
      exact Or.inr ⟨setting, [word], _, settings', .whole (Word.of_eq_iff.1 rfl) heffect, rfl,
        by simp, rfl, hrest⟩
    · rename_i name value rest heffect
      split at h
      · rename_i hvalue
        obtain ⟨⟨settings', left⟩, hrest, heq⟩ := Option.map_eq_some_iff.1 h
        obtain ⟨rfl, rfl⟩ := Prod.mk.inj heq
        exact Or.inr ⟨.option name value, [word, value], rest, settings',
          .apart (Word.of_eq_iff.1 rfl) heffect (Word.of_eq_iff.1 hvalue), rfl,
          by simp only [List.length_cons]; omega, rfl, hrest⟩
      · cases h
    · cases h
    · split at h
      · rename_i hform
        obtain ⟨rfl, rfl⟩ := Prod.mk.inj (Option.some.inj h)
        refine Or.inl ⟨rfl, rfl, fun other hother => ?_⟩
        obtain rfl := Option.some.inj hother
        exact hform.imp Word.of_eq_iff.1 Word.of_eq_iff.1
      · cases h

/-- The settings at the front of a list of words are those written there, as far as they go. -/
theorem settings?_eq_some_iff : settings? words = some (settings, left) ↔
    ∃ front, words = front ++ left ∧ Setting.Listed settings front ∧ Setting.Ended left := by
  constructor
  · intro h
    induction hn : words.length using Nat.strong_induction_on generalizing words settings with
    | _ n ih =>
      obtain ⟨rfl, rfl, hended⟩ |
        ⟨setting, front, rest, settings', hsetting, rfl, hlt, rfl, hrest⟩ := settings?_cases h
      · exact ⟨[], rfl, .nil, hended⟩
      · obtain ⟨back, rfl, hlisted, hended⟩ := ih rest.length (hn ▸ hlt) hrest rfl
        exact ⟨front ++ back, (List.append_assoc ..).symm, .cons hsetting hlisted, hended⟩
  · rintro ⟨front, rfl, hlisted, hended⟩
    induction hlisted with
    | nil => exact settings?_of_ended hended
    | cons hsetting _ ih =>
      rw [List.append_assoc, settings?_append hsetting, ih]
      rfl

end Settings

/-! ## What settings give -/

namespace Setting

/-- Nothing is set twice but tags. -/
def Once (settings : List Setting) : Prop :=
  settings.Pairwise fun setting other =>
    sameName setting other = true → ∃ value, setting = .option .selectTag value

/-- An option has a value: one that is given, or else that of its variable. -/
def Given (environment : String → Option String) (settings : List Setting) (name : OptionName)
    (value : String) : Prop :=
  .option name value ∈ settings ∨
    (∀ other, .option name other ∉ settings) ∧
      ∃ key, name.environmentName? = some key ∧ environment key = some value

section Given
variable {environment : String → Option String} {settings : List Setting} {name : OptionName}
variable {value : String}

theorem mem_values : value ∈ values name settings ↔ .option name value ∈ settings := by
  simp only [values, List.mem_filterMap]
  constructor
  · rintro ⟨setting, hmem, h⟩
    cases setting with
    | option other text =>
      obtain ⟨rfl, rfl⟩ : other = name ∧ text = value := by simpa using h
      exact hmem
    | flag other => cases h
  · intro hmem
    exact ⟨_, hmem, if_pos rfl⟩

theorem mem_valuesOr :
    value ∈ valuesOr environment name settings ↔ Given environment settings name value := by
  have hnone : values name settings = [] ↔ ∀ other, .option name other ∉ settings := by
    simp only [List.eq_nil_iff_forall_not_mem, mem_values]
  unfold valuesOr Given
  split
  · rename_i hvalues
    have habsent := hnone.1 hvalues
    simp [habsent, Option.bind_eq_some_iff]
  · rename_i given hgiven
    have hpresent : ¬ ∀ other, .option name other ∉ settings := fun h => hgiven (hnone.2 h)
    simp [mem_values, hpresent]

theorem sameName_selectTag (setting : Setting) :
    sameName setting (.option .selectTag "") = true ↔
      ∃ value, setting = .option .selectTag value := by
  cases setting with
  | option name value => simp [sameName]
  | flag name => simp [sameName]

theorem repeats_eq_false_iff : repeats settings = false ↔ Once settings := by
  induction settings with
  | nil => simp [repeats, Once]
  | cons setting rest ih =>
    rw [Once, List.pairwise_cons, ← Once, ← ih, repeats, Bool.or_eq_false_iff,
      Bool.and_eq_false_imp]
    simp only [Bool.not_eq_true', List.any_eq_false, ← sameName_selectTag]
    refine and_congr_left fun _ => ⟨?_, ?_⟩
    · intro h other hother hsame
      by_contra hname
      exact h (by simpa using hname) other hother hsame
    · intro h hname other hother hsame
      exact absurd (h other hother hsame) (by simp [hname])

/-- What may be set only once has at most one value. -/
theorem length_values_le (h : Once settings) (hname : name ≠ .selectTag) :
    (values name settings).length ≤ 1 := by
  induction settings with
  | nil => simp [values]
  | cons setting rest ih =>
    obtain ⟨hsetting, hrest⟩ := List.pairwise_cons.1 h
    by_cases hmem : ∃ value, setting = .option name value
    · obtain ⟨value, rfl⟩ := hmem
      have hnone : values name rest = [] := by
        refine List.eq_nil_iff_forall_not_mem.2 fun other hother => ?_
        obtain ⟨text, htext⟩ := hsetting _ (mem_values.1 hother) (by simp [sameName])
        exact hname (Setting.option.inj htext).1
      rw [values, List.filterMap_cons_some (b := value) (by simp), ← values, hnone]
      rfl
    · have hskip : values name (setting :: rest) = values name rest := by
        refine List.filterMap_cons_none ?_
        cases setting with
        | option other text => simp_all
        | flag other => rfl
      rw [hskip]
      exact ih hrest

theorem length_valuesOr_le (h : Once settings) (hname : name ≠ .selectTag) :
    (valuesOr environment name settings).length ≤ 1 := by
  unfold valuesOr
  split
  · exact Option.length_toList_le
  · exact length_values_le h hname

private theorem head?_eq_some_iff_mem {given : List String} (h : given.length ≤ 1) :
    given.head? = some value ↔ value ∈ given := by
  match given, h with
  | [], _ => simp
  | [other], _ => simp [eq_comm]

/-- What may be set only once has the value that is read first. -/
theorem head?_values (h : Once settings) (hname : name ≠ .selectTag) :
    (values name settings).head? = some value ↔ .option name value ∈ settings := by
  rw [head?_eq_some_iff_mem (length_values_le h hname), mem_values]

/-- The same where a variable may stand in. -/
theorem head?_valuesOr (h : Once settings) (hname : name ≠ .selectTag) :
    (valuesOr environment name settings).head? = some value ↔
      Given environment settings name value := by
  rw [head?_eq_some_iff_mem (length_valuesOr_le h hname), mem_valuesOr]

end Given

end Setting

/-- The options of a run are those that settings and the environment give, with the conventions of
the program. Each value of a tag option may hold several tags, and they add up in order. -/
structure Options.GivenBy (environment : String → Option String) (settings : List Setting)
    (conventions : Conventions) (options : Options) : Prop where
  tags : options.tags = Command.tagsOf (Setting.valuesOr environment .selectTag settings)
  documentName : ∀ name, options.documentName = some name ↔
    Setting.Given environment settings .docName name
  space : (∃ text, Setting.Given environment settings .uuidBase text ∧
      Uuid.parse? text = some options.space) ∨
    (∀ text, ¬ Setting.Given environment settings .uuidBase text) ∧ options.space = Uuid.dns
  flatNames : options.flatNames = true ↔ .flag .insoCompatible ∈ settings
  skipId : options.skipId = true ↔ .flag .noId ∈ settings
  openId : options.openId = true ↔ .flag .generateSecurity ∈ settings
  ignoreSecurityErrors : options.ignoreSecurityErrors = true ↔
    .flag .ignoreSecurityErrors ∈ settings
  ignoreCircularReferences : options.ignoreCircularReferences = true ↔
    .flag .ignoreCircularRefs ∈ settings
  conventions : options.toConventions = conventions

/-- The task that a name and settings ask for: without an output the standard one, and without a
format the first. -/
def Task.GivenBy (name : TaskName) (settings : List Setting) : Task → Prop
  | .validate => name = .validate
  | .compile output format => name = .compile ∧
    (.option .output output ∈ settings ∨
      (∀ other, .option .output other ∉ settings) ∧ output = "-") ∧
    ((∃ text, .option .format text ∈ settings ∧ Format.ofName? text = some format) ∨
      (∀ text, .option .format text ∉ settings) ∧ format = .yaml)

section GivenBy
variable {environment : String → Option String} {settings : List Setting}
variable {conventions : Conventions} {options : Options} {name : TaskName} {task : Task}

theorem Setting.has_iff {flag : FlagName} :
    Setting.has flag settings = true ↔ .flag flag ∈ settings := by
  simp [Setting.has]

/-- What is read from a text, or is a default without one. -/
private theorem elim_eq_some_iff {α : Type} {first : Option String} {P : String → Prop}
    (hP : ∀ text, first = some text ↔ P text) {read : String → Option α} {default a : α} :
    first.elim (some default) read = some a ↔
      (∃ text, P text ∧ read text = some a) ∨ (∀ text, ¬ P text) ∧ a = default := by
  cases first with
  | none => simp [← hP, eq_comm]
  | some text => simp [← hP]

theorem Command.options?_eq (environment : String → Option String) (settings : List Setting)
    (conventions : Conventions) :
    Command.options? environment settings conventions =
      ((Setting.valuesOr environment .uuidBase settings).head?.elim (some Uuid.dns)
        Uuid.parse?).map fun space =>
          { toConventions := conventions
            tags := tagsOf (Setting.valuesOr environment .selectTag settings)
            documentName := (Setting.valuesOr environment .docName settings).head?
            space := space
            flatNames := Setting.has .insoCompatible settings
            skipId := Setting.has .noId settings
            openId := Setting.has .generateSecurity settings
            ignoreSecurityErrors := Setting.has .ignoreSecurityErrors settings
            ignoreCircularReferences := Setting.has .ignoreCircularRefs settings } := by
  unfold Command.options?
  cases hgiven : Setting.valuesOr environment .uuidBase settings with
  | nil => simp [hgiven]
  | cons text rest => cases hspace : Uuid.parse? text <;> simp [hgiven, hspace]

/-- The options that are read are those that are given. -/
theorem Command.options?_eq_some_iff (h : Setting.Once settings) :
    Command.options? environment settings conventions = some options ↔
      options.GivenBy environment settings conventions := by
  have hname : ∀ name, (Setting.valuesOr environment .docName settings).head? = some name ↔
      Setting.Given environment settings .docName name :=
    fun name => Setting.head?_valuesOr h (by decide)
  have hspace : ∀ text, (Setting.valuesOr environment .uuidBase settings).head? = some text ↔
      Setting.Given environment settings .uuidBase text :=
    fun name => Setting.head?_valuesOr h (by decide)
  rw [Command.options?_eq, Option.map_eq_some_iff]
  simp only [elim_eq_some_iff hspace]
  constructor
  · rintro ⟨space, hread, rfl⟩
    exact ⟨rfl, hname, hread, Setting.has_iff, Setting.has_iff, Setting.has_iff, Setting.has_iff,
      Setting.has_iff, rfl⟩
  · intro hgiven
    refine ⟨options.space, hgiven.space, ?_⟩
    obtain ⟨htags, hdoc, -, hflat, hid, hopen, hsecurity, hcircular, hconventions⟩ := hgiven
    have hdoc' : (Setting.valuesOr environment .docName settings).head? = options.documentName :=
      Option.ext fun name => (hname name).trans (hdoc name).symm
    have hflag : ∀ (flag : FlagName) (value : Bool), (value = true ↔ .flag flag ∈ settings) →
        Setting.has flag settings = value :=
      fun flag value hvalue => Bool.eq_iff_iff.2 (Setting.has_iff.trans hvalue.symm)
    rw [← htags, hdoc', hflag _ _ hflat, hflag _ _ hid, hflag _ _ hopen, hflag _ _ hsecurity,
      hflag _ _ hcircular, ← hconventions]

/-- The task that is read is the one that is given. -/
theorem Command.task?_eq_some_iff (h : Setting.Once settings) :
    Command.task? name settings = some task ↔ task.GivenBy name settings := by
  have houtput : ∀ text, (Setting.values .output settings).head? = some text ↔
      .option .output text ∈ settings := fun text => Setting.head?_values h (by decide)
  have hformat : ∀ text, (Setting.values .format settings).head? = some text ↔
      .option .format text ∈ settings := fun text => Setting.head?_values h (by decide)
  cases name with
  | validate => cases task <;> simp [Command.task?, Task.GivenBy]
  | compile =>
    have htask : Command.task? .compile settings =
        ((Setting.values .format settings).head?.elim (some .yaml) Format.ofName?).map
          (Task.compile ((Setting.values .output settings).head?.getD "-")) := by
      unfold Command.task?
      cases Setting.values .format settings with
      | nil => rfl
      | cons text rest => cases hread : Format.ofName? text <;> simp [hread]
    rw [htask, Option.map_eq_some_iff]
    simp only [elim_eq_some_iff hformat]
    cases task with
    | validate => simp [Task.GivenBy]
    | compile output format =>
      have hdefault : (Setting.values .output settings).head?.getD "-" = output ↔
          .option .output output ∈ settings ∨
            (∀ other, .option .output other ∉ settings) ∧ output = "-" := by
        simp only [← houtput]
        cases (Setting.values .output settings).head? with
        | none => simp [eq_comm]
        | some text => simp
      simp only [Task.GivenBy, Task.compile.injEq, hdefault, true_and]
      constructor
      · rintro ⟨given, hread, houtput, rfl⟩
        exact ⟨houtput, hread⟩
      · rintro ⟨houtput, hread⟩
        exact ⟨format, hread, houtput, rfl⟩

end GivenBy

/-! ## Command lines -/

/-- The parts of a command line: the settings in front of the task, the task, and its own. -/
structure Invocation where
  shared : List Setting
  task : TaskName
  own : List Setting

namespace Invocation

/-- How a command line is written. A mark may say that the settings of the task have ended. -/
def Written (invocation : Invocation) (words : List String) : Prop :=
  ∃ front name back tail, words = front ++ name :: (back ++ tail) ∧
    Setting.Listed invocation.shared front ∧ TaskName.ofName? name = some invocation.task ∧
    Setting.Listed invocation.own back ∧ tail ∈ [[], ["--"]]

/-- The settings of a command line stand where they may, nothing is set twice in one place but
tags, and log lines have a known format. -/
structure Proper (environment : String → Option String) (invocation : Invocation) : Prop where
  isShared : ∀ setting ∈ invocation.shared, setting.isShared = true
  belongsTo : ∀ setting ∈ invocation.own, setting.belongsTo invocation.task = true
  once : ∀ settings ∈ [invocation.shared, invocation.own], Setting.Once settings
  isLogFormat : ∀ settings ∈ [invocation.shared, invocation.own],
    ∀ value, Setting.Given environment settings .logFormat value → isLogFormat value = true

/-- What a command line asks for: its document is given, and so are its task and its options. -/
structure Asks (environment : String → Option String) (conventions : Conventions)
    (invocation : Invocation) (command : Command) : Prop where
  spec : .option .spec command.spec ∈ invocation.own
  task : command.task.GivenBy invocation.task invocation.own
  options : command.options.GivenBy environment invocation.own conventions

end Invocation

section Usage
variable {environment : String → Option String} {settings : List Setting} {words : List String}
variable {conventions : Conventions} {invocation : Invocation} {command : Command}

theorem Command.agree_iff : Command.agree environment settings = true ↔
    Setting.Once settings ∧
      ∀ value, Setting.Given environment settings .logFormat value → isLogFormat value = true := by
  simp [Command.agree, Setting.repeats_eq_false_iff, Setting.mem_valuesOr]

/-- The name of a task is no setting. -/
theorem TaskName.spelled_of_ofName? {name : String} {task : TaskName}
    (h : TaskName.ofName? name = some task) : Word.plain.Spelled name := by
  obtain ⟨before, behind, hnames, -⟩ := List.lookup_eq_some_iff.1 h
  have hmem : (name, task) ∈ [("compile", TaskName.compile), ("validate", TaskName.validate)] := by
    simp [hnames]
  rcases List.mem_pair.1 hmem with heq | heq
  · obtain ⟨rfl, -⟩ := Prod.mk.inj heq
    exact .plain (by decide)
  · obtain ⟨rfl, -⟩ := Prod.mk.inj heq
    exact .plain (by decide)

/-- What has to be read for a command line to be read. -/
theorem Command.parse?_cases : Command.parse? environment words conventions = some command ↔
    ∃ (invocation : Invocation) (name : String) (rest left : List String),
      settings? words = some (invocation.shared, name :: rest) ∧
      TaskName.ofName? name = some invocation.task ∧
      settings? rest = some (invocation.own, left) ∧ left ∈ [[], ["--"]] ∧
      (Setting.values .spec invocation.own).head? = some command.spec ∧
      invocation.Proper environment ∧
      Command.task? invocation.task invocation.own = some command.task ∧
      Command.options? environment invocation.own conventions = some command.options := by
  have hproper : ∀ invocation : Invocation, invocation.Proper environment ↔
      invocation.shared.all Setting.isShared ∧
        invocation.own.all (Setting.belongsTo invocation.task) ∧
        agree environment invocation.shared ∧ agree environment invocation.own := by
    intro invocation
    simp only [List.all_eq_true, agree_iff]
    constructor
    · rintro ⟨hshared, hown, honce, hformat⟩
      exact ⟨hshared, hown, ⟨honce _ (by simp), hformat _ (by simp)⟩,
        ⟨honce _ (by simp), hformat _ (by simp)⟩⟩
    · rintro ⟨hshared, hown, ⟨honce, hformat⟩, ⟨honce', hformat'⟩⟩
      exact ⟨hshared, hown, by simpa using ⟨honce, honce'⟩, by simpa using ⟨hformat, hformat'⟩⟩
  constructor
  · intro h
    unfold Command.parse? at h
    obtain ⟨⟨shared, rest⟩, hshared, h⟩ := Option.bind_eq_some_iff.1 h
    dsimp only at h
    cases rest with
    | nil => cases h
    | cons name rest =>
      obtain ⟨task, htask, h⟩ := Option.bind_eq_some_iff.1 h
      obtain ⟨⟨own, left⟩, hown, h⟩ := Option.bind_eq_some_iff.1 h
      obtain ⟨spec, hspec, h⟩ := Option.bind_eq_some_iff.1 h
      dsimp only at h
      split at h
      · rename_i hcond
        obtain ⟨asked, hasked, h⟩ := Option.bind_eq_some_iff.1 h
        obtain ⟨options, hoptions, h⟩ := Option.bind_eq_some_iff.1 h
        obtain rfl := Option.some.inj h
        obtain ⟨hplaced, hbelongs, hagree, hagree', hleft⟩ := hcond
        exact ⟨⟨shared, task, own⟩, name, rest, left, hshared, htask, hown, hleft, hspec,
          (hproper _).2 ⟨hplaced, hbelongs, hagree, hagree'⟩, hasked, hoptions⟩
      · cases h
  · rintro ⟨⟨shared, task, own⟩, name, rest, left, hshared, htask, hown, hleft, hspec, hcond,
      hasked, hoptions⟩
    obtain ⟨hplaced, hbelongs, hagree, hagree'⟩ := (hproper _).1 hcond
    simp only [parse?, hshared, htask, hown, hspec, Option.bind_eq_bind, Option.bind_some]
    rw [if_pos ⟨hplaced, hbelongs, hagree, hagree', hleft⟩, hasked, hoptions]
    rfl

/-- Command lines are read as they are written. -/
theorem Command.parse?_eq_some_iff :
    Command.parse? environment words conventions = some command ↔
      ∃ invocation : Invocation, invocation.Written words ∧ invocation.Proper environment ∧
        invocation.Asks environment conventions command := by
  have hasks : ∀ invocation : Invocation, invocation.Proper environment →
      (invocation.Asks environment conventions command ↔
        (Setting.values .spec invocation.own).head? = some command.spec ∧
          Command.task? invocation.task invocation.own = some command.task ∧
          Command.options? environment invocation.own conventions = some command.options) := by
    intro invocation hproper
    have honce := hproper.once invocation.own (by simp)
    rw [Setting.head?_values honce (by decide), task?_eq_some_iff honce,
      options?_eq_some_iff honce]
    exact ⟨fun ⟨hspec, htask, hoptions⟩ => ⟨hspec, htask, hoptions⟩,
      fun ⟨hspec, htask, hoptions⟩ => ⟨hspec, htask, hoptions⟩⟩
  rw [Command.parse?_cases]
  constructor
  · rintro ⟨invocation, name, rest, left, hshared, hname, hown, hleft, hspec, hproper, htask,
      hoptions⟩
    obtain ⟨front, rfl, hfront, -⟩ := settings?_eq_some_iff.1 hshared
    obtain ⟨back, rfl, hback, -⟩ := settings?_eq_some_iff.1 hown
    exact ⟨invocation, ⟨front, name, back, left, rfl, hfront, hname, hback, hleft⟩, hproper,
      (hasks invocation hproper).2 ⟨hspec, htask, hoptions⟩⟩
  · rintro ⟨invocation, ⟨front, name, back, left, rfl, hfront, hname, hback, hleft⟩, hproper,
      hasked⟩
    obtain ⟨hspec, htask, hoptions⟩ := (hasks invocation hproper).1 hasked
    have hended : Setting.Ended left := by
      intro word hword
      obtain rfl | rfl : left = [] ∨ left = ["--"] := by simpa using hleft
      · cases hword
      · obtain rfl := Option.some.inj hword
        exact Or.inr .endOfSettings
    refine ⟨invocation, name, back ++ left, left, ?_, hname, ?_, hleft, hspec, hproper, htask,
      hoptions⟩
    · refine settings?_eq_some_iff.2 ⟨front, rfl, hfront, fun word hword => ?_⟩
      obtain rfl := Option.some.inj hword
      exact Or.inl (TaskName.spelled_of_ofName? hname)
    · exact settings?_eq_some_iff.2 ⟨back, rfl, hback, hended⟩

end Usage

/-! ## The same document and options -/

namespace Setting
variable {environment : String → Option String} {settings : List Setting} {task : TaskName}

/-- Every setting can be written, whatever its value is. -/
theorem exists_written (setting : Setting) : ∃ words, setting.Written words := by
  cases setting with
  | option name value =>
    obtain ⟨long, hlong, heffect⟩ : ∃ long, '=' ∉ String.toList long ∧
        (Word.long long (some value)).effect? = some (.complete (.option name value)) := by
      cases name
      · exact ⟨"spec", by decide, rfl⟩
      · exact ⟨"output", by decide, rfl⟩
      · exact ⟨"format", by decide, rfl⟩
      · exact ⟨"select-tag", by decide, rfl⟩
      · exact ⟨"uuid-base", by decide, rfl⟩
      · exact ⟨"doc-name", by decide, rfl⟩
      · exact ⟨"log-level", by decide, rfl⟩
      · exact ⟨"log-format", by decide, rfl⟩
    exact ⟨_, .whole (.longWith hlong value) heffect⟩
  | flag name =>
    obtain ⟨long, hlong, hne, heffect⟩ : ∃ long, '=' ∉ String.toList long ∧ long ≠ "" ∧
        (Word.long long none).effect? = some (.complete (.flag name)) := by
      cases name
      · exact ⟨"inso-compatible", by decide, by decide, rfl⟩
      · exact ⟨"no-id", by decide, by decide, rfl⟩
      · exact ⟨"generate-security", by decide, by decide, rfl⟩
      · exact ⟨"ignore-security-errors", by decide, by decide, rfl⟩
      · exact ⟨"ignore-circular-refs", by decide, by decide, rfl⟩
    exact ⟨_, .whole (.long hlong hne) heffect⟩

theorem exists_listed (settings : List Setting) : ∃ words, Listed settings words := by
  induction settings with
  | nil => exact ⟨_, .nil⟩
  | cons setting settings ih =>
    obtain ⟨front, hfront⟩ := setting.exists_written
    obtain ⟨back, hback⟩ := ih
    exact ⟨_, .cons hfront hback⟩

theorem mem_filter_belongsTo {setting : Setting} (h : setting.belongsTo task = true) :
    setting ∈ settings.filter (belongsTo task) ↔ setting ∈ settings := by
  simp [h]

/-- Settings that a task has have the same values among those that belong to the task. -/
theorem given_filter_iff {name : OptionName} {value : String} (h : name.belongsTo task = true) :
    Given environment (settings.filter (belongsTo task)) name value ↔
      Given environment settings name value := by
  have hmem : ∀ other, .option name other ∈ settings.filter (belongsTo task) ↔
      .option name other ∈ settings := fun other => mem_filter_belongsTo h
  simp only [Given, hmem]

theorem valuesOr_filter {name : OptionName} (h : name.belongsTo task = true) :
    valuesOr environment name (settings.filter (belongsTo task)) =
      valuesOr environment name settings := by
  have hvalues : values name (settings.filter (belongsTo task)) = values name settings := by
    rw [values, values, List.filterMap_filter]
    refine List.filterMap_congr fun setting _ => ?_
    cases setting with
    | option other value =>
      by_cases hother : other = name
      · subst hother
        simp [belongsTo, h]
      · simp [hother]
    | flag other => simp
  rw [valuesOr, hvalues, valuesOr]

end Setting

/-- The command line that validates what another one compiles. -/
def Invocation.validating (invocation : Invocation) : Invocation :=
  ⟨invocation.shared, .validate, invocation.own.filter (Setting.belongsTo .validate)⟩

/-- The options of a run are given alike without what only a compilation has. -/
theorem Options.GivenBy.filter {environment : String → Option String} {settings : List Setting}
    {conventions : Conventions} {options : Options}
    (h : options.GivenBy environment settings conventions) :
    options.GivenBy environment (settings.filter (Setting.belongsTo .validate)) conventions := by
  have hspace' : ∀ text, Setting.Given environment
      (settings.filter (Setting.belongsTo .validate)) .uuidBase text ↔
        Setting.Given environment settings .uuidBase text :=
    fun text => Setting.given_filter_iff rfl
  have hflag : ∀ name, .flag name ∈ settings.filter (Setting.belongsTo .validate) ↔
      .flag name ∈ settings := fun name => Setting.mem_filter_belongsTo rfl
  obtain ⟨htags, hdoc, hspace, hflat, hid, hopen, hsecurity, hcircular, hconventions⟩ := h
  refine ⟨?_, fun name => ?_, ?_, hflat.trans (hflag _).symm, hid.trans (hflag _).symm,
    hopen.trans (hflag _).symm, hsecurity.trans (hflag _).symm, hcircular.trans (hflag _).symm,
    hconventions⟩
  · rw [htags, Setting.valuesOr_filter rfl]
  · rw [hdoc, Setting.given_filter_iff rfl]
  · simpa only [hspace'] using hspace

/-- What a command line asks to compile can be validated with the same options. -/
theorem Command.exists_validating {environment : String → Option String} {words : List String}
    {conventions : Conventions} {command : Command}
    (h : Command.parse? environment words conventions = some command) :
    ∃ words', Command.parse? environment words' conventions =
      some { command with task := .validate } := by
  obtain ⟨invocation, -, hproper, hasked⟩ := Command.parse?_eq_some_iff.1 h
  obtain ⟨front, hfront⟩ := Setting.exists_listed invocation.validating.shared
  obtain ⟨back, hback⟩ := Setting.exists_listed invocation.validating.own
  have hwritten : invocation.validating.Written (front ++ "validate" :: (back ++ [])) :=
    ⟨front, "validate", back, [], rfl, hfront, rfl, hback, by simp⟩
  refine ⟨_, Command.parse?_eq_some_iff.2 ⟨invocation.validating, hwritten, ?_, ?_⟩⟩
  · obtain ⟨hshared, -, honce, hformat⟩ := hproper
    have hown := (honce invocation.own (by simp)).filter (Setting.belongsTo .validate)
    have hformat' : ∀ value, Setting.Given environment invocation.validating.own .logFormat value →
        isLogFormat value = true :=
      fun value h => hformat invocation.own (by simp) value ((Setting.given_filter_iff rfl).1 h)
    refine ⟨hshared, fun setting h => (List.mem_filter.1 h).2, ?_, ?_⟩
    · simpa [Invocation.validating] using ⟨honce invocation.shared (by simp), hown⟩
    · rintro settings hsettings
      rcases List.mem_pair.1 hsettings with rfl | rfl
      · exact hformat invocation.shared (by simp)
      · exact hformat'
  · exact ⟨(Setting.mem_filter_belongsTo rfl).2 hasked.spec, rfl, hasked.options.filter⟩

end ApiGateway
