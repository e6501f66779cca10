import ApiGateway.Proofs.Regex.Read
import ApiGateway.Proofs.Route.Groups

/-!
# What a route path matches

The expression of a template reads back as its literal text and its groups, as long as literal text
has none of the characters with a meaning that are not escaped. Then it matches the paths that the
template stands for and no others.

## Main definitions

* `Template.literals`: the literal texts of a template.
* `Template.Plain`: literal text in which every character with a meaning is escaped.
* `Template.Fills`: the paths that a template stands for.

## Main results

* `Template.quoted_escape_iff`: which literal text is escaped without loss.
* `Template.read_pattern`: the expression of a template.
* `Template.accepts_iff_fills`: the texts that it matches.
* `pattern_of_routePath`: a route path matches the paths of its template if its literal text is
  plain, and not otherwise.
-/
namespace ApiGateway.Template

/-! ## Escapes -/

/-- The literal texts of a template, in order. -/
def literals (t : Template) : List (List Char) := t.literal :: t.slots.map Slot.literal

/-- Literal text without the characters that have a meaning and are not escaped. An opening brace
has one too, but stands in no literal text. -/
def Plain (literal : List Char) : Prop := ∀ c ∈ literal, c ∉ ['\\', '^', '|']

theorem escape_cons (c : Char) (literal : List Char) :
    escape (c :: literal) = (if c ∈ specials then ['\\', c] else [c]) ++ escape literal := rfl

theorem escape_cons_of_mem {c : Char} (h : c ∈ specials) (literal : List Char) :
    escape (c :: literal) = '\\' :: c :: escape literal := by
  rw [escape_cons, if_pos h]
  rfl

theorem escape_cons_of_notMem {c : Char} (h : c ∉ specials) (literal : List Char) :
    escape (c :: literal) = c :: escape literal := by
  rw [escape_cons, if_neg h]
  rfl

/-- What is escaped and what is not. -/
theorem mem_metacharacters_iff {c : Char} :
    c ∈ Regex.metacharacters ↔ c ∈ specials ∨ c ∈ ['\\', '^', '|'] ∨ c = '\x7b' := by
  simp only [Regex.metacharacters, specials, List.mem_cons, List.not_mem_nil, or_false]
  tauto

theorem unescape_cons_of_ne {c : Char} (h : c ≠ '\\') (rest : List Char) :
    Regex.unescape (c :: rest) = c :: Regex.unescape rest := by
  rw [Regex.unescape]
  rintro _ _ rfl
  exact absurd rfl h

theorem quoted_cons_of_ne {c : Char} (h : c ≠ '\\') (rest : List Char) :
    Regex.Quoted (c :: rest) ↔ c ∉ Regex.metacharacters ∧ Regex.Quoted rest := by
  rw [Regex.Quoted]
  rintro _ _ rfl
  exact absurd rfl h

/-- Escaping and reading back keeps a character that is no backslash. -/
theorem unescape_escape_cons {c : Char} (h : c ≠ '\\') (literal : List Char) :
    Regex.unescape (escape (c :: literal)) = c :: Regex.unescape (escape literal) := by
  by_cases hc : c ∈ specials
  · rw [escape_cons_of_mem hc, Regex.unescape]
  · rw [escape_cons_of_notMem hc, unescape_cons_of_ne h]

theorem backslash_notMem_specials : '\\' ∉ specials := by decide

theorem ne_backslash_of_mem {c : Char} (h : c ∈ specials) : c ≠ '\\' := by
  rintro rfl
  exact backslash_notMem_specials h

/-- A backslash takes the character behind it along, or the backslash that escapes it. -/
theorem unescape_escape_backslash (c : Char) (literal : List Char) :
    Regex.unescape (escape ('\\' :: c :: literal)) =
      (if c ∈ specials then ['\\', c] else [c]) ++ Regex.unescape (escape literal) := by
  rw [escape_cons_of_notMem backslash_notMem_specials]
  by_cases hc : c ∈ specials
  · rw [escape_cons_of_mem hc, Regex.unescape, unescape_cons_of_ne (ne_backslash_of_mem hc),
      if_pos hc]
    rfl
  · rw [escape_cons_of_notMem hc, Regex.unescape, if_neg hc]
    rfl

/-- No character is gained by escaping and reading back. -/
theorem length_unescape_escape_le :
    ∀ literal, (Regex.unescape (escape literal)).length ≤ literal.length
  | [] => Nat.le_refl 0
  | [c] => by
    by_cases hc : c = '\\'
    · subst hc
      decide
    · rw [unescape_escape_cons hc]
      simp [escape, Regex.unescape]
  | c :: d :: literal => by
    by_cases hc : c = '\\'
    · have ih := length_unescape_escape_le literal
      subst hc
      rw [unescape_escape_backslash, List.length_append, List.length_cons, List.length_cons]
      split
      · simpa using by omega
      · simpa using by omega
    · have ih := length_unescape_escape_le (d :: literal)
      rw [unescape_escape_cons hc, List.length_cons, List.length_cons]
      exact Nat.succ_le_succ ih

/-- Literal text is escaped without loss exactly when it is plain. -/
theorem quoted_escape_iff {literal : List Char} (h : '\x7b' ∉ literal) :
    Regex.Quoted (escape literal) ∧ Regex.unescape (escape literal) = literal ↔ Plain literal := by
  induction literal with
  | nil => simp [escape, Regex.Quoted, Regex.unescape, Plain]
  | cons c literal ih =>
    rw [List.mem_cons, not_or] at h
    have ih := ih h.2
    have hplain : Plain (c :: literal) ↔ c ∉ ['\\', '^', '|'] ∧ Plain literal :=
      List.forall_mem_cons
    rw [hplain]
    by_cases hc : c = '\\'
    · -- a backslash is lost, or another character loses its own
      subst hc
      simp only [List.mem_cons, true_or, not_true_eq_false, false_and, iff_false, not_and]
      intro hquoted hback
      cases literal with
      | nil => exact absurd hquoted (by simp [escape, specials, Regex.Quoted, Regex.metacharacters])
      | cons d literal =>
        rw [unescape_escape_backslash] at hback
        by_cases hd : d ∈ specials
        · rw [escape_cons_of_notMem backslash_notMem_specials, escape_cons_of_mem hd, Regex.Quoted,
            quoted_cons_of_ne (ne_backslash_of_mem hd)] at hquoted
          exact hquoted.1 (mem_metacharacters_iff.2 (Or.inl hd))
        · have hlength := length_unescape_escape_le literal
          have hsame := congrArg List.length hback
          simp [hd] at hsame
          omega
    · have hquoted : Regex.Quoted (escape (c :: literal)) ↔
          c ∉ ['\\', '^', '|'] ∧ Regex.Quoted (escape literal) := by
        by_cases hmem : c ∈ specials
        · have hescaped : ∀ d ∈ specials, d ∉ ['\\', '^', '|'] := by simp [specials]
          rw [escape_cons_of_mem hmem, Regex.Quoted]
          simp only [hescaped c hmem, not_false_eq_true, true_and]
        · rw [escape_cons_of_notMem hmem, quoted_cons_of_ne hc, mem_metacharacters_iff]
          simp [hmem, Ne.symm h.1]
      rw [hquoted, unescape_escape_cons hc, List.cons.injEq, and_assoc, ← ih]
      simp

/-! ## Tokens of a template -/

open Regex (Token)

/-- The token of a character of literal text without backslashes. -/
def literalToken (c : Char) : Token :=
  if c = '^' then .part .start else if c = '|' then .bar else .part (.char c)

/-- The tokens of the group of a parameter. -/
def groupTokens (name : String) (mayBeEmpty : Bool) : List Token :=
  [.opening (some name), .part (.noneOf ['#', '?', '/']),
    .times (if mayBeEmpty then .star else .plus), .closing]

section Tokens
variable {literal rest : List Char}

theorem tokens_plain_cons {c : Char} (h : c ∉ ['\\', '(', '[', '\x7b']) (rest : List Char) :
    Regex.tokens .plain (c :: rest) =
      (Regex.tokens .plain rest).map (Regex.plainToken c :: ·) := by
  simp only [List.mem_cons, List.not_mem_nil, or_false, not_or] at h
  rw [Regex.tokens] <;> simp_all

/-- Escaped literal text is read character by character. -/
theorem tokens_escape (hbackslash : '\\' ∉ literal) (hopening : '\x7b' ∉ literal) :
    Regex.tokens .plain (escape literal ++ rest) =
      (Regex.tokens .plain rest).map (literal.map literalToken ++ ·) := by
  induction literal with
  | nil => exact Option.map_id'.symm
  | cons c literal ih =>
    rw [List.mem_cons, not_or] at hbackslash hopening
    have ih := ih hbackslash.2 hopening.2
    by_cases hc : c ∈ specials
    · have hchar : ∀ d ∈ specials, d.isAlphanum = false ∧ d ≠ '^' ∧ d ≠ '|' := by
        simp [specials, Char.isAlphanum, Char.isAlpha, Char.isUpper, Char.isLower, Char.isDigit]
      obtain ⟨hword, hstart, hbar⟩ := hchar c hc
      have htoken : literalToken c = .part (.char c) := by simp [literalToken, hstart, hbar]
      rw [escape_cons_of_mem hc]
      simp only [List.cons_append, Regex.tokens, hword, Bool.false_eq_true, if_false, ih,
        Option.map_map, List.map_cons, htoken]
      rfl
    · have hspecial := hc
      simp only [specials, List.mem_cons, List.not_mem_nil, or_false, not_or] at hspecial
      have htoken : Regex.plainToken c = literalToken c := by
        unfold Regex.plainToken literalToken
        split <;> simp_all
      have hplain : c ∉ ['\\', '(', '[', '\x7b'] := by
        simp [Ne.symm hbackslash.1, Ne.symm hopening.1, hspecial]
      rw [escape_cons_of_notMem hc, List.cons_append, tokens_plain_cons hplain, ih, htoken,
        Option.map_map]
      rfl

/-- The name of a group is read up to its end. -/
theorem tokens_name {name : List Char} (h : '>' ∉ name) (read rest : List Char) :
    Regex.tokens (.name read) (name ++ '>' :: rest) =
      if Regex.isGroupName (read.reverse ++ name) then
        (Regex.tokens .plain rest).map (.opening (some (String.ofList (read.reverse ++ name))) :: ·)
      else none := by
  induction name generalizing read with
  | nil =>
    rw [List.nil_append, Regex.tokens, List.append_nil]
  | cons c name ih =>
    rw [List.mem_cons, not_or] at h
    rw [List.cons_append, Regex.tokens, ih h.2]
    · simp
    · exact Ne.symm h.1

theorem isGroupName_of_isCaptureName {name : String} (h : Naming.IsCaptureName name)
    (hlength : name.length ≤ 32) : Regex.isGroupName name.toList = true := by
  have hchars := h.forall_mem
  obtain ⟨c, rest, hname, hc, -⟩ := h
  have hdigit : c.isDigit = false := by
    rcases hc with halpha | rfl
    · cases hdigit : c.isDigit with
      | false => rfl
      | true => rw [Naming.isAlpha_eq_false_of_isDigit hdigit] at halpha; exact halpha.symm
    · rfl
  rw [String.length] at hlength
  simp only [Regex.isGroupName, Bool.and_eq_true, List.all_eq_true, Bool.or_eq_true, beq_iff_eq,
    decide_eq_true_eq]
  exact ⟨⟨hchars, hlength⟩, by simp [hname, hdigit]⟩

/-- A group of a parameter is read as one. -/
theorem tokens_group {name : String} (h : Naming.IsCaptureName name) (hlength : name.length ≤ 32)
    (mayBeEmpty : Bool) (rest : List Char) :
    Regex.tokens .plain (group name mayBeEmpty ++ rest) =
      (Regex.tokens .plain rest).map (groupTokens name mayBeEmpty ++ ·) := by
  have hend : '>' ∉ name.toList := by
    intro hmem
    have hchar := h.forall_mem _ hmem
    revert hchar
    decide
  have hgroup : group name mayBeEmpty ++ rest = '(' :: '?' :: '<' ::
      (name.toList ++ '>' :: '[' :: '^' :: '#' :: '?' :: '/' :: ']' ::
        (if mayBeEmpty then '*' else '+') :: ')' :: rest) := by
    simp [group]
  rw [hgroup, Regex.tokens, tokens_name hend, List.reverse_nil, List.nil_append,
    if_pos (isGroupName_of_isCaptureName h hlength)]
  cases mayBeEmpty
  all_goals
    simp [Regex.tokens, Regex.plainToken, groupTokens, Function.comp_def]

end Tokens

/-! ## The expression of a template -/

/-- The expression of the group of a parameter. -/
def groupRegex (name : String) (mayBeEmpty : Bool) : Regex :=
  .group (some name) (Regex.sequence
    [(if mayBeEmpty then Regex.Times.star else .plus).apply (.noneOf ['#', '?', '/'])])

/-- What a character of literal text without backslashes adds to the alternatives that are finished
and the parts of the next one. -/
def advance (state : List Regex × List Regex) (c : Char) : List Regex × List Regex :=
  if c = '^' then (state.1, .start :: state.2)
  else if c = '|' then (Regex.sequence state.2.reverse :: state.1, [])
  else (state.1, .char c :: state.2)

section Expressions
variable (doc : Document) (naming : Naming) (parameters : List Parameter)

/-- The tokens of a parameter and the literal text behind it. -/
def Slot.tokens (s : Slot) : List Token :=
  groupTokens (naming.capture s.key) (decide (AllowsEmpty doc parameters s.key)) ++
    s.literal.map literalToken

/-- The group of a parameter. -/
def Slot.group (s : Slot) : Regex :=
  groupRegex (naming.capture s.key) (decide (AllowsEmpty doc parameters s.key))

/-- The parts of a parameter and of the literal text behind it, if that is plain. -/
def Slot.parts (s : Slot) : List Regex :=
  s.group doc naming parameters :: s.literal.map .char

/-- What a parameter adds, with the literal text behind it. -/
def advanceSlot (state : List Regex × List Regex) (s : Slot) : List Regex × List Regex :=
  s.literal.foldl advance (state.1, s.group doc naming parameters :: state.2)

/-- The alternatives and parts of a template. -/
def state (t : Template) : List Regex × List Regex :=
  t.slots.foldl (advanceSlot doc naming parameters) (t.literal.foldl advance ([], []))

/-- The expression of a template whose literal text has no backslashes. -/
def expression (t : Template) : Regex :=
  Regex.close (t.state doc naming parameters).1 (.stop :: (t.state doc naming parameters).2)

end Expressions

section Parsing
variable {doc : Document} {naming : Naming} {parameters : List Parameter} {ts : List Token}
  {outer : List (Option String × List Regex × List Regex)}

theorem parse_literalToken (c : Char) (finished parts : List Regex) :
    Regex.parse (literalToken c :: ts) finished parts outer =
      Regex.parse ts (advance (finished, parts) c).1 (advance (finished, parts) c).2 outer := by
  unfold literalToken advance
  split
  · rw [Regex.parse]
  · split
    · rw [Regex.parse]
    · rw [Regex.parse]

theorem parse_literal (literal : List Char) (finished parts : List Regex) :
    Regex.parse (literal.map literalToken ++ ts) finished parts outer =
      Regex.parse ts (literal.foldl advance (finished, parts)).1
        (literal.foldl advance (finished, parts)).2 outer := by
  induction literal generalizing finished parts with
  | nil => rfl
  | cons c literal ih =>
    rw [List.map_cons, List.cons_append, parse_literalToken, ih, List.foldl_cons]

theorem parse_group (name : String) (mayBeEmpty : Bool) (finished parts : List Regex) :
    Regex.parse (groupTokens name mayBeEmpty ++ ts) finished parts outer =
      Regex.parse ts finished (groupRegex name mayBeEmpty :: parts) outer := by
  simp only [groupTokens, List.cons_append, List.nil_append, Regex.parse, Regex.isRepeatable,
    if_true]
  rfl

theorem parse_slots (slots : List Slot) (state : List Regex × List Regex) :
    Regex.parse (slots.flatMap (Slot.tokens doc naming parameters) ++ ts) state.1 state.2 outer =
      Regex.parse ts (slots.foldl (advanceSlot doc naming parameters) state).1
        (slots.foldl (advanceSlot doc naming parameters) state).2 outer := by
  induction slots generalizing state with
  | nil => rfl
  | cons s slots ih =>
    rw [List.flatMap_cons, Slot.tokens, List.append_assoc, List.append_assoc, parse_group,
      parse_literal, List.foldl_cons, ← ih]
    rfl

theorem tokens_slots {slots : List Slot} (hfits : ∀ s ∈ slots, s.Fits doc naming parameters)
    (hbackslash : ∀ s ∈ slots, '\\' ∉ s.literal) (rest : List Char) :
    Regex.tokens .plain (slots.flatMap (Slot.regex doc naming parameters) ++ rest) =
      (Regex.tokens .plain rest).map (slots.flatMap (Slot.tokens doc naming parameters) ++ ·) := by
  induction slots with
  | nil => exact Option.map_id'.symm
  | cons s slots ih =>
    rw [List.forall_mem_cons] at hfits hbackslash
    rw [List.flatMap_cons, Slot.regex, List.append_assoc, List.append_assoc,
      tokens_group (naming.isCaptureName_capture s.key) hfits.1.length_le,
      tokens_escape hbackslash.1 s.opening_notMem_literal, ih hfits.2 hbackslash.2, Option.map_map,
      Option.map_map]
    simp [Function.comp_def, Slot.tokens]

/-- Without backslashes in literal text the regular expression of a template can be read. -/
theorem read_pattern {t : Template} (hfits : ∀ s ∈ t.slots, s.Fits doc naming parameters)
    (hbackslash : ∀ literal ∈ t.literals, '\\' ∉ literal) :
    Regex.read (t.pattern doc naming parameters) = some (t.expression doc naming parameters) := by
  rw [literals, List.forall_mem_cons, List.forall_mem_map] at hbackslash
  have hstop : Regex.tokens .plain ['$'] = some [.part .stop] := rfl
  rw [Regex.read, pattern, List.append_assoc, tokens_escape hbackslash.1 t.opening_notMem_literal,
    tokens_slots hfits hbackslash.2, hstop, Option.map_some, Option.map_some, Option.bind_some,
    parse_literal, parse_slots]
  rfl

end Parsing

/-! ## Paths of a template -/

section Paths
variable (doc : Document) (parameters : List Parameter)

/-- A value that a parameter may have in a path. -/
def Slot.Takes (s : Slot) (value : List Char) : Prop :=
  (value = [] → AllowsEmpty doc parameters s.key) ∧ ∀ c ∈ value, c ∉ ['#', '?', '/']

/-- A path that a template stands for: its text with a value in the place of each parameter. -/
def Fills (t : Template) (path : List Char) : Prop :=
  ∃ values : List (List Char), List.Forall₂ (Slot.Takes doc parameters) t.slots values ∧
    path = t.literal ++ (List.zipWith (fun s value => value ++ s.literal) t.slots values).flatten

/-- The least length of a value and the literal text behind it. -/
def Slot.leastLength (s : Slot) : ℕ :=
  (if AllowsEmpty doc parameters s.key then 0 else 1) + s.literal.length

/-- The least length of a path. -/
def leastLength (t : Template) : ℕ :=
  t.literal.length + (t.slots.map (Slot.leastLength doc parameters)).sum

variable {doc parameters}

theorem leastLength_le {t : Template} {path : List Char} (h : t.Fills doc parameters path) :
    t.leastLength doc parameters ≤ path.length := by
  obtain ⟨values, htakes, rfl⟩ := h
  rw [leastLength, List.length_append, List.length_flatten]
  refine Nat.add_le_add_left ?_ _
  generalize t.slots = slots at htakes ⊢
  induction htakes with
  | nil => exact Nat.le_refl 0
  | @cons s value slots values htake _ ih =>
    have hvalue : Slot.leastLength doc parameters s ≤ value.length + s.literal.length := by
      unfold Slot.leastLength
      split
      · exact Nat.add_le_add_right (Nat.zero_le _) _
      · rename_i hempty
        exact Nat.add_le_add_right (List.length_pos_of_ne_nil (mt htake.1 hempty)) _
    simpa using Nat.add_le_add hvalue ih

variable (doc parameters) in
/-- Every template stands for a path. -/
theorem exists_fills (t : Template) : ∃ path, t.Fills doc parameters path := by
  refine ⟨_, t.slots.map fun _ => ['x'], ?_, rfl⟩
  rw [List.forall₂_map_right_iff, List.forall₂_same]
  exact fun s _ => ⟨by simp, by simp⟩

end Paths

section Matching
variable {doc : Document} {naming : Naming} {parameters : List Parameter}
  {before text after : List Char}

/-- The group of a parameter matches the values that it may have. -/
theorem Slot.matches_group_iff {s : Slot} :
    (s.group doc naming parameters).Matches before text after ↔ s.Takes doc parameters text := by
  rw [Slot.group, groupRegex, Regex.matches_group_iff, Regex.matches_sequence_singleton, Slot.Takes]
  by_cases h : AllowsEmpty doc parameters s.key
  · simp [h, Regex.Times.apply, Regex.matches_star_noneOf_iff]
  · simp [h, Regex.Times.apply, Regex.matches_plus_noneOf_iff]

theorem matches_slots_iff {slots : List Slot} :
    (Regex.sequence (slots.flatMap (Slot.parts doc naming parameters))).Matches before text after ↔
      ∃ values : List (List Char), List.Forall₂ (Slot.Takes doc parameters) slots values ∧
        text = (List.zipWith (fun s value => value ++ s.literal) slots values).flatten := by
  induction slots generalizing before text with
  | nil => simp [Regex.matches_sequence_nil]
  | cons s slots ih =>
    have hslot : ∀ {before text after}, (Regex.sequence (s.parts doc naming parameters)).Matches
        before text after ↔ ∃ value, s.Takes doc parameters value ∧ text = value ++ s.literal := by
      intro before text after
      rw [Slot.parts, Regex.matches_sequence_cons_iff]
      simp only [Slot.matches_group_iff, Regex.matches_sequence_map_char]
      exact ⟨fun ⟨value, _, htext, hvalue, hliteral⟩ => ⟨value, hvalue, hliteral ▸ htext⟩,
        fun ⟨value, hvalue, htext⟩ => ⟨value, _, htext, hvalue, rfl⟩⟩
    rw [List.flatMap_cons, Regex.matches_sequence_append]
    simp only [hslot, ih, List.forall₂_cons_left_iff]
    constructor
    · rintro ⟨_, _, rfl, ⟨value, hvalue, rfl⟩, values, hvalues, rfl⟩
      exact ⟨value :: values, ⟨value, values, hvalue, hvalues, rfl⟩, by simp⟩
    · rintro ⟨_, ⟨value, values, hvalue, hvalues, rfl⟩, rfl⟩
      exact ⟨_, _, by simp, ⟨value, hvalue, rfl⟩, values, hvalues, rfl⟩

end Matching

/-! ## Plain literal text -/

section PlainText
variable {doc : Document} {naming : Naming} {parameters : List Parameter}

theorem foldl_advance_of_plain {literal : List Char} (h : Plain literal)
    (finished parts : List Regex) :
    literal.foldl advance (finished, parts) =
      (finished, (literal.map Regex.char).reverse ++ parts) := by
  induction literal generalizing parts with
  | nil => rfl
  | cons c literal ih =>
    obtain ⟨hc, hrest⟩ := List.forall_mem_cons.1 h
    simp only [List.mem_cons, List.not_mem_nil, or_false, not_or] at hc
    rw [List.foldl_cons, advance, if_neg hc.2.1, if_neg hc.2.2, ih hrest]
    simp

theorem foldl_advanceSlot_of_plain {slots : List Slot} (h : ∀ s ∈ slots, Plain s.literal)
    (finished parts : List Regex) :
    slots.foldl (advanceSlot doc naming parameters) (finished, parts) =
      (finished, (slots.flatMap (Slot.parts doc naming parameters)).reverse ++ parts) := by
  induction slots generalizing parts with
  | nil => rfl
  | cons s slots ih =>
    rw [List.forall_mem_cons] at h
    rw [List.foldl_cons, advanceSlot, foldl_advance_of_plain h.1, ih h.2]
    simp [Slot.parts]

/-- Plain literal text is read character by character, between the groups. -/
theorem expression_of_plain {t : Template} (h : ∀ literal ∈ t.literals, Plain literal) :
    t.expression doc naming parameters = Regex.sequence (t.literal.map .char ++
      (t.slots.flatMap (Slot.parts doc naming parameters) ++ [.stop])) := by
  rw [literals, List.forall_mem_cons, List.forall_mem_map] at h
  rw [expression, state, foldl_advance_of_plain h.1, foldl_advanceSlot_of_plain h.2]
  simp [Regex.close]

/-- With plain literal text the expression matches the paths of the template. -/
theorem accepts_iff_fills {t : Template} (h : ∀ literal ∈ t.literals, Plain literal)
    {text : List Char} :
    (t.expression doc naming parameters).Accepts text ↔ t.Fills doc parameters text := by
  rw [Regex.Accepts, expression_of_plain h]
  simp only [Regex.matches_sequence_append, Regex.matches_sequence_map_char, matches_slots_iff,
    Regex.matches_sequence_singleton, Regex.matches_stop_iff]
  constructor
  · rintro ⟨_, _, rfl, rfl, _, _, rfl, ⟨values, hvalues, rfl⟩, rfl, -⟩
    exact ⟨values, hvalues, by simp⟩
  · rintro ⟨values, hvalues, rfl⟩
    exact ⟨_, _, rfl, rfl, _, [], by simp, ⟨values, hvalues, rfl⟩, rfl, by simp⟩

theorem names_expression {t : Template} (h : ∀ literal ∈ t.literals, Plain literal) :
    (t.expression doc naming parameters).names = t.names.map naming.capture := by
  have hliteral : ∀ literal : List Char, (literal.map Regex.char).flatMap Regex.names = [] := by
    simp [Regex.names]
  have hslot : ∀ s : Slot, (s.parts doc naming parameters).flatMap Regex.names =
      [naming.capture s.key] := by
    intro s
    rw [Slot.parts, List.flatMap_cons, hliteral, Slot.group, groupRegex]
    cases decide (AllowsEmpty doc parameters s.key) <;>
      simp [Regex.names, Regex.sequence, Regex.Times.apply]
  rw [expression_of_plain h, Regex.names_sequence, List.flatMap_append, List.flatMap_append,
    hliteral, List.flatMap_assoc, names, List.map_map]
  simp only [hslot, Regex.names, List.flatMap_cons, List.flatMap_nil, List.nil_append,
    List.append_nil]
  exact List.map_eq_flatMap.symm

end PlainText

/-! ## Literal text that is not plain -/

section OtherText
variable {doc : Document} {naming : Naming} {parameters : List Parameter}

/-- How many characters the alternatives and parts need at most. -/
def load (state : List Regex × List Regex) : ℕ :=
  (state.1.map Regex.weight).sum + (state.2.map Regex.weight).sum

theorem weight_close (finished parts : List Regex) :
    (Regex.close finished parts).weight = load (finished, parts) := by
  have hfold : ∀ r : Regex, (finished.foldl (fun r s => Regex.alt s r) r).weight =
      (finished.map Regex.weight).sum + r.weight := by
    induction finished with
    | nil => simp
    | cons s finished ih =>
      intro r
      rw [List.foldl_cons, ih, Regex.weight, List.map_cons, List.sum_cons]
      omega
  rw [Regex.close, hfold, Regex.weight_sequence, List.map_reverse, List.sum_reverse, load]

/-- Each character is needed for a match, apart from those that are not plain. -/
theorem load_literal (literal : List Char) (state : List Regex × List Regex) :
    load (literal.foldl advance state) + literal.countP (· ∈ ['^', '|']) =
      load state + literal.length := by
  have hstep : ∀ (state : List Regex × List Regex) (c : Char),
      load (advance state c) + (if c ∈ ['^', '|'] then 1 else 0) = load state + 1 := by
    intro state c
    by_cases hstart : c = '^'
    · simp [advance, hstart, load, Regex.weight]
    · by_cases hbar : c = '|'
      · simp [advance, hbar, load, Regex.weight_sequence, List.sum_reverse]
        omega
      · simp [advance, hstart, hbar, load, Regex.weight]
        omega
  induction literal generalizing state with
  | nil => rfl
  | cons c literal ih =>
    have hfirst := hstep state c
    have hrest := ih (advance state c)
    simp only [List.foldl_cons, List.countP_cons, List.length_cons, decide_eq_true_eq]
    omega

variable (doc naming parameters) in
theorem load_slots (slots : List Slot) (state : List Regex × List Regex) :
    load (slots.foldl (advanceSlot doc naming parameters) state) +
        (slots.flatMap Slot.literal).countP (· ∈ ['^', '|']) =
      load state + (slots.map (Slot.leastLength doc parameters)).sum := by
  have hgroup : ∀ s : Slot, (s.group doc naming parameters).weight =
      if AllowsEmpty doc parameters s.key then 0 else 1 := by
    intro s
    by_cases h : AllowsEmpty doc parameters s.key <;>
      simp [Slot.group, groupRegex, h, Regex.weight, Regex.weight_sequence, Regex.Times.apply]
  induction slots generalizing state with
  | nil => rfl
  | cons s slots ih =>
    have hpush : load (state.1, s.group doc naming parameters :: state.2) =
        load state + if AllowsEmpty doc parameters s.key then 0 else 1 := by
      simp only [load, List.map_cons, List.sum_cons, hgroup]
      omega
    have hfirst := load_literal s.literal (state.1, s.group doc naming parameters :: state.2)
    have hrest := ih (advanceSlot doc naming parameters state s)
    rw [hpush] at hfirst
    rw [advanceSlot] at hrest
    simp only [List.foldl_cons, advanceSlot, List.flatMap_cons, List.countP_append, List.map_cons,
      List.sum_cons, Slot.leastLength]
    omega

variable (doc naming parameters) in
/-- A match needs as many characters as a path, apart from those that are not plain. -/
theorem weight_expression (t : Template) :
    (t.expression doc naming parameters).weight + t.literals.flatten.countP (· ∈ ['^', '|']) =
      t.leastLength doc parameters := by
  have hstop : ∀ state : List Regex × List Regex,
      load (state.1, .stop :: state.2) = load state := by
    simp [load, Regex.weight]
  have hliteral := load_literal t.literal ([], [])
  have hslots := load_slots doc naming parameters t.slots (t.literal.foldl advance ([], []))
  have hnil : load ([], []) = 0 := rfl
  rw [expression, weight_close, hstop, state, literals, List.flatten_cons, List.countP_append,
    ← List.flatMap_def, leastLength]
  omega

/-- If literal text is not plain, the expression does not match what the template stands for. -/
theorem plain_of_accepts_iff_fills {t : Template}
    (hbackslash : ∀ literal ∈ t.literals, '\\' ∉ literal)
    (h : ∀ text, (t.expression doc naming parameters).Accepts text ↔ t.Fills doc parameters text) :
    ∀ literal ∈ t.literals, Plain literal := by
  -- a match of some path can be thinned out to one that is no longer than the weight
  obtain ⟨path, hpath⟩ := t.exists_fills doc parameters
  obtain ⟨short, -, hshort, hmatch⟩ := ((h path).2 hpath).exists_short
  have hleast := leastLength_le ((h short).1 (hmatch [] [] .slnil .slnil))
  have hweight := t.weight_expression doc naming parameters
  have hcount : t.literals.flatten.countP (· ∈ ['^', '|']) = 0 := by omega
  intro literal hliteral c hc hmem
  have hc' := List.countP_eq_zero.1 hcount c (List.mem_flatten_of_mem hliteral hc)
  rcases List.mem_cons.1 hmem with rfl | hmem
  · exact hbackslash literal hliteral hc
  · exact hc' (by simpa using hmem)

end OtherText

theorem subset_text_of_mem_literals {t : Template} {literal : List Char}
    (h : literal ∈ t.literals) :
    literal ⊆ t.text := by
  intro c hc
  rcases List.mem_cons.1 h with rfl | h
  · exact List.mem_append_left _ hc
  · obtain ⟨s, hs, rfl⟩ := List.mem_map.1 h
    exact List.mem_append_right _ (List.mem_flatMap_of_mem hs (by simp [Slot.text, hc]))

end Template

/-- What the regular expression of a route path matches. In it, metacharacters of literal text stand
behind escaping backslashes, and literal text can be read back, exactly when that has no backslash,
caret or bar. If it has none, the expression consists of literal text and groups with the capture
names of the parameters, and matches the paths of the template and no others; a caret or a bar
always changes what it matches. -/
theorem pattern_of_routePath {doc : Document} {naming : Naming} {parameters : List Parameter}
    {default : Option Int} {template : String} {path : RoutePath}
    (h : routePath doc naming parameters default template = .ok path) :
    ∃ t : Template, t.text = template.toList ∧
      path.regex = String.ofList ('~' :: t.pattern doc naming parameters) ∧
      (∀ literal ∈ t.literals, Regex.Quoted (Template.escape literal) ∧
        Regex.unescape (Template.escape literal) = literal ↔ Template.Plain literal) ∧
      ((∀ literal ∈ t.literals, '\\' ∉ literal) →
        ((∃ r, Regex.read (t.pattern doc naming parameters) = some r ∧
          r.names = t.names.map naming.capture ∧
          ∀ text, r.Accepts text ↔ t.Fills doc parameters text) ↔
        ∀ literal ∈ t.literals, Template.Plain literal)) := by
  obtain ⟨t, htext, hfits, hregex, -⟩ := exists_template_of_routePath h
  have hopening : ∀ literal ∈ t.literals, '\x7b' ∉ literal := by
    rw [Template.literals, List.forall_mem_cons, List.forall_mem_map]
    exact ⟨t.opening_notMem_literal, fun s _ => s.opening_notMem_literal⟩
  refine ⟨t, htext, hregex,
    fun literal hliteral => Template.quoted_escape_iff (hopening _ hliteral), fun hbackslash => ?_⟩
  have hread := Template.read_pattern hfits hbackslash
  constructor
  · rintro ⟨r, hr, -, haccepts⟩
    obtain rfl := Option.some.inj (hread.symm.trans hr)
    exact Template.plain_of_accepts_iff_fills hbackslash haccepts
  · intro hplain
    exact ⟨_, hread, Template.names_expression hplain, fun _ => Template.accepts_iff_fills hplain⟩

/-- A path with a version matches literally. -/
theorem pattern_of_routePath_version :
    routePath ⟨[], "3.0.0"⟩ { flat := false } [] none "/v1.0/\x7bid\x7d" =
      .ok ⟨"~/v1\\.0/(?<id>[^#?/]+)$", 100⟩ ∧
    ∃ t : Template, t.text = "/v1.0/\x7bid\x7d".toList ∧
      ∃ r, Regex.read "/v1\\.0/(?<id>[^#?/]+)$".toList = some r ∧ r.names = ["id"] ∧
        ∀ text, r.Accepts text ↔ t.Fills ⟨[], "3.0.0"⟩ [] text := by
  have hpath : routePath ⟨[], "3.0.0"⟩ { flat := false } [] none "/v1.0/\x7bid\x7d" =
      .ok ⟨"~/v1\\.0/(?<id>[^#?/]+)$", 100⟩ := by
    cbv
  obtain ⟨t, htext, hregex, -, hread⟩ := pattern_of_routePath hpath
  have hchars : ∀ c ∈ "/v1.0/\x7bid\x7d".toList, c ∉ ['\\', '^', '|'] := by
    simp
  have hplain : ∀ literal ∈ t.literals, Template.Plain literal := fun literal hliteral c hc =>
    hchars c (htext ▸ Template.subset_text_of_mem_literals hliteral hc)
  have hbackslash : ∀ literal ∈ t.literals, '\\' ∉ literal := fun literal hliteral hmem =>
    hplain literal hliteral _ hmem List.mem_cons_self
  obtain ⟨r, hr, -, haccepts⟩ := (hread hbackslash).2 hplain
  have hpattern : '~' :: t.pattern ⟨[], "3.0.0"⟩ { flat := false } [] =
      '~' :: "/v1\\.0/(?<id>[^#?/]+)$".toList := by
    rw [← String.toList_ofList (l := _ :: t.pattern _ _ _), ← hregex]
    rfl
  rw [(List.cons.inj hpattern).2] at hr
  have hnames : (Regex.read "/v1\\.0/(?<id>[^#?/]+)$".toList).map Regex.names = some ["id"] := by
    cbv
  rw [hr] at hnames
  exact ⟨hpath, t, htext, r, hr, Option.some.inj hnames, haccepts⟩

/-- A template whose literal text has a bar. -/
def barTemplate : Template where
  literal := "/a|b".toList
  slots := []
  opening_notMem_literal := by decide

/-- A bar in literal text splits the regular expression in two: it matches a part of the path of the
template, and not that path. -/
theorem exists_split_literal :
    barTemplate.text = "/a|b".toList ∧
    routePath ⟨[], "3.0.0"⟩ { flat := false } [] none "/a|b" = .ok ⟨"~/a|b$", 200⟩ ∧
    ¬ Regex.Quoted (Template.escape barTemplate.literal) ∧
    (∀ path, barTemplate.Fills ⟨[], "3.0.0"⟩ [] path ↔ path = "/a|b".toList) ∧
    ∃ r, Regex.read "/a|b$".toList = some r ∧
      ∀ text, r.Accepts text ↔ text = "/a".toList ∨ text = "b".toList := by
  refine ⟨rfl, by cbv, ?quoted, ?fills,
    .alt (Regex.sequence [.char '/', .char 'a']) (Regex.sequence [.char 'b', .stop]), rfl, ?accepts⟩
  case quoted =>
    have hescape : Template.escape barTemplate.literal = ['/', 'a', '|', 'b'] := by decide
    rw [hescape]
    simp [Regex.Quoted, Regex.metacharacters]
  case fills => simp [Template.Fills, barTemplate]
  case accepts =>
    intro text
    simp [Regex.Accepts, Regex.matches_alt_iff, Regex.matches_sequence_cons_iff,
      Regex.matches_sequence_nil, Regex.matches_char_iff, Regex.matches_stop_iff]

end ApiGateway
