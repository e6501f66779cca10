import ApiGateway.Proofs.Naming.Capture
import ApiGateway.Proofs.Outcome
import ApiGateway.Route.Path

/-!
# Path templates

A template that has a route path is literal text and parameters in turn. Reading it from left to
right, the first parameter that the template may not have decides the error.

## Main definitions

* `Template`, `Template.Slot`: a well-formed template, and its parameters with the literal text
  behind each.
* `Template.text`: the text of a template.
* `Slot.Fits`: a parameter that a template may have.
* `AllowsEmpty`: a parameter that may be empty.
* `Template.Fault`: what is wrong with a rest of a template, and the error it gives.

## Main results

* `Template.text_injective`, `Template.exists_read`: a text is one template at most, and every text
  is one up to a fault.
* `routePath_of_template`: which templates have a route path, what it is, and what the others fail
  with.
-/
namespace ApiGateway

/-! ## Pieces -/

namespace Template

section Pieces
variable {c d : Char} {text inside rest : List Char}

theorem pieces_of_literal (hopening : text.dropWhile (· ≠ '\x7b') = []) :
    pieces text = [.literal (text.takeWhile (· ≠ '\x7b'))] := by
  rw [pieces]
  split
  · rfl
  · rename_i h
    cases hopening.symm.trans h

theorem pieces_of_unclosed (hopening : text.dropWhile (· ≠ '\x7b') = c :: inside)
    (hclosing : inside.dropWhile (· ≠ '\x7d') = []) :
    pieces text = [.literal (text.takeWhile (· ≠ '\x7b')), .unclosed] := by
  rw [pieces]
  split
  · rename_i h
    cases hopening.symm.trans h
  · rename_i h
    obtain ⟨rfl, rfl⟩ := List.cons.inj (hopening.symm.trans h)
    split
    · rfl
    · rename_i h
      cases hclosing.symm.trans h

/-- The pieces of a template with a pair of braces. -/
theorem pieces_of_braces (hopening : text.dropWhile (· ≠ '\x7b') = c :: inside)
    (hclosing : inside.dropWhile (· ≠ '\x7d') = d :: rest) :
    pieces text =
      let name := inside.takeWhile (· ≠ '\x7d')
      if name = [] ∨ '\x7b' ∈ name then [.literal (text.takeWhile (· ≠ '\x7b')), .invalid]
      else .literal (text.takeWhile (· ≠ '\x7b')) :: .parameter name :: pieces rest := by
  rw [pieces]
  split
  · rename_i h
    cases hopening.symm.trans h
  · rename_i h
    obtain ⟨rfl, rfl⟩ := List.cons.inj (hopening.symm.trans h)
    split
    · rename_i h
      cases hclosing.symm.trans h
    · rename_i h
      obtain ⟨rfl, rfl⟩ := List.cons.inj (hclosing.symm.trans h)
      rfl

end Pieces

/-! ## Well-formed templates -/

/-- A parameter of a template with the literal text behind it. -/
@[ext]
structure Slot where
  name : List Char
  literal : List Char
  name_ne_nil : name ≠ []
  opening_notMem_name : '\x7b' ∉ name
  closing_notMem_name : '\x7d' ∉ name
  opening_notMem_literal : '\x7b' ∉ literal

/-- A parameter in its braces, and the literal text behind it. -/
def Slot.text (s : Slot) : List Char := '\x7b' :: (s.name ++ '\x7d' :: s.literal)

/-- The name of a parameter. -/
def Slot.key (s : Slot) : String := String.ofList s.name

end Template

/-- A well-formed template: literal text, and parameters with literal text behind each. A closing
brace may stand in literal text. -/
@[ext]
structure Template where
  literal : List Char
  slots : List Template.Slot
  opening_notMem_literal : '\x7b' ∉ literal

namespace Template

/-- The text of a template. -/
def text (t : Template) : List Char := t.literal ++ t.slots.flatMap Slot.text

end Template

/-! ## Parameters -/

section Parameters
variable (doc : Document) (naming : Naming) (parameters : List Parameter)

/-- The schema of the first path parameter of a name, if it has one. -/
def pathSchema? (name : String) : Option Json :=
  (parameters.find? fun p => p.location == "path" && p.name == name).bind (·.schema)

/-- A parameter that may be empty: its schema has the integer zero as its least length. -/
def AllowsEmpty (name : String) : Prop :=
  ∃ schema value, pathSchema? parameters name = some schema ∧ doc.resolve schema = .ok value ∧
    value.get? "minLength" = some (.int 0)

/-- A parameter that a template may have: its capture name is short enough, and its schema can be
resolved. -/
structure Template.Slot.Fits (s : Template.Slot) : Prop where
  length_le : (naming.capture s.key).length ≤ Naming.maxCaptureLength
  resolves : ∀ schema, pathSchema? parameters s.key = some schema →
    ∃ value, doc.resolve schema = .ok value

theorem asNat?_eq_some_zero_iff {value : Json} : value.asNat? = some 0 ↔ value = .int 0 := by
  cases value with
  | int n =>
    simp only [Json.asNat?, Json.int.injEq]
    split
    · simp only [Option.some.injEq]
      omega
    · simp only [reduceCtorEq, false_iff]
      omega
  | _ => simp [Json.asNat?]

theorem allowsEmpty_iff (name : String) :
    AllowsEmpty doc parameters name ↔ mayBeEmpty doc parameters name = .ok true := by
  unfold AllowsEmpty mayBeEmpty
  rw [← pathSchema?]
  cases pathSchema? parameters name with
  | none => simp
  | some schema =>
    cases hresolve : doc.resolve schema with
    | error e => simp [hresolve]
    | ok value =>
      simp [hresolve, pure, Except.pure, Option.bind_eq_some_iff, asNat?_eq_some_zero_iff]

instance (name : String) : Decidable (AllowsEmpty doc parameters name) :=
  decidable_of_iff ((mayBeEmpty doc parameters name).toOption = some true)
    (toOption_eq_some_iff.trans (allowsEmpty_iff doc parameters name).symm)

/-- With a schema that can be resolved, whether a parameter may be empty is known. -/
theorem mayBeEmpty_eq_ok {name : String}
    (h : ∀ schema, pathSchema? parameters name = some schema →
      ∃ value, doc.resolve schema = .ok value) :
    mayBeEmpty doc parameters name = .ok (decide (AllowsEmpty doc parameters name)) := by
  have hok : ∃ b, mayBeEmpty doc parameters name = .ok b := by
    unfold mayBeEmpty
    rw [← pathSchema?]
    cases hschema : pathSchema? parameters name with
    | none => exact ⟨false, rfl⟩
    | some schema =>
      obtain ⟨value, hvalue⟩ := h schema hschema
      exact ⟨_, by simp only [hvalue, ok_bind]; rfl⟩
  obtain ⟨b, hb⟩ := hok
  have hiff := allowsEmpty_iff doc parameters name
  rw [hb] at hiff ⊢
  cases b with
  | true => simpa using hiff
  | false => simpa using hiff

theorem mayBeEmpty_eq_error {name : String} {schema : Json} {e : Error}
    (hschema : pathSchema? parameters name = some schema) (h : doc.resolve schema = .error e) :
    mayBeEmpty doc parameters name = .error e := by
  unfold mayBeEmpty
  rw [← pathSchema?, hschema]
  simp only [h, error_bind]

end Parameters

/-! ## Regular expressions -/

namespace Template
variable (doc : Document) (naming : Naming) (parameters : List Parameter)

/-- The regular expression of a parameter, and of the literal text behind it. -/
def Slot.regex (s : Slot) : List Char :=
  group (naming.capture s.key) (decide (AllowsEmpty doc parameters s.key)) ++ escape s.literal

/-- The regular expression of a template, anchored at its end. -/
def pattern (t : Template) : List Char :=
  escape t.literal ++ t.slots.flatMap (Slot.regex doc naming parameters) ++ ['$']

/-- What is wrong with a rest of a template that starts at a brace, and the error it gives: the
brace is not closed, the name is empty or has a brace, the capture name is too long, or the schema
cannot be resolved. -/
inductive Fault (template : String) : List Char → Error → Prop
  | unclosed {inside : List Char} (hclosing : '\x7d' ∉ inside) :
    Fault template ('\x7b' :: inside) (.template (.unclosed template))
  | invalid {name rest : List Char} (hclosing : '\x7d' ∉ name) (h : name = [] ∨ '\x7b' ∈ name) :
    Fault template ('\x7b' :: (name ++ '\x7d' :: rest)) (.template (.invalidParameter template))
  | tooLong {s : Slot} {rest : List Char}
    (h : Naming.maxCaptureLength < (naming.capture s.key).length) :
    Fault template (s.text ++ rest)
      (.captureTooLong s.key template (naming.capture s.key) Naming.maxCaptureLength)
  | unresolved {s : Slot} {rest : List Char} {schema : Json} {e : Error}
    (hlength : (naming.capture s.key).length ≤ Naming.maxCaptureLength)
    (hschema : pathSchema? parameters s.key = some schema) (h : doc.resolve schema = .error e) :
    Fault template (s.text ++ rest) e

/-- The regular expression of what is left of a template, without its anchor, and whether it has
parameters. -/
def regexOf (template : String) (text : List Char) : Except Error (List Char × Bool) := do
  let parts ← (pieces text).mapM (pieceRegex doc naming parameters template)
  return (parts.flatten, (pieces text).any fun piece => piece matches .parameter _)

theorem routePath_eq (default : Option Int) (template : String) :
    routePath doc naming parameters default template =
      (regexOf doc naming parameters template template.toList).map fun r =>
        ⟨String.ofList ('~' :: (r.1 ++ ['$'])), priorityOf default r.2⟩ := by
  unfold routePath regexOf
  dsimp only
  cases (pieces template.toList).mapM (pieceRegex doc naming parameters template) with
  | error e => rfl
  | ok parts => rfl

section Rest
variable {literal name inside rest : List Char} (template : String)

theorem takeWhile_append_brace {brace : Char} (h : brace ∉ literal) (rest : List Char) :
    (literal ++ rest).takeWhile (· ≠ brace) = literal ++ rest.takeWhile (· ≠ brace) := by
  refine List.takeWhile_append_of_pos fun c hc => ?_
  rw [decide_eq_true_iff]
  rintro rfl
  exact h hc

theorem dropWhile_append_brace {brace : Char} (h : brace ∉ literal) (rest : List Char) :
    (literal ++ rest).dropWhile (· ≠ brace) = rest.dropWhile (· ≠ brace) := by
  refine List.dropWhile_append_of_pos fun c hc => ?_
  rw [decide_eq_true_iff]
  rintro rfl
  exact h hc

/-- Literal text goes before the pieces of what follows it. -/
theorem pieces_append (h : '\x7b' ∉ literal) (rest : List Char) :
    ∃ first more, pieces rest = .literal first :: more ∧
      pieces (literal ++ rest) = .literal (literal ++ first) :: more := by
  have htake := takeWhile_append_brace h rest
  have hdrop := dropWhile_append_brace h rest
  cases hopening : rest.dropWhile (· ≠ '\x7b') with
  | nil =>
    rw [hopening] at hdrop
    exact ⟨_, _, pieces_of_literal hopening, by rw [pieces_of_literal hdrop, htake]⟩
  | cons c inside =>
    rw [hopening] at hdrop
    cases hclosing : inside.dropWhile (· ≠ '\x7d') with
    | nil =>
      exact ⟨_, _, pieces_of_unclosed hopening hclosing,
        by rw [pieces_of_unclosed hdrop hclosing, htake]⟩
    | cons d rest =>
      rw [pieces_of_braces hopening hclosing, pieces_of_braces hdrop hclosing, htake]
      dsimp only
      split
      · exact ⟨_, _, rfl, rfl⟩
      · exact ⟨_, _, rfl, rfl⟩

/-- The text of a parameter is the parameter and the literal text behind it. -/
theorem pieces_slot (s : Slot) (rest : List Char) :
    pieces (s.text ++ rest) = .literal [] :: .parameter s.name :: pieces (s.literal ++ rest) := by
  have hopening : (s.text ++ rest).dropWhile (· ≠ '\x7b') =
      '\x7b' :: (s.name ++ '\x7d' :: (s.literal ++ rest)) := by
    simp [Slot.text]
  have hclosing : (s.name ++ '\x7d' :: (s.literal ++ rest)).dropWhile (· ≠ '\x7d') =
      '\x7d' :: (s.literal ++ rest) := by
    rw [dropWhile_append_brace s.closing_notMem_name]
    simp
  have hname : (s.name ++ '\x7d' :: (s.literal ++ rest)).takeWhile (· ≠ '\x7d') = s.name := by
    rw [takeWhile_append_brace s.closing_notMem_name]
    simp
  rw [pieces_of_braces hopening hclosing]
  simp only [hname, s.name_ne_nil, s.opening_notMem_name, or_self, if_false]
  simp [Slot.text]

/-- The pieces of a template are its literal texts and parameters in turn. -/
theorem pieces_text (h : '\x7b' ∉ literal) (slots : List Slot) :
    pieces (literal ++ slots.flatMap Slot.text) =
      .literal literal :: slots.flatMap fun s => [.parameter s.name, .literal s.literal] := by
  induction slots generalizing literal with
  | nil =>
    obtain ⟨first, more, hrest, happend⟩ := pieces_append h []
    obtain ⟨hfirst, rfl⟩ := List.cons.inj (hrest.symm.trans (pieces_of_literal rfl))
    obtain rfl : first = [] := Piece.literal.inj hfirst
    rw [List.flatMap_nil, happend, List.append_nil]
    rfl
  | cons s slots ih =>
    obtain ⟨first, more, hrest, happend⟩ := pieces_append h (s.text ++ slots.flatMap Slot.text)
    obtain ⟨hfirst, rfl⟩ := List.cons.inj (hrest.symm.trans (pieces_slot s _))
    obtain rfl : first = [] := Piece.literal.inj hfirst
    rw [List.flatMap_cons, happend, List.append_nil, ih s.opening_notMem_literal]
    rfl

/-- A text is read as one template. -/
theorem text_injective : Function.Injective Template.text := by
  intro t t' htext
  have hpieces := pieces_text t.opening_notMem_literal t.slots
  have hpieces' := pieces_text t'.opening_notMem_literal t'.slots
  rw [← Template.text] at hpieces hpieces'
  rw [htext, hpieces', List.cons.injEq, Piece.literal.injEq] at hpieces
  obtain ⟨hliteral, hslots⟩ := hpieces
  have hsame : t'.slots = t.slots := by
    generalize t.slots = slots at hslots ⊢
    generalize t'.slots = slots' at hslots ⊢
    induction slots' generalizing slots with
    | nil => cases slots with
      | nil => rfl
      | cons s slots => cases hslots
    | cons s' slots' ih => cases slots with
      | nil => cases hslots
      | cons s slots =>
        simp only [List.flatMap_cons, List.cons_append, List.nil_append, List.cons.injEq,
          Piece.parameter.injEq, Piece.literal.injEq] at hslots
        obtain ⟨hname, hbehind, hslots⟩ := hslots
        rw [Slot.ext hname hbehind, ih slots hslots]
  exact Template.ext hliteral.symm hsame.symm

theorem regexOf_append (h : '\x7b' ∉ literal) (rest : List Char) :
    regexOf doc naming parameters template (literal ++ rest) =
      (regexOf doc naming parameters template rest).map fun r => (escape literal ++ r.1, r.2) := by
  obtain ⟨first, more, hrest, happend⟩ := pieces_append h rest
  have hliteral : ∀ text, pieceRegex doc naming parameters template (.literal text) =
      .ok (escape text) := fun _ => rfl
  unfold regexOf
  rw [hrest, happend, List.mapM_cons, List.mapM_cons, hliteral, hliteral]
  cases more.mapM (pieceRegex doc naming parameters template) with
  | error e => rfl
  | ok parts => simp [escape, pure, Except.pure]

theorem regexOf_slot (s : Slot) (rest : List Char) :
    regexOf doc naming parameters template (s.text ++ rest) =
      pieceRegex doc naming parameters template (.parameter s.name) >>= fun regex =>
        (regexOf doc naming parameters template (s.literal ++ rest)).map fun r =>
          (regex ++ r.1, true) := by
  have hliteral : pieceRegex doc naming parameters template (.literal []) = .ok [] := rfl
  unfold regexOf
  rw [pieces_slot, List.mapM_cons, List.mapM_cons, hliteral]
  cases pieceRegex doc naming parameters template (.parameter s.name) with
  | error e => rfl
  | ok regex =>
    cases (pieces (s.literal ++ rest)).mapM (pieceRegex doc naming parameters template) with
    | error e => rfl
    | ok parts => simp [pure, Except.pure]

end Rest

section Reading
variable {doc naming parameters} {template : String}

theorem pieceRegex_slot (s : Slot) :
    pieceRegex doc naming parameters template (.parameter s.name) =
      if Naming.maxCaptureLength < (naming.capture s.key).length then
        .error (.captureTooLong s.key template (naming.capture s.key) Naming.maxCaptureLength)
      else (mayBeEmpty doc parameters s.key).map (group (naming.capture s.key)) := by
  unfold pieceRegex Slot.key
  dsimp only
  by_cases h : Naming.maxCaptureLength < (naming.capture (String.ofList s.name)).length
  · rw [if_pos h, if_pos h]
    rfl
  · rw [if_neg h, if_neg h]
    cases mayBeEmpty doc parameters (String.ofList s.name) <;> rfl

theorem pieceRegex_of_fits {s : Slot} (h : s.Fits doc naming parameters) :
    pieceRegex doc naming parameters template (.parameter s.name) =
      .ok (group (naming.capture s.key) (decide (AllowsEmpty doc parameters s.key))) := by
  rw [pieceRegex_slot, if_neg (Nat.not_lt.2 h.length_le),
    mayBeEmpty_eq_ok doc parameters h.resolves]
  rfl

/-- Parameters that fit are read one by one. -/
theorem regexOf_slots {slots : List Slot} (h : ∀ s ∈ slots, s.Fits doc naming parameters)
    (rest : List Char) :
    regexOf doc naming parameters template (slots.flatMap Slot.text ++ rest) =
      (regexOf doc naming parameters template rest).map fun r =>
        (slots.flatMap (Slot.regex doc naming parameters) ++ r.1, !slots.isEmpty || r.2) := by
  induction slots with
  | nil =>
    rw [List.flatMap_nil, List.nil_append]
    cases regexOf doc naming parameters template rest <;> rfl
  | cons s slots ih =>
    rw [List.flatMap_cons, List.append_assoc, regexOf_slot,
      pieceRegex_of_fits (h s List.mem_cons_self), ok_bind,
      regexOf_append _ _ _ _ s.opening_notMem_literal,
      ih fun s' hs' => h s' (List.mem_cons_of_mem _ hs')]
    cases regexOf doc naming parameters template rest with
    | error e => rfl
    | ok r => simp [Slot.regex]

/-- What is left behind a template whose parameters fit decides. -/
theorem regexOf_text {t : Template} (h : ∀ s ∈ t.slots, s.Fits doc naming parameters)
    (rest : List Char) :
    regexOf doc naming parameters template (t.text ++ rest) =
      (regexOf doc naming parameters template rest).map fun r =>
        (escape t.literal ++ t.slots.flatMap (Slot.regex doc naming parameters) ++ r.1,
          !t.slots.isEmpty || r.2) := by
  rw [text, List.append_assoc, regexOf_append _ _ _ _ t.opening_notMem_literal, regexOf_slots h]
  cases regexOf doc naming parameters template rest with
  | error e => rfl
  | ok r => simp

/-- A fault gives its error. -/
theorem Fault.regexOf_eq {rest : List Char} {e : Error}
    (h : Fault doc naming parameters template rest e) :
    regexOf doc naming parameters template rest = .error e := by
  have hopening : ∀ inside : List Char,
      ('\x7b' :: inside).dropWhile (· ≠ '\x7b') = '\x7b' :: inside := fun _ => by simp
  cases h with
  | @unclosed inside hclosing =>
    have hinside : inside.dropWhile (· ≠ '\x7d') = [] := by
      simpa using dropWhile_append_brace hclosing []
    rw [regexOf, pieces_of_unclosed (hopening inside) hinside]
    rfl
  | @invalid name rest hclosing h =>
    have hrest : (name ++ '\x7d' :: rest).dropWhile (· ≠ '\x7d') = '\x7d' :: rest := by
      rw [dropWhile_append_brace hclosing]
      simp
    have hname : (name ++ '\x7d' :: rest).takeWhile (· ≠ '\x7d') = name := by
      rw [takeWhile_append_brace hclosing]
      simp
    rw [regexOf, pieces_of_braces (hopening _) hrest]
    simp only [hname, if_pos h]
    rfl
  | @tooLong s rest h => rw [regexOf_slot, pieceRegex_slot, if_pos h, error_bind]
  | @unresolved s rest schema e hlength hschema h =>
    rw [regexOf_slot, pieceRegex_slot, if_neg (Nat.not_lt.2 hlength),
      mayBeEmpty_eq_error doc parameters hschema h, map_error, error_bind]

/-- A parameter that does not fit is a fault. -/
theorem Slot.fits_or_fault (s : Slot) (rest : List Char) :
    s.Fits doc naming parameters ∨
      ∃ e, Fault doc naming parameters template (s.text ++ rest) e := by
  by_cases hlength : (naming.capture s.key).length ≤ Naming.maxCaptureLength
  · cases hschema : pathSchema? parameters s.key with
    | none => exact Or.inl ⟨hlength, by simp [hschema]⟩
    | some schema =>
      cases hresolve : doc.resolve schema with
      | error e => exact Or.inr ⟨e, .unresolved hlength hschema hresolve⟩
      | ok value => exact Or.inl ⟨hlength, by simp [hschema, hresolve]⟩
  · exact Or.inr ⟨_, .tooLong (Nat.lt_of_not_le hlength)⟩

variable (doc naming parameters template) in
/-- Every text is a template whose parameters fit, or begins with one that a fault ends. -/
theorem exists_read (text : List Char) :
    ∃ (t : Template) (rest : List Char), t.text ++ rest = text ∧
      (∀ s ∈ t.slots, s.Fits doc naming parameters) ∧
      (rest = [] ∨ ∃ e, Fault doc naming parameters template rest e) := by
  have hplain : ∀ (brace : Char) (text : List Char), brace ∉ text.takeWhile (· ≠ brace) := by
    intro brace text hmem
    simpa using List.mem_takeWhile_imp hmem
  have hsplit : ∀ {brace c : Char} {text rest : List Char},
      text.dropWhile (· ≠ brace) = c :: rest →
        text.takeWhile (· ≠ brace) ++ brace :: rest = text := by
    intro brace c text rest h
    obtain rfl : c = brace := by
      have hhead := List.head?_dropWhile_not (· ≠ brace) text
      rw [h] at hhead
      simpa using hhead
    rw [← h, List.takeWhile_append_dropWhile]
  induction text using pieces.induct with
  | case1 text hopening =>
    have hwhole := List.takeWhile_append_dropWhile (p := (· ≠ '\x7b')) (l := text)
    rw [hopening, List.append_nil] at hwhole
    exact ⟨⟨text, [], hwhole ▸ hplain _ text⟩, [], by simp [Template.text], by simp, Or.inl rfl⟩
  | case2 text _ inside hopening hclosing =>
    have hinside := List.takeWhile_append_dropWhile (p := (· ≠ '\x7d')) (l := inside)
    rw [hclosing, List.append_nil] at hinside
    refine ⟨⟨text.takeWhile (· ≠ '\x7b'), [], hplain _ text⟩, '\x7b' :: inside, ?_, by simp,
      Or.inr ⟨_, .unclosed (hinside ▸ hplain _ inside)⟩⟩
    simpa [Template.text] using hsplit hopening
  | case3 text _ inside hopening name _ rest hclosing hfault =>
    refine ⟨⟨text.takeWhile (· ≠ '\x7b'), [], hplain _ text⟩, '\x7b' :: inside, ?_, by simp, ?_⟩
    · simpa [Template.text] using hsplit hopening
    · rw [← hsplit hclosing]
      exact Or.inr ⟨_, .invalid (hplain _ inside) hfault⟩
  | case4 text _ inside hopening name _ rest hclosing hname ih =>
    obtain ⟨t, behind, htext, hfits, hbehind⟩ := ih
    let s : Slot := ⟨name, t.literal, fun h => hname (Or.inl h), fun h => hname (Or.inr h),
      hplain _ inside, t.opening_notMem_literal⟩
    have hread : text.takeWhile (· ≠ '\x7b') ++
        (s.text ++ (t.slots.flatMap Slot.text ++ behind)) = text := by
      conv_rhs => rw [← hsplit hopening, ← hsplit hclosing, ← htext]
      simp [s, name, Slot.text, Template.text]
    rcases s.fits_or_fault (t.slots.flatMap Slot.text ++ behind) with hs | ⟨e, he⟩
    · refine ⟨⟨text.takeWhile (· ≠ '\x7b'), s :: t.slots, hplain _ text⟩, behind, ?_,
        List.forall_mem_cons.2 ⟨hs, hfits⟩, hbehind⟩
      conv_rhs => rw [← hread]
      simp [Template.text]
    · refine ⟨⟨text.takeWhile (· ≠ '\x7b'), [], hplain _ text⟩, _, ?_, by simp,
        Or.inr ⟨e, he⟩⟩
      simpa [Template.text] using hread

end Reading

end Template

/-! ## Route paths -/

section RoutePaths
variable {doc : Document} {naming : Naming} {parameters : List Parameter} {default : Option Int}
  {template : String}

theorem routePath_of_fits {t : Template} (htext : t.text = template.toList)
    (hfits : ∀ s ∈ t.slots, s.Fits doc naming parameters) :
    routePath doc naming parameters default template =
      .ok ⟨String.ofList ('~' :: t.pattern doc naming parameters),
        priorityOf default (!t.slots.isEmpty)⟩ := by
  have hnil : Template.regexOf doc naming parameters template [] = .ok ([], false) := by
    rw [Template.regexOf, Template.pieces_of_literal (by rfl)]
    rfl
  have hread : Template.regexOf doc naming parameters template (t.text ++ []) = _ :=
    Template.regexOf_text hfits []
  rw [List.append_nil, htext, hnil] at hread
  rw [Template.routePath_eq, hread, map_ok, map_ok]
  simp only [Template.pattern, List.append_nil, Bool.or_false]

theorem routePath_of_fault {t : Template} {rest : List Char} {e : Error}
    (htext : t.text ++ rest = template.toList) (hfits : ∀ s ∈ t.slots, s.Fits doc naming parameters)
    (hfault : Template.Fault doc naming parameters template rest e) :
    routePath doc naming parameters default template = .error e := by
  rw [Template.routePath_eq, ← htext, Template.regexOf_text hfits, hfault.regexOf_eq]
  rfl

/-- A template with a route path is well-formed, its parameters fit, and the path is made of its
parts. -/
theorem exists_template_of_routePath {path : RoutePath}
    (h : routePath doc naming parameters default template = .ok path) :
    ∃ t : Template, t.text = template.toList ∧ (∀ s ∈ t.slots, s.Fits doc naming parameters) ∧
      path.regex = String.ofList ('~' :: t.pattern doc naming parameters) ∧
      path.priority = priorityOf default (!t.slots.isEmpty) := by
  obtain ⟨t, rest, htext, hfits, rfl | ⟨e, hfault⟩⟩ :=
    Template.exists_read doc naming parameters template template.toList
  · rw [List.append_nil] at htext
    obtain rfl := Except.ok.inj ((routePath_of_fits htext hfits).symm.trans h)
    exact ⟨t, htext, hfits, rfl, rfl⟩
  · cases (routePath_of_fault htext hfits hfault).symm.trans h

theorem exists_fault_of_routePath {e : Error}
    (h : routePath doc naming parameters default template = .error e) :
    ∃ (t : Template) (rest : List Char), t.text ++ rest = template.toList ∧
      (∀ s ∈ t.slots, s.Fits doc naming parameters) ∧
      Template.Fault doc naming parameters template rest e := by
  obtain ⟨t, rest, htext, hfits, rfl | ⟨e', hfault⟩⟩ :=
    Template.exists_read doc naming parameters template template.toList
  · rw [List.append_nil] at htext
    cases (routePath_of_fits htext hfits).symm.trans h
  · obtain rfl := Except.error.inj ((routePath_of_fault htext hfits hfault).symm.trans h)
    exact ⟨t, rest, htext, hfits, hfault⟩

/-- A template has parameters when it has an opening brace. -/
theorem Template.isEmpty_slots_iff (t : Template) : t.slots.isEmpty = true ↔ '\x7b' ∉ t.text := by
  unfold text
  cases t.slots with
  | nil => simp [t.opening_notMem_literal]
  | cons s slots => simp [Slot.text]

/-- Parameters lower the priority, unless the default is the least number of 64 bits. -/
theorem priorityOf_lt_iff {default : Option Int} :
    priorityOf default true < priorityOf default false ↔
      ∀ priority, default = some priority → -Json.signedLimit < priority := by
  cases default with
  | none => simp [priorityOf, parameterPriority, literalPriority]
  | some priority =>
    simp only [priorityOf, if_true, Bool.false_eq_true, if_false, Option.some.injEq, forall_eq']
    omega

/-- Which templates have a route path, and what it is. A template has one exactly when it is literal
text and parameters in turn, where literal text has no opening brace, every name has a character
and no brace, every capture name is short enough, and the schema of every parameter can be resolved;
the regular expression consists of the escaped literal texts and a group for each parameter. Any
other template fails with the error of its first fault from the left. Capture names are names that a
group may have. With one default, a template with parameters has a lower priority than one without
unless the default is the least number of 64 bits. -/
theorem routePath_of_template (doc : Document) (naming : Naming) (parameters : List Parameter)
    (default : Option Int) (template : String) :
    (∀ path, routePath doc naming parameters default template = .ok path ↔
      ∃ t : Template, t.text = template.toList ∧ (∀ s ∈ t.slots, s.Fits doc naming parameters) ∧
        path.regex = String.ofList ('~' :: t.pattern doc naming parameters) ∧
        path.priority = priorityOf default (!t.slots.isEmpty)) ∧
    (∀ e, routePath doc naming parameters default template = .error e ↔
      ∃ (t : Template) (rest : List Char), t.text ++ rest = template.toList ∧
        (∀ s ∈ t.slots, s.Fits doc naming parameters) ∧
        Template.Fault doc naming parameters template rest e) ∧
    (∀ name, Naming.IsCaptureName (naming.capture name)) ∧
    (∀ parameters' template' path path',
      routePath doc naming parameters default template = .ok path →
      routePath doc naming parameters' default template' = .ok path' →
      '\x7b' ∈ template.toList → '\x7b' ∉ template'.toList →
      (path.priority < path'.priority ↔
        ∀ priority, default = some priority → -Json.signedLimit < priority)) := by
  refine ⟨fun path => ⟨exists_template_of_routePath, ?accepted⟩,
    fun e => ⟨exists_fault_of_routePath, ?refused⟩, naming.isCaptureName_capture, ?priorities⟩
  case accepted =>
    rintro ⟨t, htext, hfits, hregex, hpriority⟩
    rw [routePath_of_fits htext hfits, ← hregex, ← hpriority]
  case refused =>
    rintro ⟨t, rest, htext, hfits, hfault⟩
    exact routePath_of_fault htext hfits hfault
  case priorities =>
    intro parameters' template' path path' hpath hpath' hopening hopening'
    obtain ⟨t, htext, -, -, hpriority⟩ := exists_template_of_routePath hpath
    obtain ⟨t', htext', -, -, hpriority'⟩ := exists_template_of_routePath hpath'
    have hslots : t.slots.isEmpty = false := by
      rw [Bool.eq_false_iff, Ne, t.isEmpty_slots_iff, htext, not_not]
      exact hopening
    have hslots' : t'.slots.isEmpty = true := by
      rw [t'.isEmpty_slots_iff, htext']
      exact hopening'
    rw [hpriority, hpriority', hslots, hslots']
    exact priorityOf_lt_iff

/-- The path of a user is a template with one parameter, and comes behind the path of all users. -/
theorem routePath_of_template_users :
    (∃ t : Template, t.text = "/users/\x7bid\x7d".toList ∧
      "~/users/(?<id>[^#?/]+)$" =
        String.ofList ('~' :: t.pattern ⟨[], "3.0.0"⟩ { flat := false } [])) ∧
    ∃ path path', routePath ⟨[], "3.0.0"⟩ { flat := false } [] none "/users/\x7bid\x7d" =
        .ok path ∧
      routePath ⟨[], "3.0.0"⟩ { flat := false } [] none "/users" = .ok path' ∧
      path.priority < path'.priority := by
  have hpath : routePath ⟨[], "3.0.0"⟩ { flat := false } [] none "/users/\x7bid\x7d" =
      .ok ⟨"~/users/(?<id>[^#?/]+)$", 100⟩ := by
    cbv
  have hpath' : routePath ⟨[], "3.0.0"⟩ { flat := false } [] none "/users" =
      .ok ⟨"~/users$", 200⟩ := by
    cbv
  obtain ⟨haccepted, -, -, hpriorities⟩ := routePath_of_template ⟨[], "3.0.0"⟩ { flat := false } []
    none "/users/\x7bid\x7d"
  obtain ⟨t, htext, -, hregex, -⟩ := (haccepted _).1 hpath
  exact ⟨⟨t, htext, hregex⟩, _, _, hpath, hpath',
    (hpriorities [] "/users" _ _ hpath hpath' (by decide) (by decide)).2 (by simp)⟩

end RoutePaths

end ApiGateway
