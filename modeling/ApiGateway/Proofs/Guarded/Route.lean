import ApiGateway.Proofs.Guarded.Access
import ApiGateway.Proofs.Route.Template

/-!
# Guarded route paths

A path template is read from left to right. What stands before a brace and what follows it is cut
out at the byte offset of the brace. Both braces are one byte long, so each cut is at a boundary
whatever the other characters of the template are.

## Main definitions

* `Guarded.behind`: what follows the byte at an offset.
* `Guarded.templateRegex`: the regular expression of a template, with its cuts checked.
* `Guarded.routePath`: the route path of a template.

## Main results

* `Guarded.templateRegex_eq`: every cut of a template is at a boundary, and the expression is that
  of its pieces.
* `Guarded.routePath_eq`: the guarded route path is the plain one.
-/
namespace ApiGateway.Guarded

open String (utf8Len)

/-- What follows the byte at an offset. It is shorter than the text. -/
def behind (offset : Nat) (text : List Char) :
    Except Halt { rest : List Char // rest.length < text.length } :=
  match h : Text.cut? (offset + 1) text with
  | some (_, rest) => .ok ⟨rest, Text.length_lt_of_cut? (Nat.succ_pos offset) h⟩
  | none => .error (.fault (.offset (offset + 1) text))

/-- The regular expression of what is left of a template, and whether it has parameters. -/
def templateRegex (doc : Document) (naming : Naming) (parameters : List Parameter)
    (template : String) (text : List Char) : Except Halt (List Char × Bool) :=
  match Text.offset? '\x7b' text with
  | none => .ok (Template.escape text, false)
  | some opening => do
    let (literal, _) ← cut opening text
    let ⟨inside, _hinside⟩ ← behind opening text
    match Text.offset? '\x7d' inside with
    | none => .error (.error (.template (.unclosed template)))
    | some closing => do
      let (name, _) ← cut closing inside
      if name = [] ∨ '\x7b' ∈ name then .error (.error (.template (.invalidParameter template)))
      else do
        let group ← lift (pieceRegex doc naming parameters template (.parameter name))
        let ⟨rest, _hrest⟩ ← behind closing inside
        let (regex, _) ← templateRegex doc naming parameters template rest
        return (Template.escape literal ++ group ++ regex, true)
termination_by text.length
decreasing_by omega

/-- The route path of a template. -/
def routePath (doc : Document) (naming : Naming) (parameters : List Parameter)
    (default : Option Int) (template : String) : Except Halt RoutePath := do
  let (regex, hasParameters) ← templateRegex doc naming parameters template template.toList
  return ⟨String.ofList ('~' :: regex ++ ['$']), priorityOf default hasParameters⟩

/-! ## Cuts at braces -/

section Braces
variable {sought c : Char} {text rest : List Char}

theorem offset?_of_dropWhile_nil (h : text.dropWhile (· ≠ sought) = []) :
    Text.offset? sought text = none := by
  rw [Text.offset?_eq, h]
  rfl

theorem offset?_of_dropWhile_cons (h : text.dropWhile (· ≠ sought) = c :: rest) :
    Text.offset? sought text = some (utf8Len (text.takeWhile (· ≠ sought))) := by
  rw [Text.offset?_eq, h]
  rfl

theorem cut_offset (sought : Char) (text : List Char) :
    cut (utf8Len (text.takeWhile (· ≠ sought))) text =
      .ok (text.takeWhile (· ≠ sought), text.dropWhile (· ≠ sought)) :=
  cut_of_cut? (Text.cut?_takeWhile sought text)

/-- What stands behind the first occurrence of a character of one byte. -/
theorem exists_behind (sought : Char) (hsize : sought.utf8Size = 1)
    (h : text.dropWhile (· ≠ sought) = c :: rest) :
    ∃ hlt, behind (utf8Len (text.takeWhile (· ≠ sought))) text = .ok ⟨rest, hlt⟩ := by
  obtain rfl : c = sought := by
    have := List.head?_dropWhile_not (· ≠ sought) text
    rw [h] at this
    simpa using this
  have hcut := Text.cut?_dropWhile hsize h
  refine ⟨Text.length_lt_of_cut? (Nat.succ_pos _) hcut, ?_⟩
  rw [behind]
  split
  · rename_i front rest' hcut'
    obtain ⟨rfl, rfl⟩ := Prod.mk.inj (Option.some.inj (hcut.symm.trans hcut'))
    rfl
  · rename_i hnone
    rw [hcut] at hnone
    cases hnone

end Braces

/-! ## Templates -/

/-- Every cut of a template is at a boundary, and its regular expression is that of its pieces. -/
theorem templateRegex_eq (doc : Document) (naming : Naming) (parameters : List Parameter)
    (template : String) (text : List Char) :
    templateRegex doc naming parameters template text = lift (do
      let parts ← (Template.pieces text).mapM (pieceRegex doc naming parameters template)
      return (parts.flatten,
        (Template.pieces text).any fun piece => piece matches .parameter _)) := by
  induction text using Template.pieces.induct with
  | case1 text hopening =>
    have hwhole : text.takeWhile (· ≠ '\x7b') = text := by
      have := List.takeWhile_append_dropWhile (p := (· ≠ '\x7b')) (l := text)
      rwa [hopening, List.append_nil] at this
    rw [templateRegex, offset?_of_dropWhile_nil hopening, Template.pieces_of_literal hopening,
      hwhole]
    simp [pieceRegex, pure, Except.pure]
  | case2 text _ inside hopening hclosing =>
    obtain ⟨_, hinside⟩ := exists_behind '\x7b' rfl hopening
    rw [templateRegex, offset?_of_dropWhile_cons hopening,
      Template.pieces_of_unclosed hopening hclosing]
    simp only [cut_offset, hinside, ok_bind, offset?_of_dropWhile_nil hclosing]
    rfl
  | case3 text _ inside hopening name _ rest hclosing hfault =>
    obtain ⟨_, hinside⟩ := exists_behind '\x7b' rfl hopening
    rw [templateRegex, offset?_of_dropWhile_cons hopening,
      Template.pieces_of_braces hopening hclosing]
    simp only [cut_offset, hinside, ok_bind, offset?_of_dropWhile_cons hclosing]
    rw [if_pos hfault, if_pos hfault]
    rfl
  | case4 text _ inside hopening name _ rest hclosing hname ih =>
    obtain ⟨_, hinside⟩ := exists_behind '\x7b' rfl hopening
    obtain ⟨_, hrest⟩ := exists_behind '\x7d' rfl hclosing
    rw [templateRegex, offset?_of_dropWhile_cons hopening,
      Template.pieces_of_braces hopening hclosing]
    simp only [cut_offset, hinside, ok_bind, offset?_of_dropWhile_cons hclosing]
    rw [if_neg hname, if_neg hname]
    have hliteral (literal : List Char) : pieceRegex doc naming parameters template
        (.literal literal) = .ok (Template.escape literal) := rfl
    simp only [hrest, ok_bind, ih, lift_bind, List.mapM_cons, bind_assoc, hliteral,
      lift_pure, pure_bind, List.flatten_cons, List.append_assoc]
    rfl

/-- The guarded route path is the plain one. -/
theorem routePath_eq (doc : Document) (naming : Naming) (parameters : List Parameter)
    (default : Option Int) (template : String) :
    routePath doc naming parameters default template =
      lift (ApiGateway.routePath doc naming parameters default template) := by
  rw [routePath, templateRegex_eq, ApiGateway.routePath, lift_bind, lift_bind, bind_assoc]
  exact bind_congr fun parts => rfl

end ApiGateway.Guarded
