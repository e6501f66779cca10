import ApiGateway.Proofs.Route.Template
import ApiGateway.Proofs.Text.Replace

/-!
# The groups of a route path

The groups of the regular expression of a template are named by the capture names of its parameters.
Nothing keeps two of these names apart: parameters whose names differ may have one capture name.

## Main definitions

* `groupNames`: the names of the groups of a regular expression, as they stand in its text.
* `Template.names`: the names of the parameters of a template.
* `Mentions`: a name that stands in braces in the text of a template.

## Main results

* `groupNames_pattern`: the groups are named by capture names, in the order of the parameters.
* `Template.mem_names_iff`: the parameters of a template are those that its text mentions.
* `captures_of_routePath`: two groups have one name when the style confuses two parameters.
-/
namespace ApiGateway

/-- The names of the groups of a regular expression, as they stand in its text. -/
def groupNames : List Char → List String
  | '(' :: '?' :: '<' :: rest => String.ofList (rest.takeWhile (· ≠ '>')) :: groupNames rest
  | _ :: rest => groupNames rest
  | [] => []

/-- The names of the parameters of a template. -/
def Template.names (t : Template) : List String := t.slots.map Slot.key

section Text
variable {c : Char} {front rest : List Char}

theorem groupNames_cons (h : c ≠ '(' ∨ rest.head? ≠ some '?') :
    groupNames (c :: rest) = groupNames rest := by
  rw [groupNames]
  rintro rest' rfl rfl
  simp at h

theorem groupNames_append (h : '(' ∉ front) (rest : List Char) :
    groupNames (front ++ rest) = groupNames rest := by
  induction front with
  | nil => rfl
  | cons c front ih =>
    rw [List.mem_cons, not_or] at h
    rw [List.cons_append, groupNames_cons (Or.inl (Ne.symm h.1)), ih h.2]

/-- Escaped text has no groups, since a question mark in it stands behind a backslash. -/
theorem groupNames_escape (text : List Char) (hrest : rest.head? ≠ some '?') :
    groupNames (Template.escape text ++ rest) = groupNames rest := by
  have hhead : ∀ text, (Template.escape text ++ rest).head? ≠ some '?' := by
    intro text
    cases text with
    | nil => exact hrest
    | cons c text =>
      simp only [Template.escape, List.flatMap_cons]
      split
      · simp
      · rename_i hc
        rintro h
        obtain rfl : c = '?' := by simpa using h
        exact hc (by decide)
  induction text with
  | nil => rfl
  | cons c text ih =>
    have htail := groupNames_cons (c := c) (Or.inr (hhead text))
    have hcons : Template.escape (c :: text) =
        (if c ∈ Template.specials then ['\\', c] else [c]) ++ Template.escape text := rfl
    rw [hcons]
    split
    · simp only [List.cons_append, List.nil_append]
      rw [groupNames_cons (Or.inl (by decide)), htail, ih]
    · simp only [List.cons_append, List.nil_append]
      rw [htail, ih]

end Text

/-- The group of a parameter has its capture name. -/
theorem groupNames_group {name : String} (h : Naming.IsCaptureName name) (mayBeEmpty : Bool)
    (rest : List Char) :
    groupNames (Template.group name mayBeEmpty ++ rest) = name :: groupNames rest := by
  have hword : ∀ c ∈ name.toList, c ≠ '(' ∧ c ≠ '>' := by
    intro c hc
    have hchar := h.forall_mem c hc
    constructor
    · rintro rfl
      revert hchar
      decide
    · rintro rfl
      revert hchar
      decide
  have hgroup : Template.group name mayBeEmpty ++ rest = '(' :: '?' :: '<' ::
      (name.toList ++ ('>' :: '[' :: '^' :: '#' :: '?' :: '/' :: ']' ::
        (if mayBeEmpty then '*' else '+') :: ')' :: rest)) := by
    simp [Template.group]
  rw [hgroup, groupNames, List.takeWhile_append_of_pos (fun d hd => by simpa using (hword d hd).2),
    groupNames_append fun hd => (hword _ hd).1 rfl]
  cases mayBeEmpty <;> simp [groupNames]

/-- The groups of a template are named by the capture names of its parameters, in their order. -/
theorem groupNames_pattern (doc : Document) (naming : Naming) (parameters : List Parameter)
    (t : Template) :
    groupNames (t.pattern doc naming parameters) = t.names.map naming.capture := by
  have hhead : ∀ slots : List Template.Slot,
      (slots.flatMap (Template.Slot.regex doc naming parameters) ++ ['$']).head? ≠ some '?' := by
    intro slots
    cases slots <;> simp [Template.Slot.regex, Template.group]
  have hslots : ∀ slots : List Template.Slot,
      groupNames (slots.flatMap (Template.Slot.regex doc naming parameters) ++ ['$']) =
        slots.map fun s => naming.capture s.key := by
    intro slots
    induction slots with
    | nil => rfl
    | cons s slots ih =>
      rw [List.flatMap_cons, Template.Slot.regex, List.append_assoc, List.append_assoc,
        groupNames_group (naming.isCaptureName_capture s.key), groupNames_escape _ (hhead slots),
        ih]
      rfl
  rw [Template.pattern, List.append_assoc, groupNames_escape _ (hhead t.slots), hslots,
    Template.names, List.map_map]
  rfl

/-! ## Parameters in the text -/

/-- A path mentions a parameter when the name stands in it in braces. A closing brace ends a name, so
no name has one. -/
def Mentions (path name : String) : Prop :=
  '\x7d' ∉ name.toList ∧ ('\x7b' :: (name.toList ++ ['\x7d'])) <:+: path.toList

namespace Template
variable {name literal rest : List Char}

/-- What the text of a template, or its regular expression, has of a parameter. -/
theorem infix_flatMap_of_mem_slots {s : Slot} {slots : List Slot} (hs : s ∈ slots)
    (f : Slot → List Char) : f s <:+: slots.flatMap f := by
  obtain ⟨before, after, rfl⟩ := List.append_of_mem hs
  rw [List.flatMap_append, List.flatMap_cons]
  exact List.infix_append' _ _ _

/-- A name in braces is found in a template exactly when it is the name of a parameter. -/
theorem infix_text_iff (hname : '\x7d' ∉ name) (hliteral : '\x7b' ∉ literal) (slots : List Slot) :
    ('\x7b' :: (name ++ ['\x7d'])) <:+: literal ++ slots.flatMap Slot.text ↔
      ∃ s ∈ slots, s.name = name := by
  constructor
  · intro h
    induction slots generalizing literal with
    | nil =>
      rw [List.flatMap_nil, List.append_nil] at h
      exact absurd (h.subset List.mem_cons_self) hliteral
    | cons s slots ih =>
      have h := Text.infix_of_infix_append hliteral h
      rw [List.flatMap_cons, Slot.text, List.cons_append, List.infix_cons_iff] at h
      rcases h with h | h
      · -- the first brace starts the name of the first parameter, and the next one ends it
        obtain ⟨behind, hbehind⟩ := (List.cons_prefix_cons.1 h).2
        have htake := congrArg (List.takeWhile (· ≠ '\x7d')) hbehind
        simp only [List.append_assoc, List.cons_append, List.nil_append] at htake
        rw [takeWhile_append_brace hname, takeWhile_append_brace s.closing_notMem_name] at htake
        exact ⟨s, List.mem_cons_self, by simpa using htake.symm⟩
      · have hfront : '\x7b' ∉ s.name ++ ['\x7d'] := by simp [s.opening_notMem_name]
        have hrest : s.name ++ '\x7d' :: s.literal ++ slots.flatMap Slot.text =
            (s.name ++ ['\x7d']) ++ (s.literal ++ slots.flatMap Slot.text) := by simp
        rw [hrest] at h
        obtain ⟨found, hfound, hsame⟩ :=
          ih s.opening_notMem_literal (Text.infix_of_infix_append hfront h)
        exact ⟨found, List.mem_cons_of_mem _ hfound, hsame⟩
  · rintro ⟨s, hs, rfl⟩
    have htext : ('\x7b' :: (s.name ++ ['\x7d'])) <:+: s.text := ⟨[], s.literal, by simp [Slot.text]⟩
    exact (htext.trans (infix_flatMap_of_mem_slots hs Slot.text)).trans
      (List.suffix_append _ _).isInfix

/-- The parameters of a template are those that its text mentions. -/
theorem mem_names_iff {t : Template} {path name : String} (htext : t.text = path.toList) :
    name ∈ t.names ↔ Mentions path name := by
  have hslot : ∀ s : Slot, s.key = name ↔ s.name = name.toList := by
    intro s
    rw [Slot.key, ← String.toList_inj, String.toList_ofList]
  simp only [names, List.mem_map, hslot, Mentions, ← htext]
  constructor
  · rintro ⟨s, hs, hname⟩
    have hclosing : '\x7d' ∉ name.toList := hname ▸ s.closing_notMem_name
    exact ⟨hclosing, (infix_text_iff hclosing t.opening_notMem_literal t.slots).2 ⟨s, hs, hname⟩⟩
  · rintro ⟨hclosing, hinfix⟩
    exact (infix_text_iff hclosing t.opening_notMem_literal t.slots).1 hinfix

/-- The group of a parameter stands in the regular expression of its template. -/
theorem group_infix_pattern (doc : Document) (naming : Naming) (parameters : List Parameter)
    {t : Template} {name : String} (h : name ∈ t.names) :
    ∃ mayBeEmpty, group (naming.capture name) mayBeEmpty <:+: t.pattern doc naming parameters := by
  obtain ⟨s, hs, rfl⟩ := List.mem_map.1 h
  refine ⟨decide (AllowsEmpty doc parameters s.key), ?_⟩
  have hregex : group (naming.capture s.key) (decide (AllowsEmpty doc parameters s.key)) <:+:
      s.regex doc naming parameters := (List.prefix_append _ _).isInfix
  have hslots := hregex.trans (infix_flatMap_of_mem_slots hs (Slot.regex doc naming parameters))
  rw [pattern, List.append_assoc]
  exact (hslots.trans (List.prefix_append _ _).isInfix).trans (List.suffix_append _ _).isInfix

end Template

/-! ## Two groups of one name -/

/-- The groups of a route path are named by the capture names of the parameters of its template, in
their order. So two groups have one name exactly when the style confuses two of the parameters; that
their names differ is not enough. -/
theorem captures_of_routePath {doc : Document} {naming : Naming} {parameters : List Parameter}
    {default : Option Int} {template : String} {path : RoutePath}
    (h : routePath doc naming parameters default template = .ok path) :
    ∃ t : Template, t.text = template.toList ∧
      groupNames path.regex.toList = t.names.map naming.capture ∧
      ((groupNames path.regex.toList).Nodup ↔
        t.names.Pairwise fun name other => ¬ naming.Confuses name other) := by
  obtain ⟨t, htext, -, hregex, -⟩ := exists_template_of_routePath h
  have hnames : groupNames path.regex.toList = t.names.map naming.capture := by
    rw [hregex, String.toList_ofList, groupNames_cons (Or.inl (by decide)), groupNames_pattern]
  refine ⟨t, htext, hnames, ?_⟩
  rw [hnames, List.Nodup, List.pairwise_map]
  simp only [ne_eq, Naming.capture_eq_capture_iff]

/-- The parameters of a path of files are told apart. -/
theorem captures_of_routePath_files :
    routePath ⟨[], "3.0.0"⟩ { flat := false } [] none "/users/\x7bid\x7d/files/\x7bname\x7d" =
      .ok ⟨"~/users/(?<id>[^#?/]+)/files/(?<name>[^#?/]+)$", 100⟩ ∧
    ∃ t : Template, t.text = "/users/\x7bid\x7d/files/\x7bname\x7d".toList ∧
      t.names.map (Naming.capture { flat := false }) = ["id", "name"] ∧
      t.names.Pairwise fun name other => ¬ Naming.Confuses { flat := false } name other := by
  have hpath : routePath ⟨[], "3.0.0"⟩ { flat := false } [] none
      "/users/\x7bid\x7d/files/\x7bname\x7d" =
      .ok ⟨"~/users/(?<id>[^#?/]+)/files/(?<name>[^#?/]+)$", 100⟩ := by
    cbv
  obtain ⟨t, htext, hnames, hnodup⟩ := captures_of_routePath hpath
  have hgroups : groupNames "~/users/(?<id>[^#?/]+)/files/(?<name>[^#?/]+)$".toList =
      ["id", "name"] := by
    cbv
  refine ⟨hpath, t, htext, hnames.symm.trans hgroups, hnodup.1 ?_⟩
  rw [hgroups]
  decide

/-- A template of two parameters whose names differ in a character that a capture name has not. -/
def rangeTemplate : Template where
  literal := ['/']
  slots := [⟨"from-id".toList, ['/'], by decide, by decide, by decide, by decide⟩,
    ⟨"from_id".toList, [], by decide, by decide, by decide, by decide⟩]
  opening_notMem_literal := by decide

/-- Different names do not keep groups apart. -/
theorem exists_groups_of_one_name :
    rangeTemplate.text = "/\x7bfrom-id\x7d/\x7bfrom_id\x7d".toList ∧
    rangeTemplate.names = ["from-id", "from_id"] ∧ rangeTemplate.names.Nodup ∧
    ∃ path, routePath ⟨[], "3.0.0"⟩ { flat := false } [] none
        "/\x7bfrom-id\x7d/\x7bfrom_id\x7d" = .ok path ∧
      groupNames path.regex.toList = ["from_id", "from_id"] ∧
      ¬ (groupNames path.regex.toList).Nodup := by
  refine ⟨by decide, by decide, by decide,
    ⟨"~/(?<from_id>[^#?/]+)/(?<from_id>[^#?/]+)$", 100⟩, by cbv, by cbv, ?_⟩
  decide +kernel

end ApiGateway
