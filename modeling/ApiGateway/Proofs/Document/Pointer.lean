import ApiGateway.Document.Cycle
import ApiGateway.Proofs.Outcome
import Mathlib.Data.List.Basic

/-!
# References to components

A segment is written without slashes, so a pointer that is put together from written segments falls
apart into them again. The reference to a component by its name therefore leads to the component of
this name, whatever characters the name has: schemas and security schemes are found by their names.

## Main results

* `Pointer.segments_append_slash`: the first segment of a pointer.
* `Pointer.segments?_components`: the segments of a reference into the components.
* `Pointer.segments?_component`: the segments of a reference to a component schema.
* `Document.lookup?_component`: what a reference to a component by its name leads to.
* `Document.lookup?_schemaReference`: a component schema is found by its name.
* `Document.components_by_name`: names of schemas and of security schemes.
-/
namespace ApiGateway

namespace Pointer

theorem segments_ne_nil (pointer : List Char) : segments pointer ≠ [] := by
  simp [segments, List.splitOn_ne_nil]

theorem slash_notMem_escapeSlash (written : List Char) : '/' ∉ escapeSlash written := by
  induction written with
  | nil => simp [escapeSlash]
  | cons c rest ih =>
    by_cases hc : c = '/'
    · simp [escapeSlash, hc, ih]
    · simp [escapeSlash, hc, ih, Ne.symm hc]

/-- A segment is written without slashes. -/
theorem slash_notMem_escape (segment : String) : '/' ∉ (escape segment).toList := by
  rw [escape, String.toList_ofList]
  exact slash_notMem_escapeSlash _

/-- A pointer without slashes is a single segment. -/
theorem segments_of_notMem {written : List Char} (h : '/' ∉ written) :
    segments written = [unescape written] := by
  rw [segments, List.splitOn_eq_singleton h, List.map_singleton]

/-- The first segment of a pointer ends at the first slash. -/
theorem segments_append_slash {written : List Char} (h : '/' ∉ written) (rest : List Char) :
    segments (written ++ '/' :: rest) = unescape written :: segments rest := by
  rw [segments, List.splitOn_append_cons_self_of_not_mem h, List.map_cons, segments]

/-- A reference into a part of the components starts with two segments. -/
theorem segments?_components {reference : String} {part rest : List Char} (hpart : '/' ∉ part)
    (h : reference.toList = "#/components/".toList ++ (part ++ '/' :: rest)) :
    segments? reference = some ("components" :: unescape part :: segments rest) := by
  have hafter : Text.after? "#/".toList reference.toList =
      some ("components".toList ++ '/' :: (part ++ '/' :: rest)) := by
    rw [Text.after?_eq_some_iff, h]
    simp
  rw [segments?, hafter, Option.map_some, segments_append_slash (by decide),
    segments_append_slash hpart]
  rfl

/-- The segments of a reference to a component schema, whose name is written as a single one. -/
theorem segments?_component {reference : String} {written : List Char}
    (hslash : '/' ∉ written)
    (h : reference.toList = "#/components/schemas/".toList ++ written) :
    segments? reference = some ["components", "schemas", unescape written] := by
  have hparts : reference.toList =
      "#/components/".toList ++ ("schemas".toList ++ '/' :: written) := by
    rw [h]
    simp
  rw [segments?_components (by decide) hparts, segments_of_notMem hslash]
  rfl

end Pointer

namespace Document
variable {doc : Document} {name : String} {schema : Json}

theorem toList_schemaReference (name : String) :
    (schemaReference name).toList =
      "#/components/schemas/".toList ++ (Pointer.escape name).toList := String.toList_append

/-- A component schema stands in an object of component schemas. -/
theorem exists_of_get?_schemas (h : doc.schemas.get? name = some schema) :
    ∃ components members : Members, doc.root.get? "components" = some (.obj components) ∧
      components.get? "schemas" = some (.obj members) ∧ members.get? name = some schema := by
  rw [schemas] at h
  split at h
  case h_1 members hmembers =>
    obtain ⟨components, hcomponents, hschemas⟩ := Option.bind_eq_some_iff.1 hmembers
    cases components with
    | obj components => exact ⟨components, members, hcomponents, hschemas, h⟩
    | _ => cases hschemas
  case h_2 => cases h

/-- The reference to a component by its name leads to what stands under this name. -/
theorem lookup?_component {reference part : String} {components members : Members}
    (hslash : '/' ∉ part.toList) (hplain : Pointer.unescape part.toList = part)
    (hreference : reference.toList =
      "#/components/".toList ++ (part.toList ++ '/' :: (Pointer.escape name).toList))
    (hcomponents : doc.root.get? "components" = some (.obj components))
    (hmembers : components.get? part = some (.obj members)) :
    doc.lookup? reference = members.get? name := by
  have hsegments : Pointer.segments? reference = some ["components", part, name] := by
    rw [Pointer.segments?_components hslash hreference, hplain,
      Pointer.segments_of_notMem (Pointer.slash_notMem_escape name), Pointer.unescape_escape]
  rw [lookup?, hsegments, Option.bind_some]
  simp only [Pointer.descend?, List.foldlM_cons, List.foldlM_nil, Pointer.step?, Json.get?,
    hcomponents, hmembers, Option.bind_eq_bind, Option.bind_some]
  exact Option.bind_fun_some _

/-- A component schema is found by the reference with its name. -/
theorem lookup?_schemaReference (h : doc.schemas.get? name = some schema) :
    doc.lookup? (schemaReference name) = some schema := by
  obtain ⟨components, members, hcomponents, hschemas, hget⟩ := exists_of_get?_schemas h
  have hreference : (schemaReference name).toList =
      "#/components/".toList ++ ("schemas".toList ++ '/' :: (Pointer.escape name).toList) := by
    rw [toList_schemaReference]
    simp
  rw [lookup?_component (by decide) (by decide) hreference hcomponents hschemas, hget]

section SecuritySchemes
variable {components schemes : Members}
  (hcomponents : doc.root.get? "components" = some (.obj components))
  (hschemes : components.get? "securitySchemes" = some (.obj schemes))
include hcomponents hschemes

/-- The entry of a security scheme is found by the reference with its name. -/
theorem lookup?_securityScheme (name : String) :
    doc.lookup? ("#/components/securitySchemes/" ++ Pointer.escape name) = schemes.get? name := by
  refine lookup?_component (by decide) (by decide) ?_ hcomponents hschemes
  rw [String.toList_append]
  simp

/-- A name without an entry has no security scheme. -/
theorem securityScheme_of_none (h : schemes.get? name = none) : doc.securityScheme name =
    .error (.unresolved ("#/components/securitySchemes/" ++ Pointer.escape name)) := by
  simp only [securityScheme, lookup?_securityScheme hcomponents hschemes, h]

/-- The security scheme of a name is the object that references lead to from its entry. -/
theorem securityScheme_eq_ok_iff_of_entry {entry : Json} (h : schemes.get? name = some entry)
    {scheme : Members} :
    doc.securityScheme name = .ok scheme ↔ doc.resolve entry = .ok (.obj scheme) := by
  simp only [securityScheme, lookup?_securityScheme hcomponents hschemes, h]
  cases doc.resolve entry with
  | error e => simp
  | ok value => cases value <;> simp

/-- An entry whose references lead nowhere fails like them. -/
theorem securityScheme_of_unresolved {entry : Json} (h : schemes.get? name = some entry) {e : Error}
    (hentry : doc.resolve entry = .error e) : doc.securityScheme name = .error e := by
  simp only [securityScheme, lookup?_securityScheme hcomponents hschemes, h, hentry, error_bind]

end SecuritySchemes

/-- Components are found by their names, whatever characters these have. A name is read back from
its written form, which has no slashes. When security schemes are an object, the scheme of a name is
the object that references lead to from its entry, and a name without an entry fails. The reference
to a component schema in the search for circles leads to this schema. -/
theorem components_by_name (doc : Document) :
    (∀ name : String, Pointer.unescape (Pointer.escape name).toList = name ∧
      '/' ∉ (Pointer.escape name).toList) ∧
    (∀ components schemes : Members, doc.root.get? "components" = some (.obj components) →
      components.get? "securitySchemes" = some (.obj schemes) → ∀ name,
        (schemes.get? name = none → ∃ e, doc.securityScheme name = .error e ∧ e.code = "E1003") ∧
        ∀ entry, schemes.get? name = some entry →
          (∀ scheme, doc.securityScheme name = .ok scheme ↔
            doc.resolve entry = .ok (.obj scheme)) ∧
          ∀ e, doc.resolve entry = .error e → doc.securityScheme name = .error e) ∧
    ∀ name schema, doc.schemas.get? name = some schema →
      doc.lookup? (schemaReference name) = some schema := by
  refine ⟨fun name => ⟨Pointer.unescape_escape name, Pointer.slash_notMem_escape name⟩, ?_,
    fun _ _ => lookup?_schemaReference⟩
  intro components schemes hcomponents hschemes name
  refine ⟨fun hnone => ⟨_, securityScheme_of_none hcomponents hschemes hnone, rfl⟩, ?_⟩
  intro entry hentry
  exact ⟨fun _ => securityScheme_eq_ok_iff_of_entry hcomponents hschemes hentry,
    fun _ => securityScheme_of_unresolved hcomponents hschemes hentry⟩

/-- A document with slashes and tildes in the names of its components. One security scheme stands
for another one. -/
def harborDocument : Document :=
  ⟨[("components", .obj
      [("schemas", .obj [("a/b~01", .obj [("type", .str "string")])]),
        ("securitySchemes", .obj
          [("crew/~1", .obj [("$ref", .str "#/components/securitySchemes/~00")]),
            ("~0", .obj [("type", .str "openIdConnect")])])]),
    ("openapi", .str "3.0.0"), ("paths", .obj [])], "3.0.0"⟩

/-- The crew has the scheme that its entry refers to, and nobody else has one. -/
theorem components_by_name_harbor :
    harborDocument.securityScheme "crew/~1" = .ok [("type", .str "openIdConnect")] ∧
    (∃ e, harborDocument.securityScheme "crew" = .error e ∧ e.code = "E1003") ∧
    Pointer.escape "a/b~01" = "a~1b~001" ∧
    harborDocument.lookup? (schemaReference "a/b~01") = some (.obj [("type", .str "string")]) := by
  obtain ⟨-, hschemes, hschemas⟩ := components_by_name harborDocument
  have hnames := hschemes _ _ rfl rfl
  refine ⟨?_, (hnames "crew").1 (by decide), by decide, hschemas _ _ (by rfl)⟩
  exact (((hnames "crew/~1").2 _ rfl).1 _).2 rfl

end Document

end ApiGateway
