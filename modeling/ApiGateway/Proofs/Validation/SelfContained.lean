import ApiGateway.Proofs.Validation.Collection

/-!
# Self-contained schemas

An extracted schema has every reference that it collects pointed to a definition. The definition of
a reference is found at the end of the pointer when its name is a single segment, and is the target
of the reference unless another reference has the same name. A reference that the walk of schemas
does not visit, and that no walk collects elsewhere, stays as it is.

A component schema can be referred to in parts. Then the name has a slash in it, which the written
form does not escape, so the pointer misses the definition.

## Main definitions

* `Json.at?`: the value at the end of a local reference into a value.
* `Json.overlooked`: the references that redirection leaves.
* `Plain`: the references whose name is a single segment.
* `Document.bundle`: a schema with the definitions of what it collects.

## Main results

* `Json.mem_references_redirect`, `Json.overlooked_subset`: the references after a redirection.
* `Document.at?_definitionReference`: where a redirected reference leads.
* `Document.extractSchema_spec`: what an extracted schema holds.
-/
namespace ApiGateway

/-- The value at the end of a local reference, read as a pointer into a value. -/
def Json.at? (value : Json) (reference : String) : Option Json :=
  (Pointer.segments? reference).bind (Pointer.descend? value)

/-! ## Redirection -/

namespace Json
variable {collected : List String}

mutual

/-- The references that redirection leaves as they are: those that are not collected, and all that
stand below a value of `$ref` which is no string. -/
def overlooked (collected : List String) : Json → List String
  | .obj members => overlookedInMembers collected members
  | .arr items => overlookedInItems collected items
  | _ => []

/-- The references in a list that redirection leaves. -/
def overlookedInItems (collected : List String) : List Json → List String
  | [] => []
  | item :: rest => overlooked collected item ++ overlookedInItems collected rest

/-- The references in the members of an object that redirection leaves. -/
def overlookedInMembers (collected : List String) : List (String × Json) → List String
  | [] => []
  | (key, value) :: rest =>
    (if key = "$ref" then
        value.asString?.toList.filter (· ∉ collected) ++ value.references
      else overlooked collected value) ++ overlookedInMembers collected rest

end

/-- What stands under `$ref` after a redirection. -/
theorem redirectMembers_cons (collected : List String) (key : String) (value : Json)
    (rest : List (String × Json)) :
    redirectMembers collected ((key, value) :: rest) =
      (key, if key = "$ref" then
          match value with
          | .str r => if r ∈ collected then .str (definitionReference r) else value
          | _ => value
        else redirect collected value) :: redirectMembers collected rest := by
  cases value <;> simp [redirectMembers]

mutual

/-- After a redirection every reference leads to a definition or is one that is left. -/
theorem mem_references_redirect {s : String} : ∀ {value : Json},
    s ∈ (value.redirect collected).references →
      (∃ r ∈ collected, s = definitionReference r) ∨ s ∈ value.overlooked collected
  | .obj members => by
    simp only [redirect, references, overlooked]
    exact mem_references_redirectMembers
  | .arr items => by
    simp only [redirect, references, overlooked]
    exact mem_references_redirectItems
  | .null | .bool _ | .int _ | .float _ | .str _ => by simp [redirect, references]

theorem mem_references_redirectItems {s : String} : ∀ {items : List Json},
    s ∈ referencesInItems (redirectItems collected items) →
      (∃ r ∈ collected, s = definitionReference r) ∨ s ∈ overlookedInItems collected items
  | [] => by simp [redirectItems]
  | item :: rest => by
    simp only [redirectItems, referencesInItems, overlookedInItems, List.mem_append]
    rintro (h | h)
    · exact (mem_references_redirect h).imp_right Or.inl
    · exact (mem_references_redirectItems h).imp_right Or.inr

theorem mem_references_redirectMembers {s : String} : ∀ {members : List (String × Json)},
    s ∈ referencesInMembers (redirectMembers collected members) →
      (∃ r ∈ collected, s = definitionReference r) ∨ s ∈ overlookedInMembers collected members
  | [] => by simp [redirectMembers]
  | (key, value) :: rest => by
    simp only [redirectMembers_cons, referencesInMembers, overlookedInMembers, List.mem_append]
    rintro (h | h)
    · by_cases hkey : key = "$ref"
      · cases value with
        | str r =>
          by_cases hr : r ∈ collected
          · left
            exact ⟨r, hr, by simpa [hkey, hr, asString?, references] using h⟩
          · right
            left
            simpa [hkey, hr, asString?, references] using h
        | _ =>
          right
          left
          simpa [hkey, asString?] using h
      · simp only [hkey, if_false, List.not_mem_nil, false_or] at h ⊢
        exact (mem_references_redirect h).imp_right Or.inl
    · exact (mem_references_redirectMembers h).imp_right Or.inr

end

mutual

/-- What redirection leaves stands in the result. -/
theorem overlooked_subset : ∀ value : Json,
    value.overlooked collected ⊆ (value.redirect collected).references
  | .obj members => by
    simpa only [redirect, references, overlooked] using overlookedInMembers_subset members
  | .arr items => by
    simpa only [redirect, references, overlooked] using overlookedInItems_subset items
  | .null | .bool _ | .int _ | .float _ | .str _ => by simp [overlooked]

theorem overlookedInItems_subset : ∀ items : List Json,
    overlookedInItems collected items ⊆ referencesInItems (redirectItems collected items)
  | [] => by simp [overlookedInItems]
  | item :: rest => by
    simp only [redirectItems, referencesInItems, overlookedInItems]
    exact List.append_subset.2
      ⟨List.Subset.trans (overlooked_subset item) (List.subset_append_left _ _),
        List.Subset.trans (overlookedInItems_subset rest) (List.subset_append_right _ _)⟩

theorem overlookedInMembers_subset : ∀ members : List (String × Json),
    overlookedInMembers collected members ⊆ referencesInMembers (redirectMembers collected members)
  | [] => by simp [overlookedInMembers]
  | (key, value) :: rest => by
    simp only [redirectMembers_cons, referencesInMembers, overlookedInMembers]
    refine List.append_subset.2 ⟨?_, List.Subset.trans (overlookedInMembers_subset rest)
      (List.subset_append_right _ _)⟩
    refine List.Subset.trans ?_ (List.subset_append_left _ _)
    by_cases hkey : key = "$ref"
    · cases value with
      | str r => by_cases hr : r ∈ collected <;> simp [hkey, hr, asString?, references]
      | _ => simp [hkey, asString?]
    · simpa only [hkey, if_false, List.nil_append] using overlooked_subset value

end

/-- A redirection redirects what stands under any key but `$ref`. -/
theorem get?_redirectMembers (members : Members) {key : String} (hkey : key ≠ "$ref") :
    Members.get? (redirectMembers collected members) key =
      (members.get? key).map (redirect collected) := by
  induction members with
  | nil => rfl
  | cons m rest ih =>
    obtain ⟨k, v⟩ := m
    rw [redirectMembers_cons, Members.get?_cons, Members.get?_cons]
    split
    · subst_vars
      simp [hkey]
    · exact ih

end Json

/-! ## Definitions -/

/-- The name of a reference is a single segment of a pointer, and is not that of a reference. -/
def Plain (reference : String) : Prop :=
  '/' ∉ definitionSegment reference ∧ definitionName reference ≠ "$ref"

instance (reference : String) : Decidable (Plain reference) := inferInstanceAs (Decidable (_ ∧ _))

/-- The segments of the pointer to the definition of a name that is a single segment. -/
theorem segments?_definitionReference {r : String} (h : '/' ∉ definitionSegment r) :
    Pointer.segments? (definitionReference r) = some ["definitions", definitionName r] := by
  have hafter : Text.after? "#/".toList (definitionReference r).toList =
      some ("definitions".toList ++ '/' :: definitionSegment r) := by
    rw [Text.after?_eq_some_iff, definitionReference, String.toList_append, String.toList_ofList]
    simp
  rw [Pointer.segments?, hafter, Option.map_some, Pointer.segments,
    List.splitOn_append_cons_self_of_not_mem (by decide), List.splitOn_eq_singleton h]
  rfl

namespace Document
variable {doc : Document} {collected : List String} {r : String}

/-- Under the name of a reference stands the target of some reference with this name. -/
theorem exists_get?_definitionsOf (doc : Document) (hr : r ∈ collected) :
    ∃ s ∈ collected, definitionName s = definitionName r ∧
      (doc.definitionsOf collected).get? (definitionName r) =
        some ((doc.lookup? s).getD .null) := by
  induction collected with
  | nil => cases hr
  | cons s rest ih =>
    by_cases hname : definitionName s = definitionName r
    · exact ⟨s, List.mem_cons_self, hname, by simp [definitionsOf, hname]⟩
    · obtain rfl | hrest := List.mem_cons.1 hr
      · exact absurd rfl hname
      · obtain ⟨t, ht, htname, hget⟩ := ih hrest
        refine ⟨t, List.mem_cons_of_mem _ ht, htname, ?_⟩
        rw [definitionsOf, Members.get?_insert, if_neg (Ne.symm hname), hget]

/-- A schema with the definitions of what it collects, before references are redirected. A schema
that refers to another is just its reference. -/
def bundle (doc : Document) (schema : Json) (collected : List String) : Json :=
  let primary := match schema.reference? with
    | some reference => Json.obj [("$ref", .str reference)]
    | none => schema
  match primary with
  | .obj members =>
    if collected = [] then primary
    else .obj (Members.insert members "definitions" (.obj (doc.definitionsOf collected)))
  | other => other

theorem definitionsOf_eq_nil_iff : doc.definitionsOf collected = [] ↔ collected = [] := by
  cases collected with
  | nil => simp [definitionsOf]
  | cons r rest =>
    have hget : (doc.definitionsOf (r :: rest)).get? (definitionName r) ≠ none := by
      simp [definitionsOf]
    simp only [reduceCtorEq, iff_false]
    intro hnil
    exact hget (by rw [hnil]; rfl)

/-- A self-contained schema is a bundle whose references are redirected. -/
theorem selfContained_eq_ok_iff {schema w : Json} :
    doc.selfContained schema = .ok w ↔ ∃ c, doc.collect schema = .ok c ∧
      w = (doc.bundle schema c.references).redirect c.references := by
  rw [selfContained, bind_eq_ok_iff]
  refine exists_congr fun c => and_congr_right fun hc => ?_
  obtain ⟨-, -, -, hdefinitions⟩ := collect_spec hc
  simp only [hdefinitions, definitionsOf_eq_nil_iff, bundle]
  exact ⟨fun h => (Except.ok.inj h).symm, fun h => congrArg Except.ok h.symm⟩

/-- What a bundle collects stands under `definitions`. -/
theorem exists_bundle_eq {schema : Json} (hr : r ∈ collected)
    (hreach : doc.Reaches schema.schemaReferences r) :
    ∃ members : Members, doc.bundle schema collected =
      .obj (members.insert "definitions" (.obj (doc.definitionsOf collected))) := by
  have hne : collected ≠ [] := List.ne_nil_of_mem hr
  cases hown : schema.reference? with
  | some s => exact ⟨[("$ref", .str s)], by simp [bundle, hown, hne]⟩
  | none =>
    cases schema with
    | obj members => exact ⟨members, by simp [bundle, hown, hne]⟩
    | _ =>
      -- a schema that is no object refers to nothing
      have hnone : ∀ {s}, ¬ doc.Reaches [] s := by
        intro s hs
        induction hs with
        | start hs => cases hs
        | follow _ _ _ ih => exact ih
      rw [Json.schemaReferences_of_reference?_eq_none hown] at hreach
      exact absurd hreach hnone

/-- A redirected reference with a plain name leads to the target of a collected reference with the
same name, with its references redirected. -/
theorem at?_definitionReference {schema : Json} (hr : r ∈ collected) (hplain : Plain r)
    (hreach : doc.Reaches schema.schemaReferences r)
    (hresolves : ∀ s ∈ collected, ∃ target, doc.lookup? s = some target) :
    ∃ s ∈ collected, definitionName s = definitionName r ∧ ∃ target, doc.lookup? s = some target ∧
      ((doc.bundle schema collected).redirect collected).at? (definitionReference r) =
        some (target.redirect collected) := by
  obtain ⟨members, hbundle⟩ := exists_bundle_eq hr hreach
  obtain ⟨s, hs, hname, hget⟩ := doc.exists_get?_definitionsOf hr
  obtain ⟨target, htarget⟩ := hresolves s hs
  refine ⟨s, hs, hname, target, htarget, ?_⟩
  rw [htarget, Option.getD_some] at hget
  have hdefinitions : Members.get? (Json.redirectMembers collected
      (members.insert "definitions" (.obj (doc.definitionsOf collected)))) "definitions" =
      some (.obj (Json.redirectMembers collected (doc.definitionsOf collected))) := by
    rw [Json.get?_redirectMembers _ (by decide), Members.get?_insert_self, Option.map_some,
      Json.redirect]
  have hdefinition : Members.get? (Json.redirectMembers collected (doc.definitionsOf collected))
      (definitionName r) = some (target.redirect collected) := by
    rw [Json.get?_redirectMembers _ hplain.2, hget, Option.map_some]
  rw [hbundle, Json.redirect, Json.at?, segments?_definitionReference hplain.1, Option.bind_some]
  simp only [Pointer.descend?, List.foldlM_cons, List.foldlM_nil, Pointer.step?, Json.get?,
    hdefinitions, Option.bind_eq_bind, Option.bind_some, hdefinition]
  rfl

/-- What an extracted schema holds. It collects each reference that the walk of schemas reaches once.
Its references are those of the definitions of collected ones, and those that redirection leaves. A
plain reference leads to the target of a collected reference of the same name, with its references
redirected. So when all collected references are plain, no two of them with different targets share
a name, and redirection leaves none, then every reference of the extracted schema leads to the
redirected target of the reference it stands for. -/
theorem extractSchema_spec {schema : Json} {text : String}
    (h : doc.extractSchema (some schema) = .ok text) :
    ∃ (c : Collected) (w : Json), doc.collect schema = .ok c ∧ text = w.compact ∧
      c.references.Nodup ∧ (∀ r, r ∈ c.references ↔ doc.Reaches schema.schemaReferences r) ∧
      (∀ s ∈ w.references, (∃ r ∈ c.references, s = definitionReference r) ∨
        s ∈ (doc.bundle schema c.references).overlooked c.references) ∧
      (doc.bundle schema c.references).overlooked c.references ⊆ w.references ∧
      (∀ r ∈ c.references, Plain r →
        ∃ s ∈ c.references, definitionName s = definitionName r ∧
          ∃ target, doc.lookup? s = some target ∧
            w.at? (definitionReference r) = some (target.redirect c.references)) ∧
      ((∀ r ∈ c.references, Plain r ∧ ∀ s ∈ c.references,
          definitionName s = definitionName r → doc.lookup? s = doc.lookup? r) →
        (doc.bundle schema c.references).overlooked c.references = [] →
        ∀ s ∈ w.references, ∃ r ∈ c.references, s = definitionReference r ∧
          ∃ target, doc.lookup? r = some target ∧
            w.at? s = some (target.redirect c.references)) := by
  obtain ⟨w, hw, rfl⟩ := map_eq_ok_iff.1 h
  obtain ⟨c, hc, rfl⟩ := selfContained_eq_ok_iff.1 hw
  obtain ⟨hnodup, hreaches, hresolves, -⟩ := collect_spec hc
  have hleads : ∀ r ∈ c.references, Plain r → _ := fun r hr hplain =>
    at?_definitionReference hr hplain ((hreaches r).1 hr) hresolves
  refine ⟨c, _, hc, rfl, hnodup, hreaches, fun s hs => Json.mem_references_redirect hs,
    Json.overlooked_subset _, hleads, ?_⟩
  intro hsound hnone s hs
  obtain ⟨r, hr, rfl⟩ | hleft := Json.mem_references_redirect hs
  · obtain ⟨hplain, hshared⟩ := hsound r hr
    obtain ⟨t, ht, hname, target, htarget, hat⟩ := hleads r hr hplain
    exact ⟨r, hr, rfl, target, (hshared t ht hname).symm.trans htarget, hat⟩
  · rw [hnone] at hleft
    cases hleft

end Document

/-- The component schemas of a small document, one of which refers to itself. -/
def treeMembers : Members :=
  [("components", .obj [("schemas", .obj
      [("Name", .obj [("type", .str "string")]),
        ("Tree", .obj [("properties", .obj
          [("children", .obj [("items", .obj [("$ref", .str "#/components/schemas/Tree")])]),
            ("name", .obj [("$ref", .str "#/components/schemas/Name")])])])])]),
    ("openapi", .str "3.0.0"), ("paths", .obj [])]

/-- A schema that refers to itself is extracted with all that it refers to, and every reference of
the result leads to what it stands for. -/
theorem extractSchema_spec_tree :
    ∃ (text : String) (c : Collected) (w : Json),
      (Document.mk treeMembers "3.0.0").extractSchema
        (some (.obj [("$ref", .str "#/components/schemas/Tree")])) = .ok text ∧
      text = w.compact ∧
      c.references = ["#/components/schemas/Name", "#/components/schemas/Tree"] ∧
      ∀ s ∈ w.references, ∃ r ∈ c.references, s = definitionReference r ∧
        ∃ target, (Document.mk treeMembers "3.0.0").lookup? r = some target ∧
          w.at? s = some (target.redirect c.references) := by
  have hcollect : ((Document.mk treeMembers "3.0.0").collect
      (.obj [("$ref", .str "#/components/schemas/Tree")])).toOption.map (·.references) =
        some ["#/components/schemas/Name", "#/components/schemas/Tree"] := by
    decide +kernel
  obtain ⟨c, hc, hreferences⟩ := Option.map_eq_some_iff.1 hcollect
  rw [toOption_eq_some_iff] at hc
  have hrun := congrArg (Except.map Json.compact) (Document.selfContained_eq_ok_iff.2 ⟨c, hc, rfl⟩)
  obtain ⟨c', w, hc', htext, -, -, -, -, -, hleads⟩ := Document.extractSchema_spec hrun
  obtain rfl := Except.ok.inj (hc'.symm.trans hc)
  refine ⟨_, c', w, hrun, htext, hreferences, hleads ?_ ?_⟩
  · rw [hreferences]
    have hnames : definitionName "#/components/schemas/Name" ≠
        definitionName "#/components/schemas/Tree" := by
      decide +kernel
    simp only [List.forall_mem_cons, List.not_mem_nil, IsEmpty.forall_iff, implies_true, and_true,
      true_and]
    exact ⟨⟨by decide +kernel, fun h => absurd h.symm hnames⟩, by decide +kernel,
      fun h => absurd h hnames⟩
  · rw [hreferences]
    decide +kernel

/-- A reference to a part of a component schema is collected under a name with slashes in it, and
the pointer to its definition leads nowhere. -/
theorem exists_dangling_reference :
    ∃ (text : String) (c : Collected) (w : Json),
      (Document.mk treeMembers "3.0.0").extractSchema
        (some (.obj [("$ref", .str "#/components/schemas/Tree/properties/name")])) = .ok text ∧
      text = w.compact ∧
      (Document.mk treeMembers "3.0.0").collect
        (.obj [("$ref", .str "#/components/schemas/Tree/properties/name")]) = .ok c ∧
      "#/components/schemas/Tree/properties/name" ∈ c.references ∧
      definitionReference "#/components/schemas/Tree/properties/name" ∈ w.references ∧
      w.at? (definitionReference "#/components/schemas/Tree/properties/name") = none := by
  have hcollect : ((Document.mk treeMembers "3.0.0").collect
      (.obj [("$ref", .str "#/components/schemas/Tree/properties/name")])).toOption.map
        (·.references) =
        some ["#/components/schemas/Name", "#/components/schemas/Tree/properties/name"] := by
    decide +kernel
  obtain ⟨c, hc, hreferences⟩ := Option.map_eq_some_iff.1 hcollect
  rw [toOption_eq_some_iff] at hc
  have hrun := congrArg (Except.map Json.compact) (Document.selfContained_eq_ok_iff.2 ⟨c, hc, rfl⟩)
  refine ⟨_, c, _, hrun, rfl, hc, ?_, ?_, ?_⟩
  · simp [hreferences]
  · rw [hreferences]
    decide +kernel
  · rw [hreferences, ← Option.isNone_iff_eq_none]
    decide +kernel

end ApiGateway
