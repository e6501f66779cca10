import ApiGateway.Proofs.Document.Pointer
import ApiGateway.Proofs.Validation.Reachability
import ApiGateway.Proofs.Validation.SelfContained

/-!
# Extraction of component schemas

Where all references that a schema reaches are references to component schemas by name, extraction
succeeds, and one can say in full what the extracted schema is: the schema, or just its reference,
with the definitions of all that is reached, and with every reference that is collected rewritten,
wherever it stands.

Redirection is this rewriting but for one thing. Below a member `$ref` that is no string it changes
nothing, although such a member may well be a property or a component schema of this name, which the
walk of schemas visits. So references that are collected can be left.

## Main definitions

* `Json.mapReferences`: every string under `$ref` replaced, wherever it stands.
* `Json.rewritten`: collected references rewritten, wherever they stand.
* `Json.Memberwise`: the changes of values that redirection and rewriting are examples of.
* `ComponentReference`: the references to component schemas by name.
* `Document.assemble`: a schema with the definitions of what it reaches.

## Main results

* `Json.redirect_eq_rewritten_iff`: when redirection rewrites all references that are collected.
* `ComponentReference.lookup?_congr`: a component schema is determined by its name.
* `Document.change_bundle`: a change of a bundle is a change of its parts.
* `Document.at?_redirect_bundle`: where a redirected reference leads.
* `Document.components_of_extractSchema`: what an extracted schema is.
-/
namespace ApiGateway

/-! ## Rewriting references -/

namespace Json

/-- A string replaced if it stands under `$ref`. -/
def redirectString (f : String → String) (key : String) : Json → Json
  | .str r => if key = "$ref" then .str (f r) else .str r
  | other => other

mutual

/-- Every string under `$ref` in a value replaced, wherever it stands. -/
def mapReferences (f : String → String) : Json → Json
  | .obj members => .obj (mapReferencesInMembers f members)
  | .arr items => .arr (mapReferencesInItems f items)
  | other => other

/-- Every string under `$ref` in the items of a list replaced. -/
def mapReferencesInItems (f : String → String) : List Json → List Json
  | [] => []
  | item :: rest => mapReferences f item :: mapReferencesInItems f rest

/-- Every string under `$ref` in the members of an object replaced. -/
def mapReferencesInMembers (f : String → String) : List (String × Json) → List (String × Json)
  | [] => []
  | (key, value) :: rest =>
    (key, redirectString f key (mapReferences f value)) :: mapReferencesInMembers f rest

end

/-- A value whose collected references point to their definitions, wherever they stand. -/
def rewritten (collected : List String) (value : Json) : Json :=
  value.mapReferences fun r => if r ∈ collected then definitionReference r else r

theorem redirectString_of_ne (f : String → String) {key : String} (h : key ≠ "$ref")
    (value : Json) : redirectString f key value = value := by
  cases value <;> simp [redirectString, h]

mutual

/-- Replacing references changes a value at its references, and nowhere else. -/
theorem mapReferences_eq_self_iff {f : String → String} : ∀ value : Json,
    value.mapReferences f = value ↔ ∀ r ∈ value.references, f r = r
  | .obj members => by
    simpa only [mapReferences, references, Json.obj.injEq] using
      mapReferencesInMembers_eq_self_iff members
  | .arr items => by
    simpa only [mapReferences, references, Json.arr.injEq] using
      mapReferencesInItems_eq_self_iff items
  | .null | .bool _ | .int _ | .float _ | .str _ => by simp [mapReferences, references]

theorem mapReferencesInItems_eq_self_iff {f : String → String} : ∀ items : List Json,
    mapReferencesInItems f items = items ↔ ∀ r ∈ referencesInItems items, f r = r
  | [] => by simp [mapReferencesInItems, referencesInItems]
  | item :: rest => by
    simp only [mapReferencesInItems, referencesInItems, List.cons.injEq, List.forall_mem_append,
      mapReferences_eq_self_iff item, mapReferencesInItems_eq_self_iff rest]

theorem mapReferencesInMembers_eq_self_iff {f : String → String} :
    ∀ members : List (String × Json),
      mapReferencesInMembers f members = members ↔ ∀ r ∈ referencesInMembers members, f r = r
  | [] => by simp [mapReferencesInMembers, referencesInMembers]
  | (key, value) :: rest => by
    have hvalue := mapReferences_eq_self_iff (f := f) value
    have hhead : redirectString f key (mapReferences f value) = value ↔
        ∀ r ∈ (if key = "$ref" then value.asString?.toList else []) ++ value.references,
          f r = r := by
      by_cases hkey : key = "$ref"
      · cases value <;>
          simp_all [redirectString, mapReferences, asString?, references]
      · simpa [hkey, redirectString_of_ne] using hvalue
    simp only [mapReferencesInMembers, referencesInMembers, List.cons.injEq, Prod.mk.injEq,
      true_and, hhead, mapReferencesInMembers_eq_self_iff rest]
    exact List.forall_mem_append.symm

end

section Redirection
variable {collected : List String}

/-- Below a `$ref` that is no string, nothing is changed only where nothing is collected. -/
private theorem eq_rewritten_iff (hmoved : ∀ r ∈ collected, definitionReference r ≠ r)
    (value : Json) :
    value = value.rewritten collected ↔ ∀ r ∈ collected, r ∉ value.references := by
  have hmap := mapReferences_eq_self_iff
    (f := fun r => if r ∈ collected then definitionReference r else r) value
  rw [eq_comm, rewritten, hmap]
  constructor
  · intro h r hr hmem
    have hfixed := h r hmem
    rw [if_pos hr] at hfixed
    exact hmoved r hr hfixed
  · intro h r hmem
    rw [if_neg fun hr => h r hr hmem]

mutual

/-- Redirection rewrites all references that are collected exactly when it leaves none of them. -/
theorem redirect_eq_rewritten_iff (hmoved : ∀ r ∈ collected, definitionReference r ≠ r) :
    ∀ value : Json, value.redirect collected = value.rewritten collected ↔
      ∀ r ∈ collected, r ∉ value.overlooked collected
  | .obj members => by
    simpa only [redirect, rewritten, mapReferences, overlooked, Json.obj.injEq] using
      redirectMembers_eq_rewritten_iff hmoved members
  | .arr items => by
    simpa only [redirect, rewritten, mapReferences, overlooked, Json.arr.injEq] using
      redirectItems_eq_rewritten_iff hmoved items
  | .null | .bool _ | .int _ | .float _ | .str _ => by
    simp [redirect, rewritten, mapReferences, overlooked]

theorem redirectItems_eq_rewritten_iff (hmoved : ∀ r ∈ collected, definitionReference r ≠ r) :
    ∀ items : List Json, redirectItems collected items =
      mapReferencesInItems (fun r => if r ∈ collected then definitionReference r else r) items ↔
      ∀ r ∈ collected, r ∉ overlookedInItems collected items
  | [] => by simp [redirectItems, mapReferencesInItems, overlookedInItems]
  | item :: rest => by
    have hitem := redirect_eq_rewritten_iff hmoved item
    have hrest := redirectItems_eq_rewritten_iff hmoved rest
    simp only [redirectItems, mapReferencesInItems, overlookedInItems, List.cons.injEq,
      List.mem_append, not_or, forall_and, hrest, ← hitem, rewritten]

theorem redirectMembers_eq_rewritten_iff (hmoved : ∀ r ∈ collected, definitionReference r ≠ r) :
    ∀ members : List (String × Json), redirectMembers collected members =
      mapReferencesInMembers (fun r => if r ∈ collected then definitionReference r else r)
        members ↔
      ∀ r ∈ collected, r ∉ overlookedInMembers collected members
  | [] => by simp [redirectMembers, mapReferencesInMembers, overlookedInMembers]
  | (key, value) :: rest => by
    have hvalue := redirect_eq_rewritten_iff hmoved value
    have hrest := redirectMembers_eq_rewritten_iff hmoved rest
    simp only [redirectMembers_cons, mapReferencesInMembers, overlookedInMembers, List.cons.injEq,
      Prod.mk.injEq, true_and, List.mem_append (t := overlookedInMembers _ _), not_or, forall_and,
      hrest]
    refine and_congr_left fun _ => ?_
    by_cases hkey : key = "$ref"
    · -- a string is rewritten here if it is collected, and below anything else nothing is
      have hbelow := eq_rewritten_iff hmoved value
      cases value with
      | str r =>
        by_cases hr : r ∈ collected
        · simp [hkey, hr, redirectString, mapReferences, asString?, references]
        · have hne : ∀ s ∈ collected, s ≠ r := fun s hs heq => hr (heq ▸ hs)
          simpa [hkey, hr, redirectString, mapReferences, asString?, references] using hne
      | _ => simpa [hkey, redirectString, rewritten, mapReferences, asString?] using hbelow
    · simpa [hkey, redirectString_of_ne, rewritten] using hvalue

end

end Redirection

/-- Changes of a value that change an object member by member, all but `$ref` like values on their
own, and make no object of anything else. -/
structure Memberwise (change : Json → Json) (step : String → Json → Json) : Prop where
  obj : ∀ members : Members, change (.obj members) = .obj (members.mapValues step)
  step : ∀ key value, key ≠ "$ref" → step key value = change value
  other : ∀ value, value.asObject? = none → (change value).asObject? = none

/-- Members none of which is `$ref` are changed like values on their own. -/
theorem Memberwise.mapValues_eq {change : Json → Json} {step : String → Json → Json}
    (h : Memberwise change step) {members : Members} (hkeys : "$ref" ∉ members.keys) :
    members.mapValues step = members.mapValues fun _ value => change value := by
  refine List.map_congr_left fun m hm => ?_
  have hkey : m.1 ≠ "$ref" := fun heq => hkeys (heq ▸ List.mem_map_of_mem hm)
  simp only [h.step m.1 m.2 hkey]

theorem memberwise_mapReferences (f : String → String) :
    Memberwise (mapReferences f) fun key value => redirectString f key (value.mapReferences f) where
  obj members := by
    rw [mapReferences]
    induction members with
    | nil => rfl
    | cons m rest ih =>
      obtain ⟨key, value⟩ := m
      rw [mapReferencesInMembers, Json.obj.inj ih]
      rfl
  step key value hkey := redirectString_of_ne f hkey _
  other value hvalue := by
    cases value <;> simp_all [mapReferences, asObject?]

theorem memberwise_redirect (collected : List String) :
    Memberwise (redirect collected) fun key value => if key = "$ref" then
        match value with
        | .str r => if r ∈ collected then .str (definitionReference r) else value
        | _ => value
      else redirect collected value where
  obj members := by
    rw [redirect]
    induction members with
    | nil => rfl
    | cons m rest ih =>
      obtain ⟨key, value⟩ := m
      rw [redirectMembers_cons, Json.obj.inj ih]
      rfl
  step key value hkey := if_neg hkey
  other value hvalue := by
    cases value <;> simp_all [redirect, asObject?]

/-- What redirection leaves below a member other than `$ref` it leaves in the object. -/
theorem overlooked_subset_of_get? {collected : List String} {members : Members} {key : String}
    {value : Json} (hget : members.get? key = some value) (hkey : key ≠ "$ref") :
    value.overlooked collected ⊆ (Json.obj members).overlooked collected := by
  rw [show (Json.obj members).overlooked collected = overlookedInMembers collected members by
    rw [overlooked]]
  induction members with
  | nil => cases hget
  | cons m rest ih =>
    obtain ⟨k, v⟩ := m
    rw [Members.get?_cons] at hget
    rw [overlookedInMembers]
    by_cases hk : key = k
    · subst hk
      rw [if_pos rfl] at hget
      obtain rfl := Option.some.inj hget
      rw [if_neg hkey]
      exact List.subset_append_left _ _
    · rw [if_neg hk] at hget
      exact List.subset_append_of_subset_right _ (ih hget)

/-- A schema without what stands beside its reference: the reference alone, if there is one. -/
def withoutSiblings (schema : Json) : Json :=
  match schema.reference? with
  | some reference => .obj [("$ref", .str reference)]
  | none => schema

end Json

/-! ## References to component schemas -/

/-- A reference to a component schema, by a name that is written as a single segment. -/
def ComponentReference (reference : String) : Prop :=
  ∃ written : String, '/' ∉ written.toList ∧ reference = "#/components/schemas/" ++ written

namespace ComponentReference
variable {written r s : String}

theorem definitionSegment_eq (written : String) :
    definitionSegment ("#/components/schemas/" ++ written) = written.toList := by
  have hafter : Text.after? "#/components/schemas/".toList
      ("#/components/schemas/" ++ written).toList = some written.toList :=
    Text.after?_eq_some_iff.2 String.toList_append
  rw [definitionSegment, hafter]

/-- A component schema is defined under its name. -/
theorem definitionName_eq (written : String) :
    definitionName ("#/components/schemas/" ++ written) = Pointer.unescape written.toList := by
  rw [definitionName, definitionSegment_eq]

/-- The reference to a component schema is pointed to the definition with the same written name. -/
theorem definitionReference_eq (written : String) :
    definitionReference ("#/components/schemas/" ++ written) = "#/definitions/" ++ written := by
  rw [definitionReference, definitionSegment_eq, String.ofList_toList]

theorem definitionReference_ne (h : ComponentReference r) : definitionReference r ≠ r := by
  obtain ⟨written, -, rfl⟩ := h
  rw [definitionReference_eq]
  intro heq
  have hchars := congrArg String.toList heq
  simp [String.toList_append] at hchars

theorem slash_notMem (h : ComponentReference r) : '/' ∉ definitionSegment r := by
  obtain ⟨written, hslash, rfl⟩ := h
  rwa [definitionSegment_eq]

/-- A component schema is determined by its name. -/
theorem lookup?_congr {doc : Document} (hr : ComponentReference r) (hs : ComponentReference s)
    (hname : definitionName r = definitionName s) : doc.lookup? r = doc.lookup? s := by
  have hsegments : ∀ {t : String}, ComponentReference t →
      Pointer.segments? t = some ["components", "schemas", definitionName t] := by
    intro t ht
    obtain ⟨written, hslash, rfl⟩ := ht
    rw [definitionName_eq]
    exact Pointer.segments?_component hslash String.toList_append
  rw [Document.lookup?, Document.lookup?, hsegments hr, hsegments hs, hname]

end ComponentReference

/-! ## The extracted schema -/

namespace Document
variable {doc : Document} {reached : List String} {schema target : Json} {r : String}

/-- A schema with the definitions of what it reaches, each of them changed. They take the place of
definitions that the schema has itself. -/
def assemble (doc : Document) (change : Json → Json) (schema : Json) (reached : List String) :
    Json :=
  match change schema.withoutSiblings with
  | .obj members =>
    if reached = [] then .obj members
    else .obj (Members.insert members "definitions"
      (.obj ((doc.definitionsOf reached).mapValues fun _ target => change target)))
  | other => other

/-- The names of the definitions are those of what is reached. -/
theorem mem_keys_definitionsOf (doc : Document) (reached : List String) (name : String) :
    name ∈ (doc.definitionsOf reached).keys ↔ ∃ r ∈ reached, definitionName r = name := by
  rw [Members.mem_keys_iff]
  induction reached with
  | nil => simp [definitionsOf]
  | cons r rest ih =>
    rw [definitionsOf, Members.get?_insert]
    by_cases hname : name = definitionName r
    · simp [hname]
    · simp [hname, ih, Ne.symm hname]

/-- Under the name of a component schema its target is defined. -/
theorem get?_definitionsOf (hform : ∀ r ∈ reached, ComponentReference r) (hr : r ∈ reached)
    (hlookup : doc.lookup? r = some target) :
    (doc.definitionsOf reached).get? (definitionName r) = some target := by
  obtain ⟨s, hs, hname, hget⟩ := doc.exists_get?_definitionsOf hr
  rw [hget, (hform s hs).lookup?_congr (hform r hr) hname, hlookup, Option.getD_some]

/-- A change of a bundle is a change of its parts, unless a part is defined under `$ref`. -/
theorem change_bundle {change : Json → Json} {step : String → Json → Json}
    (h : Json.Memberwise change step) (schema : Json)
    (hnames : ∀ r ∈ reached, definitionName r ≠ "$ref") :
    change (doc.bundle schema reached) = doc.assemble change schema reached := by
  have hkeys : "$ref" ∉ (doc.definitionsOf reached).keys := by
    rw [mem_keys_definitionsOf]
    rintro ⟨r, hr, hname⟩
    exact hnames r hr hname
  have hbundle : doc.bundle schema reached = match schema.withoutSiblings with
      | .obj members => if reached = [] then .obj members
        else .obj (Members.insert members "definitions" (.obj (doc.definitionsOf reached)))
      | other => other := by
    rw [bundle, Json.withoutSiblings]
    cases schema.reference? with
    | some r => rfl
    | none => cases schema <;> rfl
  rw [hbundle, assemble]
  cases hprimary : schema.withoutSiblings with
  | obj members =>
    by_cases hreached : reached = []
    · simp only [hreached, if_true, h.obj]
    · simp only [hreached, if_false, h.obj, Members.mapValues_insert]
      rw [h.step "definitions" _ (by decide), h.obj, h.mapValues_eq hkeys]
  | _ =>
    -- what is no object has no definitions, before and after the change
    have hother := h.other schema.withoutSiblings (by rw [hprimary]; rfl)
    rw [hprimary] at hother
    dsimp only
    split
    · rename_i heq
      rw [heq] at hother
      cases hother
    · rfl

/-- Where nothing is reached, a schema stays as it is. -/
theorem bundle_redirect_nil (doc : Document) (schema : Json)
    (h : schema.reference? = none) : (doc.bundle schema []).redirect [] = schema := by
  have hbundle : doc.bundle schema [] = schema := by
    rw [bundle, h]
    cases schema <;> rfl
  have hself : schema.rewritten [] = schema :=
    (Json.mapReferences_eq_self_iff schema).2 (by simp)
  rw [hbundle, (Json.redirect_eq_rewritten_iff (by simp) schema).2 (by simp), hself]

/-- What redirection leaves in what is defined it leaves in the bundle. -/
theorem overlooked_subset_bundle (hform : ∀ r ∈ reached, ComponentReference r)
    (hreach : doc.Reaches schema.schemaReferences r) (hr : r ∈ reached)
    (hname : definitionName r ≠ "$ref") (hlookup : doc.lookup? r = some target) :
    target.overlooked reached ⊆ (doc.bundle schema reached).overlooked reached := by
  obtain ⟨members, hbundle⟩ := doc.exists_bundle_eq hr hreach
  have hget := get?_definitionsOf hform hr hlookup
  rw [hbundle]
  exact List.Subset.trans (Json.overlooked_subset_of_get? hget hname)
    (Json.overlooked_subset_of_get? (Members.get?_insert_self _ _ _) (by decide))

/-- A redirected reference to a component schema leads to the redirected schema. -/
theorem at?_redirect_bundle (hform : ∀ r ∈ reached, ComponentReference r)
    (hresolves : ∀ r ∈ reached, ∃ target, doc.lookup? r = some target)
    (hreach : doc.Reaches schema.schemaReferences r) (hr : r ∈ reached)
    (hname : definitionName r ≠ "$ref") (hlookup : doc.lookup? r = some target) :
    ((doc.bundle schema reached).redirect reached).at? (definitionReference r) =
      some (target.redirect reached) := by
  obtain ⟨s, hs, hsame, target', htarget', hat⟩ :=
    at?_definitionReference hr ⟨(hform r hr).slash_notMem, hname⟩ hreach hresolves
  -- references with one name are to one component schema
  rw [(hform s hs).lookup?_congr (hform r hr) hsame, hlookup] at htarget'
  obtain rfl := Option.some.inj htarget'
  exact hat

/-- Redirection rewrites a bundle in full exactly when it leaves no reference that is collected. -/
theorem redirect_bundle_eq_assemble_iff (hform : ∀ r ∈ reached, ComponentReference r)
    (schema : Json) (hnames : ∀ r ∈ reached, definitionName r ≠ "$ref") :
    (doc.bundle schema reached).redirect reached =
        doc.assemble (Json.rewritten reached) schema reached ↔
      ∀ r ∈ reached, r ∉ (doc.bundle schema reached).overlooked reached := by
  have hrewritten : (doc.bundle schema reached).rewritten reached =
      doc.assemble (Json.rewritten reached) schema reached :=
    change_bundle (Json.memberwise_mapReferences _) schema hnames
  rw [← hrewritten]
  exact Json.redirect_eq_rewritten_iff (fun r hr => (hform r hr).definitionReference_ne) _

/-- What an extracted schema is, where all that the schema reaches are references to component
schemas that resolve. Extraction succeeds. The definitions have exactly the names of the component
schemas that are reached, in their plain form, and under each name stands the schema; the references
point to the definitions with the same written name. A redirected reference leads to the redirected
schema that it has stood for, unless this is called `$ref`. If none is, then the extracted schema is
the schema, or just its reference, with its definitions and with all references that are collected
rewritten, exactly when redirection leaves none of them; and then every rewritten reference leads to
the rewritten schema that it has stood for. -/
theorem components_of_extractSchema (doc : Document) (schema : Json)
    (h : ∀ r, doc.Reaches schema.schemaReferences r →
      ComponentReference r ∧ ∃ target, doc.lookup? r = some target) :
    ∃ (c : Collected) (w : Json),
      doc.collect schema = .ok c ∧ doc.extractSchema (some schema) = .ok w.compact ∧
      w = (doc.bundle schema c.references).redirect c.references ∧
      (c.references = [] → w = schema) ∧
      c.references.Nodup ∧ (∀ r, r ∈ c.references ↔ doc.Reaches schema.schemaReferences r) ∧
      (∀ name, name ∈ (doc.definitionsOf c.references).keys ↔
        ∃ r ∈ c.references, definitionName r = name) ∧
      (∀ r ∈ c.references,
        (doc.definitionsOf c.references).get? (definitionName r) = doc.lookup? r) ∧
      (∀ written, "#/components/schemas/" ++ written ∈ c.references →
        definitionName ("#/components/schemas/" ++ written) = Pointer.unescape written.toList ∧
        definitionReference ("#/components/schemas/" ++ written) = "#/definitions/" ++ written) ∧
      (∀ r ∈ c.references, definitionName r ≠ "$ref" → ∀ target, doc.lookup? r = some target →
        w.at? (definitionReference r) = some (target.redirect c.references)) ∧
      ((∀ r ∈ c.references, definitionName r ≠ "$ref") →
        w = doc.assemble (Json.redirect c.references) schema c.references ∧
        (w = doc.assemble (Json.rewritten c.references) schema c.references ↔
          ∀ r ∈ c.references, r ∉ (doc.bundle schema c.references).overlooked c.references) ∧
        (w = doc.assemble (Json.rewritten c.references) schema c.references →
          ∀ r ∈ c.references, ∀ target, doc.lookup? r = some target →
            w.at? (definitionReference r) = some (target.rewritten c.references))) := by
  have hresolves : ∀ r, doc.Reaches schema.schemaReferences r → doc.lookup? r ≠ none := by
    intro r hr
    obtain ⟨-, target, htarget⟩ := h r hr
    simp [htarget]
  obtain ⟨c, hc⟩ := exists_collect_eq_ok hresolves
  obtain ⟨hnodup, hreaches, hlookups, -⟩ := collect_spec hc
  have hform : ∀ r ∈ c.references, ComponentReference r := fun r hr => (h r ((hreaches r).1 hr)).1
  have hleads : ∀ r ∈ c.references, definitionName r ≠ "$ref" →
      ∀ target, doc.lookup? r = some target →
        ((doc.bundle schema c.references).redirect c.references).at? (definitionReference r) =
          some (target.redirect c.references) := by
    intro r hr hname target htarget
    exact at?_redirect_bundle hform hlookups ((hreaches r).1 hr) hr hname htarget
  refine ⟨c, _, hc, ?runs, rfl, ?unchanged, hnodup, hreaches,
    doc.mem_keys_definitionsOf c.references, ?defined, ?written, hleads, ?exact⟩
  case runs =>
    rw [extractSchema, selfContained_eq_ok_iff.2 ⟨c, hc, rfl⟩, map_ok]
  case unchanged =>
    intro hnil
    rw [hnil]
    refine doc.bundle_redirect_nil schema ?_
    cases hown : schema.reference? with
    | none => rfl
    | some r =>
      have hr := (hreaches r).2 (.start (by simp [Json.schemaReferences_of_reference? hown]))
      rw [hnil] at hr
      cases hr
  case defined =>
    intro r hr
    obtain ⟨target, htarget⟩ := hlookups r hr
    rw [get?_definitionsOf hform hr htarget, htarget]
  case written =>
    intro written _
    exact ⟨ComponentReference.definitionName_eq written,
      ComponentReference.definitionReference_eq written⟩
  case exact =>
    intro hnames
    have hexact : (doc.bundle schema c.references).redirect c.references =
        doc.assemble (Json.rewritten c.references) schema c.references ↔ _ :=
      redirect_bundle_eq_assemble_iff hform schema hnames
    refine ⟨change_bundle (Json.memberwise_redirect _) schema hnames, hexact, ?_⟩
    intro heq r hr target htarget
    have hnone : ∀ s ∈ c.references, s ∉ target.overlooked c.references := fun s hs hmem =>
      hexact.1 heq s hs (overlooked_subset_bundle hform ((hreaches r).1 hr) hr (hnames r hr)
        htarget hmem)
    have hmoved : ∀ s ∈ c.references, definitionReference s ≠ s :=
      fun s hs => (hform s hs).definitionReference_ne
    rw [hleads r hr (hnames r hr) target htarget,
      (Json.redirect_eq_rewritten_iff hmoved target).2 hnone]

end Document

/-- A schema that refers to itself through a component schema is extracted in full. -/
theorem components_of_extractSchema_tree :
    ∃ (c : Collected) (w : Json),
      (Document.mk treeMembers "3.0.0").collect
        (.obj [("$ref", .str "#/components/schemas/Tree")]) = .ok c ∧
      c.references = ["#/components/schemas/Name", "#/components/schemas/Tree"] ∧
      (Document.mk treeMembers "3.0.0").extractSchema
        (some (.obj [("$ref", .str "#/components/schemas/Tree")])) = .ok w.compact ∧
      w = (Document.mk treeMembers "3.0.0").assemble (Json.rewritten c.references)
        (.obj [("$ref", .str "#/components/schemas/Tree")]) c.references ∧
      ∀ r ∈ c.references, ∀ target, (Document.mk treeMembers "3.0.0").lookup? r = some target →
        w.at? (definitionReference r) = some (target.rewritten c.references) := by
  have hcollect : ((Document.mk treeMembers "3.0.0").collect
      (.obj [("$ref", .str "#/components/schemas/Tree")])).toOption.map (·.references) =
        some ["#/components/schemas/Name", "#/components/schemas/Tree"] := by
    decide +kernel
  obtain ⟨c, hc, hreferences⟩ := Option.map_eq_some_iff.1 hcollect
  rw [toOption_eq_some_iff] at hc
  obtain ⟨-, hreaches, hlookups, -⟩ := Document.collect_spec hc
  have hform : ∀ r ∈ c.references, ComponentReference r := by
    simp only [hreferences, List.forall_mem_cons, List.not_mem_nil, IsEmpty.forall_iff,
      implies_true, and_true]
    exact ⟨⟨"Name", by decide, by decide⟩, ⟨"Tree", by decide, by decide⟩⟩
  obtain ⟨c', w, hc', hrun, -, -, -, -, -, -, -, -, hexact⟩ :=
    Document.components_of_extractSchema (Document.mk treeMembers "3.0.0")
      (.obj [("$ref", .str "#/components/schemas/Tree")]) fun r hr =>
        ⟨hform r ((hreaches r).2 hr), hlookups r ((hreaches r).2 hr)⟩
  obtain rfl := Except.ok.inj (hc'.symm.trans hc)
  obtain ⟨-, hiff, hleads⟩ := hexact (by rw [hreferences]; decide +kernel)
  have hw := hiff.2 (by rw [hreferences]; decide +kernel)
  exact ⟨c', w, hc, hreferences, hrun, hw, hleads hw⟩

/-- A schema of a property that is called `$ref`. -/
def linkSchema : Json :=
  .obj [("properties", .obj [("$ref", .obj [("$ref", .str "#/components/schemas/Name")])])]

/-- A property called `$ref` is visited and its reference is collected, but it is not rewritten. -/
theorem exists_unrewritten_reference :
    (∀ r, (Document.mk treeMembers "3.0.0").Reaches linkSchema.schemaReferences r →
      ComponentReference r ∧
        ∃ target, (Document.mk treeMembers "3.0.0").lookup? r = some target) ∧
    ∃ (c : Collected) (w : Json),
      (Document.mk treeMembers "3.0.0").collect linkSchema = .ok c ∧
      c.references = ["#/components/schemas/Name"] ∧
      (Document.mk treeMembers "3.0.0").extractSchema (some linkSchema) = .ok w.compact ∧
      "#/components/schemas/Name" ∈ w.references ∧
      w ≠ (Document.mk treeMembers "3.0.0").assemble (Json.rewritten c.references) linkSchema
        c.references := by
  have hcollect : ((Document.mk treeMembers "3.0.0").collect linkSchema).toOption.map
      (·.references) = some ["#/components/schemas/Name"] := by
    decide +kernel
  obtain ⟨c, hc, hreferences⟩ := Option.map_eq_some_iff.1 hcollect
  rw [toOption_eq_some_iff] at hc
  obtain ⟨-, hreaches, hlookups, -⟩ := Document.collect_spec hc
  have hrun := congrArg (Except.map Json.compact) (Document.selfContained_eq_ok_iff.2 ⟨c, hc, rfl⟩)
  have hleft : "#/components/schemas/Name" ∈ (((Document.mk treeMembers "3.0.0").bundle
      linkSchema c.references).redirect c.references).references := by
    rw [hreferences]
    decide +kernel
  have hexpected : "#/components/schemas/Name" ∉ ((Document.mk treeMembers "3.0.0").assemble
      (Json.rewritten c.references) linkSchema c.references).references := by
    rw [hreferences]
    decide +kernel
  refine ⟨fun r hr => ?_, c, _, hc, hreferences, hrun, hleft, fun heq => hexpected (heq ▸ hleft)⟩
  have hmem := (hreaches r).2 hr
  have hname : r = "#/components/schemas/Name" := by
    simpa [hreferences] using hmem
  exact ⟨⟨"Name", by decide, hname⟩, hlookups r hmem⟩

/-- The references of a component schema that is called `$ref` are left in the same way. -/
example : ((Document.mk [("components", .obj [("schemas", .obj
      [("$ref", .obj [("items", .obj [("$ref", .str "#/components/schemas/Name")])]),
        ("Name", .obj [("type", .str "string")])])])] "3.0.0").selfContained
      (.obj [("not", .obj [("$ref", .str "#/components/schemas/$ref")])])).toOption.map
        Json.references = some ["#/components/schemas/Name", "#/definitions/$ref"] := by
  decide +kernel

end ApiGateway
