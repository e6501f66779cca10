import ApiGateway.Entity.Plugin
import ApiGateway.Proofs.Plugin.Declared
import ApiGateway.Proofs.Document.Parameters
import ApiGateway.Proofs.Document.Pointer
import ApiGateway.Proofs.Document.References
import ApiGateway.Proofs.Outcome
import ApiGateway.Document.Operation
import ApiGateway.Security.OpenIdConnect

/-!
# Documents that agree but for their paths

The paths of a document are listed in one place, and everything else looks at other parts or follows
references. A reference leads into the paths only if it says so in its first segment. So documents
that agree but for their paths, and in which no reference leads into the paths, are read alike.

## Main definitions

* `Json.Detached`: a value without references into the paths.
* `Members.Agree`: objects that agree but for one key.
* `Document.Agree`: documents that agree but for their paths.

## Main results

* `Document.Agree.lookup?_eq`, `Document.Agree.resolve_eq`: references lead to the same values.
* `Document.Agree.parameters_eq`, `Document.Agree.requestBody_eq`: operations take the same.
* `Document.Agree.openIdConnect_eq`: requirements give the same plugin.
-/
namespace ApiGateway

/-! ## Pointers into the paths -/

namespace Pointer

theorem eq_of_unescapeSlash {written segment : List Char} (h : unescapeSlash written = segment)
    (hslash : '/' ∉ segment) : written = segment := by
  subst h
  fun_induction unescapeSlash written with
  | case1 rest ih => simp at hslash
  | case2 c rest hplain ih =>
    rw [← ih fun hmem => hslash (List.mem_cons_of_mem _ hmem)]
  | case3 => rfl

theorem eq_of_unescapeTilde {written segment : List Char} (h : unescapeTilde written = segment)
    (htilde : '~' ∉ segment) : written = segment := by
  subst h
  fun_induction unescapeTilde written with
  | case1 rest ih => simp at htilde
  | case2 c rest hplain ih =>
    rw [← ih fun hmem => htilde (List.mem_cons_of_mem _ hmem)]
  | case3 => rfl

/-- A segment without slashes and tildes is written as it is. -/
theorem eq_of_unescape {written : List Char} {segment : String} (h : unescape written = segment)
    (hslash : '/' ∉ segment.toList) (htilde : '~' ∉ segment.toList) : written = segment.toList := by
  subst h
  simp only [unescape, String.toList_ofList] at hslash htilde ⊢
  have hwritten := eq_of_unescapeTilde rfl htilde
  rw [← hwritten] at hslash ⊢
  exact eq_of_unescapeSlash rfl hslash

/-- A pointer starts with its first segment. -/
theorem prefix_of_segments {pointer : List Char} {segment : String} {rest : List String}
    (h : segments pointer = segment :: rest) (hslash : '/' ∉ segment.toList)
    (htilde : '~' ∉ segment.toList) : segment.toList <+: pointer := by
  obtain ⟨written, more, hsplit, hwritten, -⟩ := List.map_eq_cons_iff.1 h
  have hjoined : ['/'].intercalate (pointer.splitOn '/') = pointer := List.intercalate_splitOn '/'
  rw [← eq_of_unescape hwritten hslash htilde, ← hjoined, hsplit]
  cases more with
  | nil => simp [List.intercalate]
  | cons next more =>
    rw [List.intercalate_cons_cons, List.append_assoc]
    exact List.prefix_append _ _

end Pointer

/-- A reference that leads into the paths of its document. -/
def IntoPaths (reference : String) : Prop := "#/paths".toList <+: reference.toList

instance (reference : String) : Decidable (IntoPaths reference) :=
  inferInstanceAs (Decidable (_ <+: _))

/-- The first segment of a reference that does not lead into the paths is another one. -/
theorem Pointer.exists_segments {reference : String} {segments : List String}
    (h : Pointer.segments? reference = some segments) (hout : ¬ IntoPaths reference) :
    ∃ segment rest, segments = segment :: rest ∧ segment ≠ "paths" := by
  obtain ⟨pointer, hpointer, rfl⟩ := Option.map_eq_some_iff.1 h
  rw [Text.after?_eq_some_iff] at hpointer
  cases hsegments : Pointer.segments pointer with
  | nil => exact absurd hsegments (Pointer.segments_ne_nil pointer)
  | cons segment rest =>
    refine ⟨segment, rest, rfl, ?_⟩
    rintro rfl
    obtain ⟨more, hmore⟩ := Pointer.prefix_of_segments hsegments (by decide) (by decide)
    refine hout ⟨more, ?_⟩
    rw [hpointer, ← hmore, ← List.append_assoc]
    rfl

/-! ## Values without references into the paths -/

/-- No reference in a value leads into the paths. -/
def Json.Detached (value : Json) : Prop := ∀ r ∈ value.references, ¬ IntoPaths r

/-- No reference in a document leads into its paths. -/
def Document.Detached (doc : Document) : Prop := ∀ r ∈ doc.references, ¬ IntoPaths r

instance (doc : Document) : Decidable doc.Detached :=
  inferInstanceAs (Decidable (∀ r ∈ doc.references, ¬ IntoPaths r))

/-- The schema of a parameter refers to nothing in the paths. -/
def Parameter.Detached (p : Parameter) : Prop := ∀ schema, p.schema = some schema → schema.Detached

/-- No schema of a body refers to anything in the paths. -/
def RequestBody.Detached (body : RequestBody) : Prop :=
  ∀ entry ∈ body.content, ∀ schema, entry.2 = some schema → schema.Detached

section Detached
variable {value : Json} {members : Members} {key : String}

theorem Json.Detached.of_member (h : (Json.obj members).Detached) (hmember : (key, value) ∈ members) :
    value.Detached :=
  fun r hr => h r (Json.references_subset_of_mem_children (List.mem_map_of_mem hmember) hr)

theorem Json.Detached.of_get? (h : (Json.obj members).Detached)
    (hget : members.get? key = some value) : value.Detached := h.of_member (Members.mem_of_get? hget)

theorem Json.Detached.of_mem {items : List Json} (h : (Json.arr items).Detached)
    (hitem : value ∈ items) : value.Detached :=
  fun r hr => h r (Json.references_subset_of_mem_children hitem hr)

/-- The value at the end of a chain of references has no reference into the paths. -/
theorem Document.Detached.of_resolve {doc : Document} (hdoc : doc.Detached) (h : value.Detached)
    {target : Json} (htarget : doc.resolve value = .ok target) : target.Detached := by
  unfold Document.resolve at htarget
  generalize maxHops = hops at htarget
  induction hops generalizing value with
  | zero => cases htarget
  | succ hops ih =>
    simp only [Document.resolveWithin] at htarget
    split at htarget
    · obtain rfl := Except.ok.inj htarget
      exact h
    · split at htarget
      · cases htarget
      · rename_i reference _ next hnext
        exact ih (fun r hr => hdoc r (Document.references_subset_of_lookup? hnext hr)) htarget

theorem Json.Detached.contentSchema (h : (Json.obj members).Detached) {schema : Json}
    (hschema : contentSchema? members = some schema) : schema.Detached := by
  unfold contentSchema? at hschema
  split at hschema
  · rename_i mediaType media rest hcontent
    have hmedia : (Json.obj ((mediaType, media) :: rest)).Detached :=
      h.of_get? (Members.object?_eq_some_iff.1 hcontent)
    cases media with
    | obj inner => exact (hmedia.of_member List.mem_cons_self).of_get? hschema
    | _ => cases hschema
  · cases hschema

/-- A parameter of a detached object is detached. -/
theorem Parameter.Detached.ofObject? (h : (Json.obj members).Detached) {p : Parameter}
    (hp : Parameter.ofObject? members = some p) : p.Detached := by
  intro schema hschema
  unfold Parameter.ofObject? at hp
  split at hp
  · obtain rfl := Option.some.inj hp
    cases hown : members.get? "schema" with
    | some own =>
      obtain rfl : own = schema := by simpa [hown] using hschema
      exact h.of_get? hown
    | none => exact h.contentSchema (by simpa [hown] using hschema)
  · cases hp

end Detached

/-! ## Agreement -/

/-- Objects with the same keys, and with the same values but for one key. -/
structure Members.Agree (key : String) (members others : Members) : Prop where
  keys_eq : members.keys = others.keys
  get?_eq : ∀ other, other ≠ key → members.get? other = others.get? other

theorem Members.Agree.refl (key : String) (members : Members) : members.Agree key members :=
  ⟨rfl, fun _ _ => rfl⟩

/-- Documents that agree but for their paths, and refer to nothing in them. -/
structure Document.Agree (doc doc' : Document) : Prop where
  root : doc.root.Agree "paths" doc'.root
  detached : doc.Detached
  detached' : doc'.Detached

namespace Document.Agree
variable {doc doc' : Document} (h : doc.Agree doc')
include h

/-- References that stay out of the paths lead to the same values. -/
theorem lookup?_eq {reference : String} (hout : ¬ IntoPaths reference) :
    doc.lookup? reference = doc'.lookup? reference := by
  unfold lookup?
  cases hsegments : Pointer.segments? reference with
  | none => rfl
  | some segments =>
    obtain ⟨segment, rest, rfl, hne⟩ := Pointer.exists_segments hsegments hout
    have hroot : ∀ d : Document, (some (segment :: rest)).bind (Pointer.descend? (.obj d.root)) =
        (d.root.get? segment).bind fun value => Pointer.descend? value rest := fun _ => rfl
    rw [hroot, hroot, h.root.get?_eq segment hne]

/-- Chains of references end in the same values. -/
theorem resolve_eq {value : Json} (hvalue : value.Detached) :
    doc.resolve value = doc'.resolve value := by
  unfold resolve
  generalize maxHops = hops
  induction hops generalizing value with
  | zero => rfl
  | succ hops ih =>
    unfold resolveWithin
    cases hreference : value.reference? with
    | none => rfl
    | some reference =>
      dsimp only
      rw [h.lookup?_eq (hvalue reference (Json.mem_references_of_reference? hreference))]
      cases hnext : doc'.lookup? reference with
      | none => rfl
      | some next => exact ih fun r hr => h.detached' r (references_subset_of_lookup? hnext hr)

/-! ### Operations -/

theorem listedParameters_eq {scope : Members} (hscope : (Json.obj scope).Detached) :
    doc.listedParameters scope = doc'.listedParameters scope := by
  unfold listedParameters
  cases hlist : scope.list? "parameters" with
  | none => rfl
  | some items =>
    have hitems := hscope.of_get? (Members.list?_eq_some_iff.1 hlist)
    rw [Option.getD_some, mapM_congr fun item hitem => h.resolve_eq (hitems.of_mem hitem)]

/-- An operation has the same parameters. -/
theorem parameters_eq {item operation : Members} (hitem : (Json.obj item).Detached)
    (hoperation : (Json.obj operation).Detached) :
    doc.parameters item operation = doc'.parameters item operation := by
  rw [parameters, parameters, h.listedParameters_eq hitem, h.listedParameters_eq hoperation]

/-- An operation has the same request body. -/
theorem requestBody_eq {operation : Members} (hoperation : (Json.obj operation).Detached) :
    doc.requestBody operation = doc'.requestBody operation := by
  unfold requestBody
  cases hraw : operation.get? "requestBody" with
  | none => rfl
  | some raw =>
    dsimp only
    rw [h.resolve_eq (hoperation.of_get? hraw)]

/-! ### Directives and requirements -/

theorem dereference_eq (value : Members) :
    Directive.dereference doc value = Directive.dereference doc' value := by
  have hcomponents : Directive.components? doc = Directive.components? doc' := by
    rw [Directive.components?, Directive.components?, h.root.get?_eq "components" (by decide)]
  rw [Directive.dereference, Directive.dereference, hcomponents]

/-- A directive stands for the same object. -/
theorem object?_eq {scope scope' : Members} {key : String}
    (hkey : scope.get? key = scope'.get? key) :
    Directive.object? doc scope key = Directive.object? doc' scope' key := by
  unfold Directive.object?
  rw [hkey]
  split
  · rfl
  · rw [h.dereference_eq]
  · rfl

/-- Scopes declare the same plugins. -/
theorem build_eq {scope scope' : Members} (hscope : scope.Agree "paths" scope') (stamp : Stamp)
    (base : String) (inherited : List Members) :
    Plugin.build doc stamp base scope inherited = Plugin.build doc' stamp base scope' inherited := by
  refine Plugin.build_congr hscope.keys_eq ?_ stamp base inherited
  intro key name hmem
  have hne : key ≠ "paths" := by
    rintro rfl
    obtain ⟨-, hkey⟩ := Plugin.mem_directives.1 hmem
    simpa [Directive.pluginStart] using congrArg (fun text => text.toList.head?) hkey
  exact h.object?_eq (hscope.get?_eq key hne)

theorem securityScheme_eq (name : String) : doc.securityScheme name = doc'.securityScheme name := by
  have hout : ¬ IntoPaths ("#/components/securitySchemes/" ++ Pointer.escape name) := by
    rintro ⟨rest, hrest⟩
    simp at hrest
  unfold securityScheme
  dsimp only
  rw [h.lookup?_eq hout]
  cases hraw : doc'.lookup? ("#/components/securitySchemes/" ++ Pointer.escape name) with
  | none => rfl
  | some raw =>
    dsimp only
    rw [h.resolve_eq fun r hr => h.detached' r (references_subset_of_lookup? hraw hr)]

/-- Requirements give the same plugin. -/
theorem openIdConnect_eq (ignoreErrors : Bool) (requirements : Option Json)
    (inherited : Option Members) :
    openIdConnect doc ignoreErrors requirements inherited =
      openIdConnect doc' ignoreErrors requirements inherited := by
  have hplugin : ∀ scheme required, openIdPlugin doc scheme required =
      openIdPlugin doc' scheme required := by
    intro scheme required
    rw [openIdPlugin, openIdPlugin, h.object?_eq rfl]
  unfold openIdConnect
  cases SecurityDemand.ofRequirements requirements with
  | inherit => rfl
  | unsupported fault => rfl
  | scheme name required => simp only [h.securityScheme_eq, hplugin]

end Document.Agree

/-! ## What operations take -/

section Operations
variable {doc : Document}

theorem Document.Detached.of_listedParameters (hdoc : doc.Detached) {scope : Members}
    (h : (Json.obj scope).Detached) {parameters : List Parameter}
    (hparameters : doc.listedParameters scope = .ok parameters) :
    ∀ p ∈ parameters, p.Detached := by
  unfold listedParameters at hparameters
  obtain ⟨entries, hentries, hparameters⟩ := bind_eq_ok_iff.1 hparameters
  obtain rfl := Except.ok.inj hparameters
  intro p hp
  obtain ⟨entry, hentry, hp⟩ := List.mem_filterMap.1 hp
  obtain ⟨raw, hraw, hresolved⟩ := exists_of_mem_forall₂ (forall₂_of_mapM_eq_ok hentries) entry hentry
  have hdetached : raw.Detached := by
    cases hlist : scope.list? "parameters" with
    | none => simp [hlist] at hraw
    | some items =>
      rw [hlist, Option.getD_some] at hraw
      exact (h.of_get? (Members.list?_eq_some_iff.1 hlist)).of_mem hraw
  have hentry := hdoc.of_resolve hdetached hresolved
  cases entry with
  | obj members => exact .ofObject? hentry hp
  | _ => cases hp

/-- The parameters of an operation refer to nothing in the paths. -/
theorem Document.Detached.of_parameters (hdoc : doc.Detached) {item operation : Members}
    (hitem : (Json.obj item).Detached) (hoperation : (Json.obj operation).Detached)
    {parameters : List Parameter} (h : doc.parameters item operation = .ok parameters) :
    ∀ p ∈ parameters, p.Detached := by
  unfold Document.parameters at h
  obtain ⟨shared, hshared, h⟩ := bind_eq_ok_iff.1 h
  obtain ⟨own, hown, h⟩ := bind_eq_ok_iff.1 h
  obtain rfl := Except.ok.inj h
  intro p hp
  obtain hp | hp := Parameter.mem_foldl_override hp
  · exact hdoc.of_listedParameters hoperation hown p hp
  · exact hdoc.of_listedParameters hitem hshared p hp

/-- The request body of an operation refers to nothing in the paths. -/
theorem Document.Detached.of_requestBody (hdoc : doc.Detached) {operation : Members}
    (hoperation : (Json.obj operation).Detached) {body : RequestBody}
    (h : doc.requestBody operation = .ok (some body)) : body.Detached := by
  unfold Document.requestBody at h
  split at h
  · cases h
  · rename_i raw hraw
    obtain ⟨resolved, hresolved, h⟩ := bind_eq_ok_iff.1 h
    have hdetached := hdoc.of_resolve (hoperation.of_get? hraw) hresolved
    split at h
    · rename_i object
      split at h
      · rename_i content hcontent
        obtain rfl := Option.some.inj (Except.ok.inj h)
        intro entry hentry schema hschema
        obtain ⟨⟨mediaType, media⟩, hmedia, rfl⟩ := List.mem_map.1 hentry
        have hinner := hdetached.of_get? (Members.object?_eq_some_iff.1 hcontent)
        cases media with
        | obj members => exact (hinner.of_member hmedia).of_get? hschema
        | _ => cases hschema
      · cases h
    · cases h

end Operations

end ApiGateway
