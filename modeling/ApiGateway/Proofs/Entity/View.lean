import ApiGateway.Compilation.Compile
import ApiGateway.Proofs.Json.Members
import ApiGateway.Proofs.Outcome
import ApiGateway.Proofs.Plugin.Overlay

/-!
# Entities without their marks

Two runs on one document that differ in their tags write other tags on every entity, and of two
runs one may write identifiers where the other does not. Nothing else on an entity depends on these
marks: when objects agree but for one, so do the objects that are made from them. The same holds of
two runs that differ in the base name, for objects that are looked at without marks and the fields
that are made from it.

## Main definitions

* `Members.hide`: an object with the values of some keys taken out.
* `Mark`: the two fields that a stamp writes.
* `View`: what is looked at, which is all but one mark, or neither marks nor what base names make.
* `View.Alike`: stamps that write the same, as far as it is looked at.

## Main results

* `Plugin.map_hide_build`, `map_hide_requestValidator`, `View.map_entity_service`,
  `View.map_entity_expandHeaders`: each maker of entities, seen under two stamps.
-/
namespace ApiGateway

namespace Members
variable {members others : Members} {keys : List String} {key : String}

/-- An object with the values of some keys taken out. The keys stay, so that what is put in later
finds the same place. An identifier, which is not always there, is put in to be taken out. -/
def hide (keys : List String) (members : Members) : Members :=
  (if "id" ∈ keys then members.insert "id" .null else members).mapValues fun key value =>
    if key ∈ keys then .null else value

theorem get?_hide (h : key ∉ keys) (members : Members) :
    (members.hide keys).get? key = members.get? key := by
  simp only [hide, get?_mapValues, h, if_false, Option.map_id']
  split
  · rename_i hid
    have hne : key ≠ "id" := fun heq => h (heq ▸ hid)
    exact (get?_insert ..).trans (if_neg hne)
  · rfl

theorem has_hide (hne : key ≠ "id") (members : Members) :
    (members.hide keys).has key = members.has key := by
  rw [hide, has, get?_mapValues, Option.isSome_map]
  split
  · rw [get?_insert, if_neg hne, has]
  · rfl

/-- Objects that agree but for some keys have the same values under the others. -/
theorem get?_eq_of_hide (hkey : key ∉ keys) (h : members.hide keys = others.hide keys) :
    members.get? key = others.get? key := by
  rw [← get?_hide hkey members, h, get?_hide hkey]

theorem string?_eq_of_hide (hkey : key ∉ keys) (h : members.hide keys = others.hide keys) :
    members.string? key = others.string? key := by
  rw [string?, get?_eq_of_hide hkey h, string?]

theorem object?_eq_of_hide (hkey : key ∉ keys) (h : members.hide keys = others.hide keys) :
    members.object? key = others.object? key := by
  rw [object?, get?_eq_of_hide hkey h, object?]

theorem has_eq_of_hide (hne : key ≠ "id") (h : members.hide keys = others.hide keys) :
    members.has key = others.has key := by
  have hothers : (others.hide keys).has key = others.has key := has_hide hne others
  rw [← hothers, ← h, has_hide hne]

/-- What is put in may be taken out before or after. -/
theorem hide_insert (members : Members) {key : String} (hne : key ≠ "id") (value : Json) :
    (members.insert key value).hide keys =
      (members.hide keys).insert key (if key ∈ keys then .null else value) := by
  unfold hide
  split
  · rw [insert_comm members hne, mapValues_insert]
  · rw [mapValues_insert]

/-- Where identifiers are taken out it does not matter which one is put in. -/
theorem hide_insert_id (hid : "id" ∈ keys) (members : Members) (value : Json) :
    (members.insert "id" value).hide keys = members.hide keys := by
  simp only [hide, hid, if_true, insert_insert_self]

/-- Objects agree when the same is put into both, or a value of a key that is taken out. -/
theorem hide_insert_congr {value value' : Json} (h : members.hide keys = others.hide keys)
    (hvalue : key ∉ keys → value = value') :
    (members.insert key value).hide keys = (others.insert key value').hide keys := by
  by_cases hid : key = "id" ∧ "id" ∈ keys
  · obtain ⟨rfl, hmem⟩ := hid
    rw [hide_insert_id hmem, hide_insert_id hmem, h]
  · by_cases hne : key = "id"
    · subst hne
      have hnot : "id" ∉ keys := fun hmem => hid ⟨rfl, hmem⟩
      simp only [hide, hnot, if_false, mapValues_insert] at h ⊢
      rw [h, hvalue hnot]
    · rw [hide_insert _ hne, hide_insert _ hne, h]
      split
      · rfl
      · rename_i hnot
        rw [hvalue hnot]

theorem hide_insertNew_congr (key : String) (hne : key ≠ "id") (value : Json)
    (h : members.hide keys = others.hide keys) :
    (members.insertNew key value).hide keys = (others.insertNew key value).hide keys := by
  unfold insertNew
  rw [has_eq_of_hide hne h]
  split
  · exact h
  · exact hide_insert_congr h fun _ => rfl

/-- Values are replaced before or after others are taken out. -/
theorem hide_mapValues {f : String → Json → Json} (hf : ∀ key ∈ keys, f key .null = .null)
    (members : Members) : (members.mapValues f).hide keys = (members.hide keys).mapValues f := by
  have hvalues : ∀ m : Members, ((m.mapValues f).mapValues fun key value =>
      if key ∈ keys then .null else value) =
        (m.mapValues fun key value => if key ∈ keys then .null else value).mapValues f := by
    intro m
    simp only [mapValues_mapValues]
    congr 1
    funext key value
    split
    · rename_i hkey
      rw [hf key hkey]
    · rfl
  unfold hide
  split
  · rename_i hid
    rw [← hvalues, mapValues_insert f, hf "id" hid]
  · exact hvalues members

/-- What is erased need not be taken out before. -/
theorem erase_hide (key : String) (members : Members) :
    (members.hide [key]).erase key = members.erase key := by
  have hvalues : ∀ m : Members,
      (m.mapValues fun k value => if k ∈ [key] then .null else value).erase key = m.erase key := by
    intro m
    induction m with
    | nil => rfl
    | cons m rest ih =>
      obtain ⟨k, v⟩ := m
      simp only [mapValues, List.map_cons, erase] at ih ⊢
      split
      · exact ih
      · rw [ih]
        rename_i hne
        simp [Ne.symm hne]
  rw [hide, hvalues]
  split
  · rename_i hid
    rw [← List.mem_singleton.1 hid, erase_insert_self]
  · rfl

end Members

/-! ## What is looked at -/

/-- A field that a stamp writes. -/
inductive Mark where
  | tags
  | id

namespace Mark

/-- The key of a mark. -/
def key : Mark → String
  | tags => "tags"
  | id => "id"

/-- A key that is that of no mark. -/
theorem notMem_key {mark : Mark} {key : String} (htags : key ≠ "tags") (hid : key ≠ "id") :
    key ∉ [mark.key] := by
  cases mark
  · simpa [Mark.key] using htags
  · simpa [Mark.key] using hid

end Mark

/-- What is looked at in a run: all but one mark, or neither marks nor what is made from base
names. -/
inductive View where
  | without (mark : Mark)
  | nameless

namespace View
variable {view : View} {base other : String}

/-- All but tags. -/
abbrev tagless : View := without .tags

/-- All but identifiers. -/
abbrev anonymous : View := without .id

/-- The keys of plugins that are not looked at. -/
def pluginKeys : View → List String
  | without mark => [mark.key]
  | nameless => ["tags", "id"]

/-- The keys of services, upstreams and routes that are not looked at. -/
def entityKeys : View → List String
  | without mark => [mark.key]
  | nameless => ["tags", "id", "name", "host"]

/-- A base name, as far as it is looked at. -/
def shown : View → String → String
  | without _, name => name
  | nameless, _ => ""

/-- A key of plugins that is looked at. -/
theorem notMem_pluginKeys (view : View) {key : String} (htags : key ≠ "tags") (hid : key ≠ "id") :
    key ∉ view.pluginKeys := by
  cases view with
  | without mark => exact Mark.notMem_key htags hid
  | nameless => simp [pluginKeys, htags, hid]

/-- A key of services, upstreams and routes that is looked at. -/
theorem notMem_entityKeys (view : View) {key : String} (htags : key ≠ "tags") (hid : key ≠ "id")
    (hname : key ≠ "name") (hhost : key ≠ "host") : key ∉ view.entityKeys := by
  cases view with
  | without mark => exact Mark.notMem_key htags hid
  | nameless => simp [entityKeys, htags, hid, hname, hhost]

/-- Where base names look alike they are the same, or what they make is not looked at. -/
theorem shown_cases (h : view.shown base = view.shown other) :
    base = other ∨ view = nameless := by
  cases view with
  | without mark => exact Or.inl h
  | nameless => exact Or.inr rfl

/-- What is made from base names that look alike is the same, unless its key is not looked at. -/
theorem eq_of_notMem_entityKeys {α : Type} (h : view.shown base = view.shown other)
    (make : String → α) {key : String} (hkey : key = "name" ∨ key = "host")
    (hmem : key ∉ view.entityKeys) : make base = make other := by
  obtain rfl | rfl := shown_cases h
  · rfl
  · simp only [entityKeys, List.mem_cons] at hmem
    tauto

theorem shown_extend (naming : Naming) (h : view.shown base = view.shown other) (child : String) :
    view.shown (naming.extend base child) = view.shown (naming.extend other child) := by
  obtain rfl | rfl := shown_cases h
  · rfl
  · simp only [shown]

end View

/-! ## Stamps -/

/-- A stamp with other tags. -/
def Stamp.retag (tags : List String) (stamp : Stamp) : Stamp := { stamp with tags }

/-- Stamps that differ in one mark at most: in their tags, or in how identifiers are written. -/
def Mark.Alike : Mark → Stamp → Stamp → Prop
  | tags, stamp, other => ∃ tags, other = stamp.retag tags
  | id, stamp, other => other.tags = stamp.tags

/-- Stamps that write the same, as far as it is looked at. -/
def View.Alike : View → Stamp → Stamp → Prop
  | without mark, stamp, other => mark.Alike stamp other
  | nameless, _, _ => True

/-- Stamped objects agree when the objects do, but for tags and identifiers that are not looked
at. -/
theorem Stamp.hide_apply_congr {stamp stamp' : Stamp} {keys : List String} {entity other : Members}
    {base base' kind : String} (h : entity.hide keys = other.hide keys)
    (htags : "tags" ∉ keys → stamp.tags = stamp'.tags)
    (hid : "id" ∉ keys →
      stamp.skipId = stamp'.skipId ∧ stamp.idText base kind = stamp'.idText base' kind) :
    (stamp.apply entity base kind).hide keys = (stamp'.apply other base' kind).hide keys := by
  refine Members.hide_insert_congr ?_ fun hnot => by rw [tagList, htags hnot, tagList]
  by_cases hmem : "id" ∈ keys
  · split <;> split <;> simp only [Members.hide_insert_id hmem, h]
  · obtain ⟨hskip, htext⟩ := hid hmem
    rw [hskip, htext]
    split
    · exact h
    · exact Members.hide_insert_congr h fun _ => rfl

namespace View
variable {view : View} {stamp stamp' : Stamp} {base base' : String}

/-- Stamps that write the same under base names that look alike stamp objects alike. -/
theorem hide_apply_congr (hstamp : view.Alike stamp stamp')
    (hbase : view.shown base = view.shown base') {keys : List String}
    (hkeys : keys = view.pluginKeys ∨ keys = view.entityKeys) (kind : String)
    {entity other : Members} (h : entity.hide keys = other.hide keys) :
    (stamp.apply entity base kind).hide keys = (stamp'.apply other base' kind).hide keys := by
  cases view with
  | without mark =>
    obtain rfl : base = base' := hbase
    obtain rfl : keys = [mark.key] := hkeys.elim (fun h => h) fun h => h
    cases mark with
    | tags =>
      obtain ⟨tags, rfl⟩ := hstamp
      exact Stamp.hide_apply_congr h (by simp [Mark.key]) fun _ => ⟨rfl, rfl⟩
    | id =>
      exact Stamp.hide_apply_congr h (fun _ => Eq.symm hstamp) (by simp [Mark.key])
  | nameless =>
    have hmem : "tags" ∈ keys ∧ "id" ∈ keys := by
      obtain rfl | rfl := hkeys <;> simp [pluginKeys, entityKeys]
    exact Stamp.hide_apply_congr h (fun hnot => absurd hmem.1 hnot) fun hnot => absurd hmem.2 hnot

end View

/-! ## Plugin lists -/

namespace Plugin
variable {view : View} {p q : Members}

theorem name_hide (view : View) (p : Members) : name (p.hide view.pluginKeys) = name p := by
  rw [name, name, Members.string?, Members.get?_hide (view.notMem_pluginKeys (by decide) (by decide)),
    Members.string?]

theorem name_eq_of_hide (h : p.hide view.pluginKeys = q.hide view.pluginKeys) : name p = name q := by
  rw [← name_hide view p, h, name_hide]

/-- What is taken out and what stays agree when the lists do. -/
theorem extractValidator_congr {plugins plugins' : List Members} {fallback fallback' : Option Members}
    (h : plugins.map (Members.hide view.pluginKeys) = plugins'.map (Members.hide view.pluginKeys))
    (hfallback : fallback.map (Members.hide view.pluginKeys) =
      fallback'.map (Members.hide view.pluginKeys)) :
    (extractValidator plugins fallback).1.map (Members.hide view.pluginKeys) =
        (extractValidator plugins' fallback').1.map (Members.hide view.pluginKeys) ∧
      (extractValidator plugins fallback).2.map (Members.hide view.pluginKeys) =
        (extractValidator plugins' fallback').2.map (Members.hide view.pluginKeys) := by
  refine Prod.mk.inj ?_
  rw [← extractValidator_map (name_hide view), ← extractValidator_map (name_hide view), h, hfallback]

/-- Plugins under new owners agree when the plugins do. -/
theorem hide_restamp_congr {stamp stamp' : Stamp} (hstamp : view.Alike stamp stamp')
    {base base' : String} (hbase : view.shown base = view.shown base')
    (h : p.hide view.pluginKeys = q.hide view.pluginKeys) :
    (restamp stamp base p).hide view.pluginKeys =
      (restamp stamp' base' q).hide view.pluginKeys := by
  rw [restamp, restamp, name_eq_of_hide h]
  exact View.hide_apply_congr hstamp hbase (Or.inl rfl) _ h

end Plugin

namespace Plugin
variable {view : View} {base base' : String} {doc : Document} {stamp stamp' : Stamp}
variable {scope : Members} (hstamp : view.Alike stamp stamp')
variable (hbase : view.shown base = view.shown base')
include hstamp hbase

/-- What a directive declares agrees in both runs. -/
theorem map_hide_ofDirective (key name : String) :
    (ofDirective doc stamp base scope key name).map (Option.map (Members.hide view.pluginKeys)) =
      (ofDirective doc stamp' base' scope key name).map
        (Option.map (Members.hide view.pluginKeys)) := by
  unfold ofDirective
  by_cases hname : name = ""
  · simp only [hname, if_true, error_bind, map_error]
  · simp only [hname, if_false]
    refine map_bind_congr_right _ fun declared => ?_
    cases declared with
    | none => simp only [Option.map_none]
    | some plugin =>
      simp only [pure, Except.pure, map_ok, Option.map_some]
      rw [hide_restamp_congr hstamp hbase rfl]

/-- The lists of a scope agree when the inherited ones do. -/
theorem map_hide_build {inherited inherited' : List Members} (h :
    inherited.map (Members.hide view.pluginKeys) = inherited'.map (Members.hide view.pluginKeys)) :
    (build doc stamp base scope inherited).map (List.map (Members.hide view.pluginKeys)) =
      (build doc stamp' base' scope inherited').map
        (List.map (Members.hide view.pluginKeys)) := by
  unfold build
  refine map_foldlM_congr ?_ ?_
  · rw [map_sortByName (name_hide view), map_sortByName (name_hide view), List.map_map, List.map_map]
    exact congrArg sortByName (map_congr_of_map_eq h fun p q => hide_restamp_congr hstamp hbase)
  · rintro plugins plugins' ⟨key, name⟩ hplugins
    refine map_bind_congr (map_hide_ofDirective hstamp hbase key name) fun found found' hfound => ?_
    cases found with
    | none =>
      obtain rfl : found' = none := by simpa using hfound.symm
      simp only [pure, Except.pure, map_ok, hplugins]
    | some p =>
      obtain ⟨q, rfl, hq⟩ := Option.map_eq_some_iff.1 hfound.symm
      simp only [pure, Except.pure, map_ok, map_insert (name_hide view), hplugins, hq]

end Plugin

/-! ## Validators -/

/-- The validators of an operation agree when the templates in effect do. -/
theorem map_hide_requestValidator {view : View} {stamp stamp' : Stamp}
    (hstamp : view.Alike stamp stamp') {base base' : String}
    (hbase : view.shown base = view.shown base') (doc : Document) (naming : Naming)
    (parameters : List Parameter) (body : Option RequestBody)
    {template template' : Option Members}
    (h : template.map (Members.hide view.pluginKeys) =
      template'.map (Members.hide view.pluginKeys)) :
    (requestValidator doc naming stamp base parameters body template).map
        (Option.map (Members.hide view.pluginKeys)) =
      (requestValidator doc naming stamp' base' parameters body template').map
        (Option.map (Members.hide view.pluginKeys)) := by
  cases template with
  | none =>
    obtain rfl : template' = none := by simpa using h.symm
    rfl
  | some p =>
    obtain ⟨q, rfl, hq⟩ := Option.map_eq_some_iff.1 h.symm
    have hnamed : (p.insert "name" (.str Plugin.validatorName)).hide view.pluginKeys =
        (q.insert "name" (.str Plugin.validatorName)).hide view.pluginKeys :=
      Members.hide_insert_congr hq.symm fun _ => rfl
    have hplugin := Plugin.hide_restamp_congr hstamp hbase hnamed
    have hkey : "config" ∉ view.pluginKeys := view.notMem_pluginKeys (by decide) (by decide)
    have hconfig := Members.object?_eq_of_hide hkey hplugin
    simp only [requestValidator, hconfig]
    refine map_bind_congr_right _ fun settings => ?_
    refine map_bind_congr_right _ fun settings => ?_
    simp only [pure, Except.pure, map_ok, Option.map_map]
    congr 2
    funext settings
    exact Members.hide_insert_congr hplugin fun _ => rfl

/-! ## Services and upstreams -/

/-- The objects of a list value replaced; other values stay. -/
def Json.mapObjects (f : Members → Members) : Json → Json
  | .arr items => .arr (items.map fun item =>
      match item with
      | .obj members => .obj (f members)
      | other => other)
  | other => other

@[simp] theorem Json.mapObjects_ofObjects (f : Members → Members) (objects : List Members) :
    (Json.ofObjects objects).mapObjects f = .ofObjects (objects.map f) := by
  simp [Json.ofObjects, Json.mapObjects]

/-- A value under a key of an upstream, where targets are without their tags. -/
def untagTargets (key : String) (value : Json) : Json :=
  if key = "targets" then value.mapObjects (Members.erase · "tags") else value

namespace View
variable {view : View} {base base' : String} {stamp stamp' : Stamp}

/-- A value under a key of an upstream, as it is looked at: targets have tags of their own, and no
identifiers. -/
def nested : View → String → Json → Json
  | without .id => fun _ value => value
  | _ => untagTargets

/-- A service or a route as it is looked at. -/
def entity (view : View) (members : Members) : Members := members.hide view.entityKeys

/-- An upstream as it is looked at, with its targets. -/
def upstream (view : View) (members : Members) : Members :=
  (members.mapValues view.nested).hide view.entityKeys

theorem nested_null (view : View) (key : String) : view.nested key .null = .null := by
  unfold nested
  split <;> simp [untagTargets, Json.mapObjects]

/-- Targets that get the tags of the run look the same. -/
theorem nested_targets (hstamp : view.Alike stamp stamp') {α : Type} (items : List α)
    {target : Stamp → α → Json}
    (htags : ∀ stamp stamp', stamp.tagList = stamp'.tagList → target stamp = target stamp')
    (huntagged : ∀ stamp stamp', (Json.arr (items.map (target stamp))).mapObjects (·.erase "tags") =
      (Json.arr (items.map (target stamp'))).mapObjects (·.erase "tags")) :
    view.nested "targets" (.arr (items.map (target stamp))) =
      view.nested "targets" (.arr (items.map (target stamp'))) := by
  unfold nested
  split
  · rw [htags stamp stamp' (by rw [Stamp.tagList, Stamp.tagList, show stamp'.tags = _ from hstamp])]
  · simp only [untagTargets, if_true, huntagged stamp stamp']

section Makers
variable (hstamp : view.Alike stamp stamp') (hbase : view.shown base = view.shown base')
include hstamp

theorem nested_declaredTarget (declared : List Json) :
    view.nested "targets" (.arr (declared.map (declaredTarget stamp))) =
      view.nested "targets" (.arr (declared.map (declaredTarget stamp'))) := by
  refine nested_targets hstamp declared ?_ ?_
  · intro s s' htags
    funext item
    cases item <;> simp [declaredTarget, htags]
  · intro s s'
    simp only [Json.mapObjects, List.map_map]
    congr 2
    funext item
    cases item <;> simp [declaredTarget]

theorem nested_serverTarget (targets : List Target) :
    view.nested "targets" (.arr (targets.map (serverTarget stamp))) =
      view.nested "targets" (.arr (targets.map (serverTarget stamp'))) := by
  refine nested_targets hstamp targets ?_ ?_
  · intro s s' htags
    funext target
    simp [serverTarget, htags]
  · intro s s'
    simp [Json.mapObjects, serverTarget]

include hbase

/-- Stamped services, upstreams and routes agree when the objects do. -/
theorem entity_apply_congr (kind : String) {members others : Members}
    (h : view.entity members = view.entity others) :
    view.entity (stamp.apply members base kind) =
      view.entity (stamp'.apply others base' kind) :=
  hide_apply_congr hstamp hbase (Or.inr rfl) kind h

/-- Upstreams of one scope agree. -/
theorem upstream_congr (targets : List Target) (defaults : Option Members) :
    view.upstream (ApiGateway.upstream stamp base targets defaults) =
      view.upstream (ApiGateway.upstream stamp' base' targets defaults) := by
  have hstamped := entity_apply_congr hstamp hbase "upstream"
    (rfl : view.entity (defaults.getD []) = view.entity (defaults.getD []))
  have hnamed : ((stamp.apply (defaults.getD []) base "upstream").insert "name"
      (.str (upstreamName base))).hide view.entityKeys =
      ((stamp'.apply (defaults.getD []) base' "upstream").insert "name"
        (.str (upstreamName base'))).hide view.entityKeys :=
    Members.hide_insert_congr hstamped
      (eq_of_notMem_entityKeys hbase (Json.str <| upstreamName ·) (by simp))
  have hnull : ∀ key ∈ view.entityKeys, view.nested key .null = .null :=
    fun key _ => view.nested_null key
  simp only [ApiGateway.upstream, View.upstream]
  generalize (stamp.apply (defaults.getD []) base "upstream").insert "name"
    (.str (upstreamName base)) = named at hnamed ⊢
  generalize (stamp'.apply (defaults.getD []) base' "upstream").insert "name"
    (.str (upstreamName base')) = named' at hnamed ⊢
  rw [Members.mapValues_insert, Members.mapValues_insert, Members.get?_eq_of_hide
    (view.notMem_entityKeys (by decide) (by decide) (by decide) (by decide)) hnamed]
  refine Members.hide_insert_congr ?_ fun _ => ?_
  · rw [Members.hide_mapValues hnull, Members.hide_mapValues hnull, hnamed]
  · split
    · exact nested_declaredTarget hstamp _
    · exact nested_serverTarget hstamp targets

/-- Services of one scope agree, and so do their upstreams. -/
theorem map_entity_service (servers : List Json) (defaults : Defaults)
    (readUri : String → Except UriError Uri) :
    (service stamp base servers defaults readUri).map
        (Prod.map view.entity (Option.map view.upstream)) =
      (service stamp' base' servers defaults readUri).map
        (Prod.map view.entity (Option.map view.upstream)) := by
  have hstamped := entity_apply_congr hstamp hbase "service"
    (rfl : view.entity (defaults.service.getD []) = view.entity (defaults.service.getD []))
  have hentity : (((stamp.apply (defaults.service.getD []) base "service").insert "name"
      (.str base) |>.insert "plugins" (.arr []) |>.insert "routes" (.arr [])).hide
        view.entityKeys) =
      (((stamp'.apply (defaults.service.getD []) base' "service").insert "name"
        (.str base') |>.insert "plugins" (.arr []) |>.insert "routes" (.arr [])).hide
          view.entityKeys) := by
    refine Members.hide_insert_congr (Members.hide_insert_congr ?_ fun _ => rfl) fun _ => rfl
    exact Members.hide_insert_congr hstamped (eq_of_notMem_entityKeys hbase Json.str (by simp))
  simp only [service]
  generalize ((stamp.apply (defaults.service.getD []) base "service").insert "name"
    (.str base) |>.insert "plugins" (.arr []) |>.insert "routes" (.arr [])) = entity at hentity ⊢
  generalize ((stamp'.apply (defaults.service.getD []) base' "service").insert "name"
    (.str base') |>.insert "plugins" (.arr []) |>.insert "routes" (.arr [])) = entity' at hentity ⊢
  rw [Members.string?_eq_of_hide
    (view.notMem_entityKeys (by decide) (by decide) (by decide) (by decide)) hentity]
  refine map_bind_congr_right _ fun targets => ?_
  generalize targets.map _ = targets
  have hcomplete := Members.hide_insertNew_congr "port" (by decide) (.int ((targets.headD
    Target.root).port.getD (fallbackPort (targets.headD Target.root).scheme))) <|
      Members.hide_insertNew_congr "path" (by decide) (.str (targets.headD Target.root).path) <|
        Members.hide_insertNew_congr "protocol" (by decide)
          (.str ((targets.headD Target.root).scheme.getD
            ((entity'.string? "protocol").getD "https"))) hentity
  rw [Members.has_eq_of_hide (by decide) hcomplete]
  split
  · simp only [pure, Except.pure, map_ok, Prod.map_apply, Except.ok.injEq, Prod.mk.injEq, and_true]
    exact hcomplete
  · split
    · simp only [pure, Except.pure, map_ok, Prod.map_apply, Except.ok.injEq, Prod.mk.injEq, and_true]
      exact Members.hide_insert_congr hcomplete fun _ => rfl
    · simp only [pure, Except.pure, map_ok, Prod.map_apply, Except.ok.injEq, Prod.mk.injEq,
        Option.map_some, Option.some.injEq]
      exact ⟨Members.hide_insert_congr hcomplete
          (eq_of_notMem_entityKeys hbase (Json.str <| upstreamName ·) (by simp)),
        upstream_congr hstamp hbase targets defaults.upstream⟩

/-! ## Routes -/

/-- The routes of one number agree when the routes that are split do. -/
theorem entity_numberedRoute_congr (naming : Naming) (number : Nat)
    (headers : List (String × String)) {route route' : Members}
    (h : view.entity route = view.entity route') :
    view.entity (numberedRoute naming stamp base route number headers) =
      view.entity (numberedRoute naming stamp' base' route' number headers) := by
  have hname : view.shown (base ++ String.singleton naming.separator ++ toString number) =
      view.shown (base' ++ String.singleton naming.separator ++ toString number) := by
    obtain rfl | rfl := shown_cases hbase
    · rfl
    · simp only [shown]
  refine Members.hide_insert_congr (Members.hide_insert_congr ?_ ?_) fun _ => rfl
  · exact entity_apply_congr hstamp hname "route" h
  · exact eq_of_notMem_entityKeys hname Json.str (by simp)

/-- The routes of all combinations of header values agree when the routes that are split do. -/
theorem map_entity_expandHeaders (doc : Document) (naming : Naming) (parameters : List Parameter)
    {route route' : Members} (h : view.entity route = view.entity route') :
    (expandHeaders doc naming stamp base parameters route).map (List.map view.entity) =
      (expandHeaders doc naming stamp' base' parameters route').map (List.map view.entity) := by
  unfold expandHeaders
  refine map_bind_congr_right _ fun choices => ?_
  cases choices with
  | nil => simp only [pure, Except.pure, map_ok, List.map_cons, List.map_nil, h]
  | cons choice rest =>
    simp only [pure, Except.pure, map_ok, List.mapIdx_eq_zipIdx_map, List.map_map]
    refine congrArg Except.ok (List.map_congr_left ?_)
    rintro ⟨values, i⟩ -
    exact entity_numberedRoute_congr hstamp hbase naming (i + 1) _ h

end Makers

end View

end ApiGateway
