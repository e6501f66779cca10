import ApiGateway.Directive
import ApiGateway.Proofs.Document.Pointer
import ApiGateway.Proofs.Document.References
import ApiGateway.Proofs.Outcome
import Mathlib.Logic.Relation

/-!
# References of directives

A directive may refer to an object below `#/components/x-kong/`. Such a reference is read by a walk
of its own, which starts inside this namespace and enters nothing but objects. It agrees with the
pointer that starts at the root of the document: both find the same, except that the walk refuses
to cross a list. So a directive never reads anything outside the namespace.

## Main definitions

* `Json.Below`: a value that stands inside another one.
* `Pointer.ThroughObjects`: segments that lead through objects only.
* `Directive.Designates`: the object that a reference of a directive stands for.
* `Directive.Means`: the object that the value of a directive stands for.

## Main results

* `Directive.descend_eq_ok_iff`: the walk finds what the pointer finds through objects.
* `Directive.object?_of_reference`: what reading a directive gives whose value is a reference.
* `Directive.object?_eq_ok_some_iff`: when a directive can be read, and as which object.
-/
namespace ApiGateway

/-- A value that stands inside another one, at any depth. -/
def Json.Below (target value : Json) : Prop :=
  Relation.TransGen (fun child parent => child ∈ parent.children) target value

namespace Pointer
variable {value target : Json} {segment : String} {rest segments : List String}

/-- What is found behind at least one segment stands inside the value one starts from. -/
theorem below_of_descend? (hne : segments ≠ []) (h : descend? value segments = some target) :
    target.Below value := by
  induction segments generalizing value with
  | nil => exact absurd rfl hne
  | cons segment rest ih =>
    obtain ⟨next, hnext, hrest⟩ := Option.bind_eq_some_iff.1 h
    have hchild := mem_children_of_step? hnext
    rcases eq_or_ne rest [] with rfl | hmore
    · obtain rfl := Option.some.inj hrest
      exact .single hchild
    · exact (ih hmore hrest).tail hchild

/-- The segments lead through objects only: every value on the way is one, the first and the last
included. -/
def ThroughObjects (value : Json) (segments : List String) : Prop :=
  ∀ front, front <+: segments → ∃ members, descend? value front = some (.obj members)

theorem ThroughObjects.exists_eq_obj (h : ThroughObjects value segments) :
    ∃ members, value = .obj members := by
  obtain ⟨members, hmembers⟩ := h [] List.nil_prefix
  exact ⟨members, Option.some.inj hmembers⟩

theorem throughObjects_nil (members : Members) : ThroughObjects (.obj members) [] := by
  intro front hfront
  rw [List.prefix_nil.1 hfront]
  exact ⟨members, rfl⟩

/-- The first segment leads from an object to a value from which the others lead on. -/
theorem throughObjects_cons : ThroughObjects value (segment :: rest) ↔
    ∃ (members : Members) (next : Json), value = .obj members ∧
      members.get? segment = some next ∧ ThroughObjects next rest := by
  constructor
  · intro h
    obtain ⟨members, rfl⟩ := h.exists_eq_obj
    obtain ⟨inner, hinner⟩ := h [segment] (by simp)
    obtain ⟨next, hnext, -⟩ := Option.bind_eq_some_iff.1 hinner
    refine ⟨members, next, rfl, hnext, ?_⟩
    intro front hfront
    obtain ⟨found, hfound⟩ := h (segment :: front) (List.cons_prefix_cons.2 ⟨rfl, hfront⟩)
    obtain ⟨next', hnext', hrest⟩ := Option.bind_eq_some_iff.1 hfound
    obtain rfl := Option.some.inj (hnext'.symm.trans hnext)
    exact ⟨found, hrest⟩
  · rintro ⟨members, next, rfl, hnext, h⟩ front hfront
    cases front with
    | nil => exact ⟨members, rfl⟩
    | cons s front =>
      obtain ⟨rfl, hrest⟩ := List.cons_prefix_cons.1 hfront
      obtain ⟨found, hfound⟩ := h front hrest
      exact ⟨found, Option.bind_eq_some_iff.2 ⟨next, hnext, hfound⟩⟩

end Pointer

namespace Directive
variable {doc : Document} {scope value current m target members : Members} {key reference walked : String}
  {segments : List String} {relative : List Char} {e : Error}

/-! ## The walk -/

/-- The walk ends at an object exactly when the pointer finds it through objects only. -/
theorem descend_eq_ok_iff : descend reference current walked segments = .ok m ↔
    Pointer.descend? (.obj current) segments = some (.obj m) ∧
      Pointer.ThroughObjects (.obj current) segments := by
  induction segments generalizing current walked with
  | nil =>
    have hnil := Pointer.throughObjects_nil current
    simp [descend, Pointer.descend?, hnil]
  | cons segment rest ih =>
    have hstep : Pointer.descend? (.obj current) (segment :: rest) =
        (current.get? segment).bind fun next => Pointer.descend? next rest := rfl
    rw [descend, hstep]
    simp only [Pointer.throughObjects_cons, Json.obj.injEq]
    cases hnext : current.get? segment with
    | none => simp
    | some next =>
      cases next with
      | obj inner =>
        rw [ih]
        simp [hnext]
      | _ =>
        -- a value that is no object ends the walk, and the segments do not lead through objects
        simp only [reduceCtorEq, false_iff, not_and]
        rintro - ⟨members, next, rfl, hget, hrest⟩
        obtain ⟨inner, rfl⟩ := hrest.exists_eq_obj
        cases hnext.symm.trans hget

/-- A walk that does not end at an object names the reference. -/
theorem exists_of_descend_eq_error (h : descend reference current walked segments = .error e) :
    ∃ fault, e = .extensionReference reference fault := by
  induction segments generalizing current walked with
  | nil => cases h
  | cons segment rest ih =>
    rw [descend] at h
    split at h
    · exact ⟨_, (Except.error.inj h).symm⟩
    · exact ih h
    · exact ⟨_, (Except.error.inj h).symm⟩

/-! ## The namespace -/

/-- The value that is to hold the objects that directives may refer to. -/
def namespace? (doc : Document) : Option Json :=
  (doc.root.get? "components").bind (·.get? "x-kong")

/-- The object that a reference of a directive stands for: the reference points into the namespace,
the document finds the object there, and every value on the way from the root is an object. -/
structure Designates (doc : Document) (reference : String) (target : Members) : Prop where
  inside : (space ++ "/").toList <+: reference.toList
  found : doc.lookup? reference = some (.obj target)
  throughObjects : ∀ segments, Pointer.segments? reference = some segments →
    Pointer.ThroughObjects (.obj doc.root) segments

/-- A reference stands for one object. -/
theorem Designates.unique (h : Designates doc reference target) (h' : Designates doc reference m) :
    target = m :=
  Json.obj.inj (Option.some.inj (h.found.symm.trans h'.found))

/-- A reference into the namespace starts with its two segments. -/
theorem segments?_of_inside (h : reference.toList = (space ++ "/").toList ++ relative) :
    Pointer.segments? reference =
      some ("components" :: "x-kong" :: Pointer.segments relative) := by
  have hparts : reference.toList =
      "#/components/".toList ++ ("x-kong".toList ++ '/' :: relative) := by
    rw [h]
    simp [space]
  rw [Pointer.segments?_components (by decide) hparts]
  rfl

/-- A reference into the namespace stands for what is found from there through objects. -/
theorem designates_iff (h : reference.toList = (space ++ "/").toList ++ relative) :
    Designates doc reference target ↔ ∃ members, namespace? doc = some (.obj members) ∧
      Pointer.descend? (.obj members) (Pointer.segments relative) = some (.obj target) ∧
      Pointer.ThroughObjects (.obj members) (Pointer.segments relative) := by
  have hsegments := segments?_of_inside h
  have hlookup : doc.lookup? reference = ((doc.root.get? "components").bind fun components =>
      (Pointer.step? components "x-kong").bind fun value =>
        Pointer.descend? value (Pointer.segments relative)) := by
    rw [Document.lookup?, hsegments]
    rfl
  constructor
  · rintro ⟨-, hfound, hthrough⟩
    obtain ⟨root, components, hroot, hcomponents, hthrough⟩ :=
      Pointer.throughObjects_cons.1 (hthrough _ hsegments)
    obtain ⟨inner, value, rfl, hvalue, hthrough⟩ := Pointer.throughObjects_cons.1 hthrough
    obtain ⟨members, rfl⟩ := hthrough.exists_eq_obj
    obtain rfl := Json.obj.inj hroot
    rw [hlookup, hcomponents, Option.bind_some] at hfound
    have hstep : Pointer.step? (.obj inner) "x-kong" = some (.obj members) := hvalue
    rw [hstep, Option.bind_some] at hfound
    refine ⟨members, ?_, hfound, hthrough⟩
    rw [namespace?, hcomponents]
    exact hvalue
  · rintro ⟨members, hmembers, hfound, hthrough⟩
    obtain ⟨components, hcomponents, hvalue⟩ := Option.bind_eq_some_iff.1 hmembers
    cases components with
    | obj components =>
      refine ⟨⟨relative, h.symm⟩, ?_, ?_⟩
      · have hstep : Pointer.step? (.obj components) "x-kong" = some (.obj members) := hvalue
        rw [hlookup, hcomponents, Option.bind_some, hstep, Option.bind_some, hfound]
      · intro segments h'
        obtain rfl := Option.some.inj (hsegments.symm.trans h')
        exact Pointer.throughObjects_cons.2 ⟨_, _, rfl, hcomponents,
          Pointer.throughObjects_cons.2 ⟨_, _, rfl, hvalue, hthrough⟩⟩
    | _ => cases hvalue

/-- What a reference stands for stands in the namespace. -/
theorem Designates.below (h : Designates doc reference target) :
    ∃ members, namespace? doc = some (.obj members) ∧ (Json.obj target).Below (.obj members) := by
  obtain ⟨relative, hrelative⟩ := h.inside
  obtain ⟨members, hmembers, hfound, -⟩ := (designates_iff hrelative.symm).1 h
  exact ⟨members, hmembers, Pointer.below_of_descend? (Pointer.segments_ne_nil relative) hfound⟩

/-! ## Reading a directive -/

/-- The namespace is there, but it is no object. -/
def Blocked (doc : Document) : Prop := ∃ value, namespace? doc = some value ∧ value.asObject? = none

theorem components?_of_none (h : namespace? doc = none) : components? doc = .ok none := by
  rw [namespace?] at h
  rw [components?, h]

theorem components?_of_obj (h : namespace? doc = some (.obj members)) :
    components? doc = .ok (some members) := by
  rw [namespace?] at h
  rw [components?, h]

theorem components?_of_blocked (h : Blocked doc) :
    components? doc = .error (.extension "/components/x-kong" .notObject) := by
  obtain ⟨value, hvalue, hother⟩ := h
  rw [namespace?] at hvalue
  rw [components?, hvalue]
  cases value with
  | obj members => cases hother
  | _ => rfl

/-- A reference is followed to the object that it stands for, or it stands for none. Then the error
is about the namespace, when the reference points into it and it is no object, and about the
reference otherwise. -/
theorem dereference_cases (doc : Document) (h : value.get? "$ref" = some (.str reference)) :
    (∃ target, Designates doc reference target ∧ dereference doc value = .ok target) ∨
    ((space ++ "/").toList <+: reference.toList ∧ Blocked doc ∧
      (∀ target, ¬ Designates doc reference target) ∧
      dereference doc value = .error (.extension "/components/x-kong" .notObject)) ∨
    (¬ ((space ++ "/").toList <+: reference.toList ∧ Blocked doc) ∧
      (∀ target, ¬ Designates doc reference target) ∧
      ∃ fault, dereference doc value = .error (.extensionReference reference fault)) := by
  simp only [dereference, h]
  cases hafter : Text.after? (space ++ "/").toList reference.toList with
  | none =>
    have houtside : ¬ (space ++ "/").toList <+: reference.toList := by
      rintro ⟨relative, hrelative⟩
      cases hafter.symm.trans (Text.after?_eq_some_iff.2 hrelative.symm)
    exact .inr (.inr ⟨fun hinside => houtside hinside.1, fun _ hd => houtside hd.inside, _, rfl⟩)
  | some relative =>
    have hrelative := Text.after?_eq_some_iff.1 hafter
    have hinside : (space ++ "/").toList <+: reference.toList := ⟨relative, hrelative.symm⟩
    simp only [designates_iff hrelative]
    cases hspace : namespace? doc with
    | none =>
      rw [components?_of_none hspace]
      exact .inr (.inr ⟨by simp [Blocked, hspace], by simp, _, rfl⟩)
    | some inner =>
      cases inner with
      | obj members =>
        rw [components?_of_obj hspace, ok_bind]
        cases hwalk : descend reference members space (Pointer.segments relative) with
        | ok target => exact .inl ⟨target, ⟨members, rfl, descend_eq_ok_iff.1 hwalk⟩, hwalk⟩
        | error e =>
          obtain ⟨fault, rfl⟩ := exists_of_descend_eq_error hwalk
          refine .inr (.inr ⟨by simp [Blocked, hspace, Json.asObject?], ?_, fault, hwalk⟩)
          rintro target ⟨_, hmembers, hfound⟩
          obtain rfl := Json.obj.inj (Option.some.inj hmembers)
          cases hwalk.symm.trans (descend_eq_ok_iff.2 hfound)
      | _ =>
        rw [components?_of_blocked ⟨_, hspace, rfl⟩]
        exact .inr (.inl ⟨hinside, ⟨_, hspace, rfl⟩, by simp, rfl⟩)

/-- A reference is followed exactly to the object that it stands for. -/
theorem dereference_eq_ok_iff (h : value.get? "$ref" = some (.str reference)) :
    dereference doc value = .ok target ↔ Designates doc reference target := by
  obtain ⟨found, hfound, heq⟩ | ⟨-, -, hnone, heq⟩ | ⟨-, hnone, fault, heq⟩ :=
    dereference_cases doc h
  · rw [heq, Except.ok.injEq]
    exact ⟨fun hsame => hsame ▸ hfound, hfound.unique⟩
  · simp [heq, hnone]
  · simp [heq, hnone]

/-- The object that the value of a directive stands for: itself, or what it refers to. -/
inductive Means (doc : Document) : Json → Members → Prop where
  | inline {value : Members} : value.get? "$ref" = none → Means doc (.obj value) value
  | reference {value : Members} {reference : String} {target : Members} :
    value.get? "$ref" = some (.str reference) → Designates doc reference target →
      Means doc (.obj value) target

theorem means_obj_iff : Means doc (.obj value) target ↔ dereference doc value = .ok target := by
  constructor
  · rintro (hinline | ⟨href, hdesignates⟩)
    · simp only [dereference, hinline]
    · exact (dereference_eq_ok_iff href).2 hdesignates
  · intro h
    cases href : value.get? "$ref" with
    | none =>
      simp only [dereference, href, Except.ok.injEq] at h
      exact h ▸ .inline href
    | some pointer =>
      cases pointer with
      | str reference => exact .reference href ((dereference_eq_ok_iff href).1 h)
      | _ =>
        simp only [dereference, href] at h
        cases h

/-- A directive is read as the object that its value stands for. -/
theorem object?_eq_ok_some_iff : object? doc scope key = .ok (some target) ↔
    ∃ value, scope.get? key = some value ∧ Means doc value target := by
  unfold object?
  cases hvalue : scope.get? key with
  | none => simp
  | some value =>
    cases value with
    | obj value =>
      simp [map_eq_ok_iff, means_obj_iff]
    | _ =>
      simp only [Option.some.injEq, exists_eq_left', reduceCtorEq, false_iff]
      exact nofun

/-- A directive that the scope has not is none, and only such a one is. -/
theorem object?_eq_ok_none_iff : object? doc scope key = .ok none ↔ scope.get? key = none := by
  unfold object?
  cases hvalue : scope.get? key with
  | none => simp
  | some value => cases value <;> simp [map_eq_ok_iff]

/-- A directive cannot be read exactly when its value stands for no object. -/
theorem exists_error_object?_iff : (∃ e, object? doc scope key = .error e) ↔
    ∃ value, scope.get? key = some value ∧ ¬ ∃ target, Means doc value target := by
  constructor
  · rintro ⟨e, he⟩
    cases hvalue : scope.get? key with
    | none => cases he.symm.trans (object?_eq_ok_none_iff.2 hvalue)
    | some value =>
      refine ⟨value, rfl, ?_⟩
      rintro ⟨target, htarget⟩
      cases he.symm.trans (object?_eq_ok_some_iff.2 ⟨value, hvalue, htarget⟩)
  · rintro ⟨value, hvalue, hnone⟩
    cases hobject : object? doc scope key with
    | error e => exact ⟨e, rfl⟩
    | ok found =>
      cases found with
      | none => cases hvalue.symm.trans (object?_eq_ok_none_iff.1 hobject)
      | some target =>
        obtain ⟨value', hvalue', htarget⟩ := object?_eq_ok_some_iff.1 hobject
        obtain rfl := Option.some.inj (hvalue'.symm.trans hvalue)
        exact absurd ⟨target, htarget⟩ hnone

/-- The value has a `$ref` that stands for no object: it is no string, or not a reference to one. -/
def Dangles (doc : Document) (value : Json) : Prop :=
  ∃ pointer, value.get? "$ref" = some pointer ∧
    ∀ reference target, pointer = .str reference → ¬ Designates doc reference target

/-- A value stands for an object unless it is no object itself, or has a `$ref` that stands for
none. -/
theorem exists_means_iff {value : Json} :
    (∃ target, Means doc value target) ↔ value.asObject? ≠ none ∧ ¬ Dangles doc value := by
  constructor
  · rintro ⟨target, hinline | ⟨href, hdesignates⟩⟩
    · refine ⟨nofun, ?_⟩
      rintro ⟨pointer, hpointer, -⟩
      cases hinline.symm.trans hpointer
    · refine ⟨nofun, ?_⟩
      rintro ⟨pointer, hpointer, hnone⟩
      exact hnone _ _ (Option.some.inj (hpointer.symm.trans href)) hdesignates
  · rintro ⟨hobject, hdangles⟩
    cases value with
    | obj value =>
      cases href : Members.get? value "$ref" with
      | none => exact ⟨value, .inline href⟩
      | some pointer =>
        by_contra hnone
        refine hdangles ⟨pointer, href, ?_⟩
        rintro reference target rfl hdesignates
        exact hnone ⟨target, .reference href hdesignates⟩
    | _ => exact absurd rfl hobject

/-- Reading a directive whose value is a reference gives an object exactly when the reference
points into the namespace, the document finds the object there, and every value on the way is an
object; the object then stands in the namespace. Anything else is an error: about the namespace,
when the reference points into it and it is no object, and about the reference otherwise. -/
theorem object?_of_reference (hvalue : scope.get? key = some (.obj value))
    (hreference : value.get? "$ref" = some (.str reference)) :
    (∀ target, object? doc scope key = .ok (some target) ↔
      (space ++ "/").toList <+: reference.toList ∧ doc.lookup? reference = some (.obj target) ∧
        ∀ segments, Pointer.segments? reference = some segments →
          Pointer.ThroughObjects (.obj doc.root) segments) ∧
    (∀ target, object? doc scope key = .ok (some target) →
      ∃ members, namespace? doc = some (.obj members) ∧
        (Json.obj target).Below (.obj members)) ∧
    ((¬ ∃ target, object? doc scope key = .ok (some target)) →
      ∃ e, object? doc scope key = .error e ∧
        ((space ++ "/").toList <+: reference.toList ∧ Blocked doc → e.code = "E2001") ∧
        (¬ ((space ++ "/").toList <+: reference.toList ∧ Blocked doc) → e.code = "E2002")) := by
  have hobject : object? doc scope key = (dereference doc value).map some := by
    simp only [object?, hvalue]
  have hok : ∀ target, object? doc scope key = .ok (some target) ↔
      Designates doc reference target := by
    intro target
    rw [hobject, map_eq_ok_iff]
    simp [dereference_eq_ok_iff hreference]
  refine ⟨?_, fun target h => ((hok target).1 h).below, ?_⟩
  · intro target
    rw [hok]
    exact ⟨fun h => ⟨h.inside, h.found, h.throughObjects⟩, fun ⟨h, h', h''⟩ => ⟨h, h', h''⟩⟩
  · intro hnone
    obtain ⟨target, htarget, -⟩ | ⟨hinside, hblocked, -, heq⟩ | ⟨hother, -, fault, heq⟩ :=
      dereference_cases doc hreference
    · exact absurd ⟨target, (hok target).2 htarget⟩ hnone
    · exact ⟨_, by rw [hobject, heq, map_error], fun _ => rfl,
        fun h => absurd ⟨hinside, hblocked⟩ h⟩
    · exact ⟨_, by rw [hobject, heq, map_error], fun h => absurd h hother, fun _ => rfl⟩

/-- A document whose namespace holds an object behind a slash, an empty key and a tilde, and a list
of objects. -/
def depotDocument : Document :=
  ⟨[("components", .obj [("x-kong", .obj
      [("a/b", .obj [("", .obj [("~1", .obj [("", .obj [("retries", .int 3)])])])]),
        ("several", .arr [.obj [("retries", .int 5)]])])]),
    ("openapi", .str "3.0.0"), ("paths", .obj [])], "3.0.0"⟩

/-- The object behind odd keys is read, and the one inside the list is not, though the document
finds it. -/
theorem object?_of_reference_depot :
    object? depotDocument [(serviceKey, .obj [("$ref", .str "#/components/x-kong/a~1b//~01/")])]
        serviceKey = .ok (some [("retries", .int 3)]) ∧
    depotDocument.lookup? "#/components/x-kong/several/0" = some (.obj [("retries", .int 5)]) ∧
    ∃ e, object? depotDocument
        [(serviceKey, .obj [("$ref", .str "#/components/x-kong/several/0")])] serviceKey =
          .error e ∧ e.code = "E2002" := by
  have hlist : depotDocument.lookup? "#/components/x-kong/several/0" =
      some (.obj [("retries", .int 5)]) := by
    rfl
  refine ⟨?_, hlist, ?_⟩
  · refine ((object?_of_reference rfl rfl).1 _).2 ⟨⟨"a~1b//~01/".toList, rfl⟩, by cbv, ?_⟩
    have hsegments : Pointer.segments? "#/components/x-kong/a~1b//~01/" =
        some ["components", "x-kong", "a/b", "", "~1", ""] := by
      cbv
    intro segments h
    obtain rfl := Option.some.inj (h.symm.trans hsegments)
    iterate 6 refine Pointer.throughObjects_cons.2 ⟨_, _, rfl, rfl, ?_⟩
    exact Pointer.throughObjects_nil _
  · have hrefused : ∀ target, object? depotDocument
        [(serviceKey, .obj [("$ref", .str "#/components/x-kong/several/0")])] serviceKey ≠
          .ok (some target) := by
      have herror : object? depotDocument
          [(serviceKey, .obj [("$ref", .str "#/components/x-kong/several/0")])] serviceKey =
            .error (.extensionReference "#/components/x-kong/several/0"
              (.notObject "#/components/x-kong/several")) := by
        cbv
      simp [herror]
    have hspace : ¬ Blocked depotDocument := by
      rintro ⟨value, hvalue, hother⟩
      obtain rfl := Option.some.inj hvalue
      cases hother
    obtain ⟨e, he, -, hcode⟩ := (object?_of_reference rfl rfl).2.2 fun h => hrefused _ h.choose_spec
    exact ⟨e, he, hcode fun h => hspace h.2⟩

end Directive

end ApiGateway
