import ApiGateway.Compilation.Compile
import ApiGateway.Proofs.Compilation.Plan
import Mathlib.Algebra.BigOperators.Group.List.Basic

/-!
# Routes by header

How many routes an operation has is read off its parameters: the product of the numbers of listed
values of its header parameters. The routes are copies of one route with a name, an identifier
and headers of their own.

## Main definitions

* `listedHeader?`, `listedValues?`: the values that a header parameter lists, and how many.
* `headerSizes`: the numbers of listed values of all header parameters that list some.
* `routeNames`: the names of the routes that an operation is split into.
-/
namespace ApiGateway

/-- The name of a header parameter with the values that its schema lists, if it lists any. -/
def listedHeader? (doc : Document) (p : Parameter) : Option (String × List String) :=
  if p.location = "header" then
    match p.schema.map doc.resolve with
    | some (.ok schema) =>
      match schema.get? "enum" with
      | some (.arr (value :: rest)) => some (p.name, (value :: rest).map Json.plainText)
      | _ => none
    | _ => none
  else none

/-- How many values a header parameter lists, if its schema lists any. -/
def listedValues? (doc : Document) (p : Parameter) : Option ℕ :=
  (listedHeader? doc p).map fun header => header.2.length

/-- The numbers of values of the header parameters that list some. -/
def headerSizes (doc : Document) (parameters : List Parameter) : List ℕ :=
  parameters.filterMap (listedValues? doc)

/-- The names of the routes that an operation with a base name is split into: the base name
itself when no header lists values, otherwise one numbered name for each combination. -/
def routeNames (naming : Naming) (base : String) (sizes : List ℕ) : List String :=
  if sizes = [] then [base]
  else (List.range sizes.prod).map fun i =>
    base ++ String.singleton naming.separator ++ toString (i + 1)

/-- The combinations are as many as the product of the numbers of values. -/
theorem length_combinations {α : Type} (lists : List (List α)) :
    (combinations lists).length = (lists.map List.length).prod := by
  induction lists with
  | nil => rfl
  | cons values rest ih =>
    simp [combinations, List.length_flatMap, ih]

/-- What is found for a header parameter is what it lists. -/
theorem headerValues_eq_ok {doc : Document} {p : Parameter}
    {found : Option (String × List String)} (hloc : p.location = "header")
    (h : headerValues doc p = .ok found) : found = listedHeader? doc p := by
  unfold headerValues at h
  cases hschema : p.schema with
  | none =>
    simp only [hschema] at h
    obtain rfl := Except.ok.inj h
    simp [listedHeader?, hschema]
  | some schema =>
    simp only [hschema] at h
    obtain ⟨resolved, hresolved, h⟩ := bind_eq_ok_iff.1 h
    simp only [listedHeader?, hloc, hschema, Option.map_some, hresolved, if_true]
    cases henum : resolved.get? "enum" with
    | none =>
      simp only [henum] at h
      exact (Except.ok.inj h).symm
    | some value =>
      simp only [henum] at h
      cases value with
      | arr items =>
        cases items with
        | nil => exact (Except.ok.inj h).symm
        | cons item rest => exact (Except.ok.inj h).symm
      | _ => exact (Except.ok.inj h).symm

/-- The headers that were found to list values are those that do. -/
theorem filterMap_of_mapM_headerValues {doc : Document} {parameters : List Parameter}
    {found : List (Option (String × List String))}
    (h : (parameters.filter fun p => p.location == "header").mapM (headerValues doc) =
      .ok found) :
    found.filterMap id = parameters.filterMap (listedHeader? doc) := by
  induction parameters generalizing found with
  | nil =>
    obtain rfl := Except.ok.inj h
    rfl
  | cons p parameters ih =>
    by_cases hloc : p.location = "header"
    · rw [List.filter_cons_of_pos (by simpa using hloc), List.mapM_cons] at h
      obtain ⟨first, hfirst, h⟩ := bind_eq_ok_iff.1 h
      obtain ⟨rest, hrest, h⟩ := bind_eq_ok_iff.1 h
      obtain rfl := Except.ok.inj h
      obtain rfl := headerValues_eq_ok hloc hfirst
      rw [List.filterMap_cons, List.filterMap_cons, ih hrest]
      rfl
    · rw [List.filter_cons_of_neg (by simpa using hloc)] at h
      simpa [listedHeader?, hloc] using ih h

/-- The headers with listed values, in the order of their names. -/
theorem headerChoices_eq_ok {doc : Document} {parameters : List Parameter}
    {choices : List (String × List String)} (h : headerChoices doc parameters = .ok choices) :
    choices =
      (parameters.filterMap (listedHeader? doc)).mergeSort fun p q => !decide (q.1 < p.1) := by
  simp only [headerChoices] at h
  obtain ⟨found, hfound, h⟩ := bind_eq_ok_iff.1 h
  rw [← Except.ok.inj h, filterMap_of_mapM_headerValues hfound]

/-- The sizes of the choices are the numbers of listed values, in another order. -/
theorem headerChoices_sizes {doc : Document} {parameters : List Parameter}
    {choices : List (String × List String)} (h : headerChoices doc parameters = .ok choices) :
    (choices.map fun choice => choice.2.length).Perm (headerSizes doc parameters) := by
  have hsizes : headerSizes doc parameters =
      (parameters.filterMap (listedHeader? doc)).map fun choice => choice.2.length := by
    rw [headerSizes, List.map_filterMap]
    rfl
  rw [headerChoices_eq_ok h, hsizes]
  exact (List.mergeSort_perm _ _).map _

/-- An operation has its route alone when no header lists values, and otherwise one copy of it for
each combination of values, under the number of the combination. -/
theorem expandHeaders_eq_ok {doc : Document} {naming : Naming} {stamp : Stamp} {base : String}
    {parameters : List Parameter} {route : Members} {routes : List Members}
    (h : expandHeaders doc naming stamp base parameters route = .ok routes) :
    ∃ choices, headerChoices doc parameters = .ok choices ∧
      (choices = [] ∧ routes = [route] ∨
        choices ≠ [] ∧ routes = (combinations (choices.map (·.2))).mapIdx fun i values =>
          numberedRoute naming stamp base route (i + 1) ((choices.map (·.1)).zip values)) := by
  simp only [expandHeaders] at h
  obtain ⟨choices, hchoices, h⟩ := bind_eq_ok_iff.1 h
  cases choices with
  | nil => exact ⟨_, hchoices, Or.inl ⟨rfl, (Except.ok.inj h).symm⟩⟩
  | cons choice rest => exact ⟨_, hchoices, Or.inr ⟨by simp, (Except.ok.inj h).symm⟩⟩

/-- The copies are as many as the product of the numbers of listed values. -/
theorem expandHeaders_spec {doc : Document} {naming : Naming} {stamp : Stamp} {base : String}
    {parameters : List Parameter} {route : Members} {routes : List Members}
    (h : expandHeaders doc naming stamp base parameters route = .ok routes) :
    (headerSizes doc parameters = [] ∧ routes = [route]) ∨
      (headerSizes doc parameters ≠ [] ∧ ∃ headers : List (List (String × String)),
        headers.length = (headerSizes doc parameters).prod ∧
        routes = headers.mapIdx fun i chosen =>
          numberedRoute naming stamp base route (i + 1) chosen) := by
  obtain ⟨choices, hchoices, ⟨rfl, rfl⟩ | ⟨hne, rfl⟩⟩ := expandHeaders_eq_ok h
  · exact Or.inl ⟨(headerChoices_sizes hchoices).nil_eq.symm, rfl⟩
  · have hperm := headerChoices_sizes hchoices
    refine Or.inr ⟨fun hnil => hne ?_, ?_⟩
    · rw [hnil] at hperm
      exact List.map_eq_nil_iff.1 hperm.eq_nil
    · refine ⟨(combinations (choices.map (·.2))).map (choices.map (·.1)).zip, ?_, ?_⟩
      · rw [List.length_map, length_combinations, ← hperm.prod_eq, List.map_map]
        rfl
      · exact List.ext_getElem (by simp) fun i _ _ => by simp

/-- The name of a numbered route. -/
theorem entityName_numberedRoute (naming : Naming) (stamp : Stamp) (base : String)
    (route : Members) (number : ℕ) (headers : List (String × String)) :
    entityName (numberedRoute naming stamp base route number headers) =
      base ++ String.singleton naming.separator ++ toString number := by
  simp [entityName, numberedRoute, Members.string?, Members.get?_insert]

/-- A numbered route keeps everything but name, identifier, tags and headers. -/
theorem get?_numberedRoute {key : String} (hid : key ≠ "id") (htags : key ≠ "tags")
    (hname : key ≠ "name") (hheaders : key ≠ "headers") (naming : Naming) (stamp : Stamp)
    (base : String) (route : Members) (number : ℕ) (headers : List (String × String)) :
    (numberedRoute naming stamp base route number headers).get? key = route.get? key := by
  simp [numberedRoute, Members.get?_insert, hname, hheaders,
    Stamp.get?_apply_of_ne _ _ _ _ hid htags]

/-- The routes of an operation keep everything but name, identifier, tags and headers. -/
theorem get?_of_expandHeaders {doc : Document} {naming : Naming} {stamp : Stamp} {base : String}
    {parameters : List Parameter} {route : Members} {routes : List Members}
    (h : expandHeaders doc naming stamp base parameters route = .ok routes) {key : String}
    (hid : key ≠ "id") (htags : key ≠ "tags") (hname : key ≠ "name") (hheaders : key ≠ "headers") :
    ∀ own ∈ routes, own.get? key = route.get? key := by
  intro own hown
  obtain ⟨-, rfl⟩ | ⟨-, headers, -, rfl⟩ := expandHeaders_spec h
  · rw [List.mem_singleton.1 hown]
  · obtain ⟨i, hi, rfl⟩ := List.mem_mapIdx.1 hown
    exact get?_numberedRoute hid htags hname hheaders _ _ _ _ _ _

/-- The names of the routes of an operation. -/
theorem entityNames_of_expandHeaders {doc : Document} {naming : Naming} {stamp : Stamp}
    {base : String} {parameters : List Parameter} {route : Members} {routes : List Members}
    (hname : entityName route = base)
    (h : expandHeaders doc naming stamp base parameters route = .ok routes) :
    routes.map entityName = routeNames naming base (headerSizes doc parameters) := by
  obtain ⟨hsizes, rfl⟩ | ⟨hsizes, headers, hlen, rfl⟩ := expandHeaders_spec h
  · simp [routeNames, hsizes, hname]
  · rw [routeNames, if_neg hsizes, ← hlen]
    refine List.ext_getElem (by simp) ?_
    intro i hi _
    simp [entityName_numberedRoute]

end ApiGateway
