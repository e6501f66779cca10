import ApiGateway.Document.Operation
import ApiGateway.Proofs.Json.Members
import ApiGateway.Proofs.Outcome

/-!
# Parameters of operations

The parameters of an operation are a map from names and locations, made of two lists of entries.
Those of the path item come first, in their order; those of the operation are put in one by one,
each in the place of the parameter with its name and location, or at the end.

## Main definitions

* `Parameter.key`: the name and location of a parameter.
* `Document.Declares`: an entry of a list and the parameter that it describes.
* `Document.declaredKeys`: the names and locations that a scope declares.

## Main results

* `Parameter.map_key_foldl_override`, `Parameter.find?_foldl_override`: the order and the values of
  merged lists.
* `Document.exists_error_parameters_iff`: when parameters cannot be read.
* `Document.declares_of_mem_parameters`: the entries that parameters come from.
* `Document.merged_parameters`: what the parameters of an operation are, and when they cannot be
  read.
-/
namespace ApiGateway

namespace Parameter
variable {p q : Parameter} {parameters shared own : List Parameter} {k : String × String}

/-- The name and location of a parameter. -/
def key (p : Parameter) : String × String := (p.name, p.location)

theorem sameKey_iff : q.sameKey p = true ↔ q.key = p.key := by
  simp [sameKey, key]

/-- The first parameter of a name and location. -/
def find? (parameters : List Parameter) (k : String × String) : Option Parameter :=
  parameters.find? fun p => p.key = k

/-! ## Putting in one parameter -/

/-- A parameter of a new name and location comes last, any other one keeps the place of the one that
it replaces. -/
theorem map_key_override (parameters : List Parameter) (p : Parameter) :
    (override parameters p).map key =
      if p.key ∈ parameters.map key then parameters.map key else parameters.map key ++ [p.key] := by
  induction parameters with
  | nil => rfl
  | cons q rest ih =>
    rw [override]
    by_cases hsame : q.key = p.key
    · rw [if_pos (sameKey_iff.2 hsame), if_pos (by simp [hsame]), List.map_cons, List.map_cons,
        hsame]
    · rw [if_neg (by rwa [sameKey_iff]), List.map_cons, List.map_cons, ih]
      simp only [List.mem_cons, Ne.symm hsame, false_or]
      split
      · rfl
      · rw [List.cons_append]

/-- The parameter that is put in is found under its name and location, and the others under
theirs. -/
theorem find?_override (parameters : List Parameter) (p : Parameter) (k : String × String) :
    find? (override parameters p) k = if k = p.key then some p else find? parameters k := by
  induction parameters with
  | nil => simp [override, find?, eq_comm]
  | cons q rest ih =>
    rw [override]
    by_cases hsame : q.key = p.key
    · rw [if_pos (sameKey_iff.2 hsame)]
      by_cases hk : p.key = k
      · simp [find?, hk]
      · simp [find?, hk, Ne.symm hk, hsame]
    · rw [if_neg (by rwa [sameKey_iff])]
      by_cases hk : q.key = k
      · subst hk
        simp [find?, hsame]
      · simpa [find?, hk] using ih

theorem mem_override (h : p ∈ override parameters q) : p = q ∨ p ∈ parameters := by
  induction parameters with
  | nil => simpa [override] using h
  | cons r rest ih =>
    rw [override] at h
    split at h
    · exact (List.mem_cons.1 h).imp_right (List.mem_cons_of_mem _)
    · obtain rfl | h := List.mem_cons.1 h
      · exact .inr List.mem_cons_self
      · exact (ih h).imp_right (List.mem_cons_of_mem _)

theorem nodup_override (h : (parameters.map key).Nodup) (p : Parameter) :
    ((override parameters p).map key).Nodup := by
  rw [map_key_override]
  split
  · exact h
  · rename_i hnew
    refine List.nodup_append.2 ⟨h, by simp, ?_⟩
    intro k hk l hl heq
    rw [List.mem_singleton.1 hl] at heq
    exact hnew (heq ▸ hk)

/-! ## Merging two lists -/

/-- Parameters put in the place of others come from one of the two lists. -/
theorem mem_foldl_override (h : p ∈ own.foldl override shared) : p ∈ own ∨ p ∈ shared := by
  induction own generalizing shared with
  | nil => exact .inr h
  | cons q own ih =>
    obtain hp | hp := ih h
    · exact .inl (List.mem_cons_of_mem _ hp)
    · obtain rfl | hp := mem_override hp
      · exact .inl List.mem_cons_self
      · exact .inr hp

theorem nodup_foldl_override (h : (shared.map key).Nodup) (own : List Parameter) :
    ((own.foldl override shared).map key).Nodup := by
  induction own generalizing shared with
  | nil => exact h
  | cons p own ih => exact ih (nodup_override h p)

/-- New names and locations follow the shared ones, in the order in which they come first. -/
theorem map_key_foldl_override (shared own : List Parameter) :
    (own.foldl override shared).map key =
      shared.map key ++ ((own.map key).filter (· ∉ shared.map key)).eraseDups := by
  induction own generalizing shared with
  | nil => simp
  | cons p own ih =>
    rw [List.foldl_cons, ih, map_key_override, List.map_cons]
    by_cases hp : p.key ∈ shared.map key
    · rw [if_pos hp, List.filter_cons_of_neg (by simpa using hp)]
    · rw [if_neg hp, List.filter_cons_of_pos (by simpa using hp), List.eraseDups_cons,
        List.append_assoc, List.singleton_append, List.filter_filter]
      congr 3
      refine List.filter_congr fun k _ => ?_
      rw [Bool.beq_eq_decide_eq, ← decide_not, ← Bool.decide_and]
      simp [and_comm]

/-- The last parameter of a name and location is found, and a shared one when there is none. -/
theorem find?_foldl_override (shared own : List Parameter) (k : String × String) :
    find? (own.foldl override shared) k = (find? own.reverse k <|> find? shared k) := by
  induction own generalizing shared with
  | nil => rfl
  | cons p own ih =>
    rw [List.foldl_cons, ih, find?_override, List.reverse_cons]
    simp only [find?, List.find?_append]
    cases List.find? (fun p => p.key = k) own.reverse with
    | some q => rfl
    | none =>
      by_cases hk : k = p.key
      · simp [hk]
      · simp [hk, Ne.symm hk]

end Parameter

namespace Document
variable {doc : Document} {scope item operation : Members} {entry : Json} {p : Parameter}
  {k : String × String} {params : List Parameter}

/-! ## Entries -/

/-- The entries that a path item or an operation lists. -/
def parameterEntries (scope : Members) : List Json := (scope.list? "parameters").getD []

/-- An entry describes a parameter: references lead from it to an object that does. -/
def Declares (doc : Document) (entry : Json) (p : Parameter) : Prop :=
  ∃ object, doc.resolve entry = .ok (.obj object) ∧ Parameter.ofObject? object = some p

/-- The parameter that an entry describes. -/
def declared? (doc : Document) (entry : Json) : Option Parameter :=
  ((doc.resolve entry).toOption.bind Json.asObject?).bind Parameter.ofObject?

/-- The name and location that an entry declares: those of the object that references lead to. -/
def declaredKey? (doc : Document) (entry : Json) : Option (String × String) :=
  match doc.resolve entry with
  | .ok (.obj object) =>
    match Members.string? object "name", Members.string? object "in" with
    | some name, some location => some (name, location)
    | _, _ => none
  | _ => none

/-- The names and locations that a path item or an operation declares, in the order of its
entries. -/
def declaredKeys (doc : Document) (scope : Members) : List (String × String) :=
  (parameterEntries scope).filterMap doc.declaredKey?

theorem declared?_eq_some_iff : doc.declared? entry = some p ↔ doc.Declares entry p := by
  unfold declared? Declares
  cases doc.resolve entry with
  | error e => simp [Except.toOption]
  | ok target => cases target <;> simp [Except.toOption, Json.asObject?]

/-- An entry declares a name and location when references lead from it to an object that has
them. -/
theorem declaredKey?_eq_some_iff : doc.declaredKey? entry = some k ↔
    ∃ object, doc.resolve entry = .ok (.obj object) ∧
      Members.string? object "name" = some k.1 ∧ Members.string? object "in" = some k.2 := by
  unfold declaredKey?
  cases doc.resolve entry with
  | error e => simp
  | ok target =>
    cases target with
    | obj object =>
      cases hname : Members.string? object "name" <;>
        cases hlocation : Members.string? object "in" <;>
          simp [hname, hlocation, Prod.ext_iff]
    | _ => simp

theorem mem_declaredKeys_iff : k ∈ doc.declaredKeys scope ↔
    ∃ entry ∈ parameterEntries scope, ∃ object, doc.resolve entry = .ok (.obj object) ∧
      Members.string? object "name" = some k.1 ∧ Members.string? object "in" = some k.2 := by
  simp only [declaredKeys, List.mem_filterMap, declaredKey?_eq_some_iff]

/-- An object describes a parameter when it has a name and a location, which are the parameter's. -/
theorem map_key_ofObject? (object : Members) : (Parameter.ofObject? object).map Parameter.key =
    (object.string? "name").bind fun name => (object.string? "in").map fun location =>
      (name, location) := by
  unfold Parameter.ofObject?
  cases object.string? "name" <;> cases object.string? "in" <;> rfl

/-- The name and location of an entry are those of its parameter. -/
theorem map_key_declared? (doc : Document) (entry : Json) :
    (doc.declared? entry).map Parameter.key = doc.declaredKey? entry := by
  unfold declared? declaredKey?
  cases doc.resolve entry with
  | error e => rfl
  | ok target =>
    cases target with
    | obj object =>
      have hkey := map_key_ofObject? object
      simp only [Except.toOption, Option.bind_some, Json.asObject?, hkey]
      cases Members.string? object "name" <;> cases Members.string? object "in" <;> rfl
    | _ => rfl

theorem map_key_declared (doc : Document) (scope : Members) :
    ((parameterEntries scope).filterMap doc.declared?).map Parameter.key =
      doc.declaredKeys scope := by
  rw [List.map_filterMap, declaredKeys]
  simp only [map_key_declared?]

/-- The parameters that a scope lists are those of its entries, all of which can be resolved. -/
theorem listedParameters_eq_ok (h : doc.listedParameters scope = .ok params) :
    params = (parameterEntries scope).filterMap doc.declared? := by
  obtain ⟨targets, htargets, h⟩ := bind_eq_ok_iff.1 h
  obtain rfl := Except.ok.inj h
  rw [filterMap_of_mapM_eq_ok _ htargets]
  refine List.filterMap_congr fun entry _ => ?_
  rw [declared?, Option.bind_assoc]

/-- The parameters of a scope cannot be read when one of its entries cannot be resolved. -/
theorem exists_error_listedParameters_iff : (∃ e, doc.listedParameters scope = .error e) ↔
    ∃ entry ∈ parameterEntries scope, ∃ e, doc.resolve entry = .error e := by
  rw [← exists_error_mapM_iff, listedParameters, exists_error_bind_iff]
  simp [pure, Except.pure, parameterEntries]

/-- The parameters of an operation cannot be read when an entry of either list cannot be
resolved. -/
theorem exists_error_parameters_iff : (∃ e, doc.parameters item operation = .error e) ↔
    ∃ entry ∈ parameterEntries item ++ parameterEntries operation,
      ∃ e, doc.resolve entry = .error e := by
  have hlists : (∃ e, doc.parameters item operation = .error e) ↔
      (∃ e, doc.listedParameters item = .error e) ∨
        ∃ e, doc.listedParameters operation = .error e := by
    rw [parameters, exists_error_bind_iff]
    cases doc.listedParameters item with
    | error e => simp
    | ok shared => simp [exists_error_bind_iff, pure, Except.pure]
  rw [hlists, exists_error_listedParameters_iff, exists_error_listedParameters_iff]
  simp only [List.mem_append, or_and_right, exists_or]

/-! ## What the parameters of an operation are -/

theorem parameters_eq_ok (h : doc.parameters item operation = .ok params) :
    params = ((parameterEntries operation).filterMap doc.declared?).foldl Parameter.override
      ((parameterEntries item).filterMap doc.declared?) := by
  obtain ⟨shared, hshared, h⟩ := bind_eq_ok_iff.1 h
  obtain ⟨own, hown, h⟩ := bind_eq_ok_iff.1 h
  rw [← listedParameters_eq_ok hshared, ← listedParameters_eq_ok hown]
  exact (Except.ok.inj h).symm

/-- The names and locations of the path item come first, followed by the new ones. -/
theorem map_key_of_parameters (h : doc.parameters item operation = .ok params) :
    params.map Parameter.key = doc.declaredKeys item ++
      ((doc.declaredKeys operation).filter (· ∉ doc.declaredKeys item)).eraseDups := by
  rw [parameters_eq_ok h, Parameter.map_key_foldl_override, map_key_declared, map_key_declared]

theorem mem_map_key_iff_of_parameters (h : doc.parameters item operation = .ok params) :
    k ∈ params.map Parameter.key ↔ k ∈ doc.declaredKeys item ∨ k ∈ doc.declaredKeys operation := by
  rw [map_key_of_parameters h]
  by_cases hk : k ∈ doc.declaredKeys item <;> simp [hk]

theorem nodup_map_key_of_parameters (h : doc.parameters item operation = .ok params)
    (hdistinct : (doc.declaredKeys item).Nodup) : (params.map Parameter.key).Nodup := by
  rw [parameters_eq_ok h]
  exact Parameter.nodup_foldl_override (by rwa [map_key_declared]) _

/-- The parameter of the last entry that declares its name and location is the one that is found
from behind. -/
theorem find?_reverse_declared_eq_some (h : Parameter.find?
    ((parameterEntries scope).filterMap doc.declared?).reverse k = some p) :
    p.key = k ∧ ∃ front entry back, parameterEntries scope = front ++ entry :: back ∧
      doc.Declares entry p ∧ k ∉ back.filterMap doc.declaredKey? := by
  rw [Parameter.find?, ← List.filterMap_reverse, List.find?_filterMap] at h
  obtain ⟨entry, hfound, hentry⟩ := Option.bind_eq_some_iff.1 h
  obtain ⟨hkey, back, front, hsplit, hback⟩ := List.find?_eq_some_iff_append.1 hfound
  rw [hentry] at hkey
  refine ⟨by simpa using hkey, front.reverse, entry, back.reverse, ?_,
    declared?_eq_some_iff.1 hentry, ?_⟩
  · rw [← List.reverse_inj, hsplit]
    simp
  · intro hlater
    obtain ⟨later, hmem, hdeclared⟩ := List.mem_filterMap.1 hlater
    rw [← map_key_declared?, Option.map_eq_some_iff] at hdeclared
    obtain ⟨q, hq, hqkey⟩ := hdeclared
    have hother := hback later (List.mem_reverse.1 hmem)
    simp [hq, hqkey] at hother

/-- A parameter is the one of the last entry of the operation that declares its name and location,
or of an entry of the path item when no entry of the operation does. -/
theorem declares_of_mem_parameters (h : doc.parameters item operation = .ok params)
    (hdistinct : (doc.declaredKeys item).Nodup) (hp : p ∈ params) :
    (∃ front entry back, parameterEntries operation = front ++ entry :: back ∧
      doc.Declares entry p ∧ p.key ∉ back.filterMap doc.declaredKey?) ∨
    (p.key ∉ doc.declaredKeys operation ∧
      ∃ entry ∈ parameterEntries item, doc.Declares entry p) := by
  have hfound := (find?_eq_some_iff_of_nodup (nodup_map_key_of_parameters h hdistinct)).2 ⟨hp, rfl⟩
  rw [parameters_eq_ok h, ← Parameter.find?, Parameter.find?_foldl_override] at hfound
  cases hlast : Parameter.find?
      ((parameterEntries operation).filterMap doc.declared?).reverse p.key with
  | some q =>
    rw [hlast] at hfound
    obtain rfl := Option.some.inj hfound
    exact .inl (find?_reverse_declared_eq_some hlast).2
  | none =>
    rw [hlast] at hfound
    refine .inr ⟨?_, ?_⟩
    · rw [← map_key_declared]
      intro hmem
      obtain ⟨q, hq, hkey⟩ := List.mem_map.1 hmem
      exact absurd (List.find?_eq_none.1 hlast q (List.mem_reverse.2 hq)) (by simpa using hkey)
    · obtain ⟨entry, hentry, hdeclared⟩ :=
        List.mem_filterMap.1 (List.mem_of_find?_eq_some hfound)
      exact ⟨entry, hentry, declared?_eq_some_iff.1 hdeclared⟩

/-- The parameters of an operation. They cannot be read exactly when an entry of the path item or
the operation cannot be resolved. Otherwise, if no two entries of the path item declare one name
and location, no two parameters have one; there is a parameter of every name and location that an
entry of either list declares, and of no other; it is the one of the last entry of the operation
that declares them, or of the entry of the path item when there is none; and those of the path item
come first, in its order, followed by the others in the order in which the operation declares them
first. -/
theorem merged_parameters (doc : Document) (item operation : Members) :
    ((∃ e, doc.parameters item operation = .error e) ↔
      ∃ entry ∈ parameterEntries item ++ parameterEntries operation,
        ∃ e, doc.resolve entry = .error e) ∧
    ∀ params, doc.parameters item operation = .ok params → (doc.declaredKeys item).Nodup →
      (params.map Parameter.key).Nodup ∧
      (∀ k, k ∈ params.map Parameter.key ↔
        ∃ entry ∈ parameterEntries item ++ parameterEntries operation,
          ∃ object, doc.resolve entry = .ok (.obj object) ∧
            Members.string? object "name" = some k.1 ∧
            Members.string? object "in" = some k.2) ∧
      (∀ p ∈ params,
        (∃ front entry back, parameterEntries operation = front ++ entry :: back ∧
          doc.Declares entry p ∧ p.key ∉ back.filterMap doc.declaredKey?) ∨
        (p.key ∉ doc.declaredKeys operation ∧
          ∃ entry ∈ parameterEntries item, doc.Declares entry p)) ∧
      params.map Parameter.key = doc.declaredKeys item ++
        ((doc.declaredKeys operation).filter (· ∉ doc.declaredKeys item)).eraseDups := by
  refine ⟨exists_error_parameters_iff, ?_⟩
  intro params h hdistinct
  refine ⟨nodup_map_key_of_parameters h hdistinct, ?_,
    fun p => declares_of_mem_parameters h hdistinct, map_key_of_parameters h⟩
  intro k
  rw [mem_map_key_iff_of_parameters h, mem_declaredKeys_iff, mem_declaredKeys_iff]
  simp only [List.mem_append, or_and_right, exists_or]

/-- A document with a parameter that path items may refer to. -/
def lodgeDocument : Document :=
  ⟨[("components", .obj [("parameters", .obj [("guest", .obj
      [("in", .str "path"), ("name", .str "guest"), ("required", .bool true)])])]),
    ("openapi", .str "3.0.0"), ("paths", .obj [])], "3.0.0"⟩

/-- A path item with a parameter of its own and one by reference. -/
def lodgeItem : Members :=
  [("parameters", .arr [.obj [("in", .str "header"), ("name", .str "X-Trace")],
    .obj [("$ref", .str "#/components/parameters/guest")]])]

/-- An operation that declares a parameter of the path item anew, and a further one twice. -/
def lodgeOperation : Members :=
  [("parameters", .arr [.obj [("in", .str "query"), ("name", .str "limit")],
    .obj [("in", .str "header"), ("name", .str "X-Trace"), ("required", .bool true)],
    .obj [("in", .str "query"), ("name", .str "limit"), ("required", .bool true)]])]

/-- The parameters of the path item keep their places, and the further one is listed once. -/
theorem merged_parameters_lodge : ∃ params,
    lodgeDocument.parameters lodgeItem lodgeOperation = .ok params ∧
    (lodgeDocument.declaredKeys lodgeItem).Nodup ∧ (params.map Parameter.key).Nodup ∧
    params.map Parameter.key = [("X-Trace", "header"), ("guest", "path"), ("limit", "query")] ∧
    ¬ ∃ entry ∈ parameterEntries lodgeItem ++ parameterEntries lodgeOperation,
      ∃ e, lodgeDocument.resolve entry = .error e := by
  have hsome : (lodgeDocument.parameters lodgeItem lodgeOperation).toOption.isSome = true := by
    decide +kernel
  have hdistinct : (lodgeDocument.declaredKeys lodgeItem).Nodup := by decide +kernel
  obtain ⟨params, h⟩ := Option.isSome_iff_exists.1 hsome
  rw [toOption_eq_some_iff] at h
  obtain ⟨herror, hread⟩ := merged_parameters lodgeDocument lodgeItem lodgeOperation
  obtain ⟨hnodup, -, -, horder⟩ := hread params h hdistinct
  refine ⟨params, h, hdistinct, hnodup, horder.trans (by decide +kernel), ?_⟩
  rw [← herror, h]
  simp

end Document

end ApiGateway
