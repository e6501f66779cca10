import ApiGateway.Proofs.Entity.Stamp
import ApiGateway.Proofs.Plugin.Removal
import ApiGateway.Proofs.Text.ByteOrder

/-!
# Routes for all combinations of headers

The copies of a route are numbered, and the number of a copy says which values it has: its digits
in the mixed radix of the numbers of listed values, with the last header changing fastest. So every
combination of values belongs to one copy.

## Main definitions

* `digits`: the digits of a number in a mixed radix.
* `SortedByName`: headers in the order of their names, and of the parameters.
* `Picks`: headers with the values that digits stand for.
* `IsCopy`: a copy of a route with a name, an identifier and headers of its own.

## Main results

* `existsUnique_digits`: digits in range belong to one number.
* `forall₂_of_getElem?_combinations`: the combinations are in the order of their digits.
* `expansion_of_expandHeaders`: the routes of an operation.
-/
namespace ApiGateway

/-! ## Mixed radix -/

/-- The digits of a number in a mixed radix, the last one changing fastest. -/
def digits : List ℕ → ℕ → List ℕ
  | [], _ => []
  | _ :: sizes, k => k / sizes.prod :: digits sizes (k % sizes.prod)

/-- The digits of a number are in range. -/
theorem forall₂_digits {sizes : List ℕ} {k : ℕ} (h : k < sizes.prod) :
    List.Forall₂ (· < ·) (digits sizes k) sizes := by
  induction sizes generalizing k with
  | nil => exact .nil
  | cons size sizes ih =>
    rw [List.prod_cons] at h
    have hpos : 0 < sizes.prod := Nat.pos_of_mul_pos_left (Nat.zero_lt_of_lt h)
    exact .cons ((Nat.div_lt_iff_lt_mul hpos).2 h) (ih (Nat.mod_lt k hpos))

/-- Digits in range belong to one number. -/
theorem existsUnique_digits {sizes ds : List ℕ} (h : List.Forall₂ (· < ·) ds sizes) :
    ∃! k, k < sizes.prod ∧ digits sizes k = ds := by
  induction h with
  | nil => exact ⟨0, ⟨by simp, rfl⟩, fun k hk => by simpa using hk.1⟩
  | @cons d size ds sizes hd _ ih =>
    obtain ⟨k, ⟨hk, hdigits⟩, hunique⟩ := ih
    have hpos : 0 < sizes.prod := Nat.zero_lt_of_lt hk
    refine ⟨d * sizes.prod + k, ⟨?_, ?_⟩, ?_⟩
    · calc d * sizes.prod + k < d * sizes.prod + sizes.prod := Nat.add_lt_add_left hk _
        _ = (d + 1) * sizes.prod := (Nat.succ_mul _ _).symm
        _ ≤ size * sizes.prod := Nat.mul_le_mul_right _ hd
        _ = (size :: sizes).prod := List.prod_cons.symm
    · rw [digits, Nat.mul_comm, Nat.mul_add_div hpos, Nat.div_eq_of_lt hk, Nat.add_zero,
        Nat.mul_add_mod, Nat.mod_eq_of_lt hk, hdigits]
    · rintro j ⟨-, hj⟩
      obtain ⟨hquotient, hrest⟩ := List.cons.inj hj
      rw [← hunique _ ⟨Nat.mod_lt j hpos, hrest⟩, ← hquotient, Nat.div_add_mod']

/-! ## Combinations -/

/-- Blocks of one length in a row. -/
theorem getElem?_flatMap_of_length {α β : Type} {f : α → List β} {n : ℕ} (items : List α)
    (hlength : ∀ a, (f a).length = n) {k : ℕ} (hpos : 0 < n) :
    (items.flatMap f)[k]? = items[k / n]?.bind fun a => (f a)[k % n]? := by
  induction items generalizing k with
  | nil => simp
  | cons a items ih =>
    rw [List.flatMap_cons]
    by_cases hk : k < n
    · rw [List.getElem?_append_left (by rwa [hlength]), Nat.div_eq_of_lt hk, Nat.mod_eq_of_lt hk]
      rfl
    · have hle : n ≤ k := Nat.le_of_not_lt hk
      rw [List.getElem?_append_right (by rwa [hlength]), hlength, ih, ← Nat.mod_eq_sub_mod hle,
        Nat.div_eq_sub_div hpos hle, List.getElem?_cons_succ]

/-- The combination with a number has the values that its digits stand for. -/
theorem forall₂_of_getElem?_combinations {α : Type} {lists : List (List α)} {k : ℕ}
    {values : List α} (h : (combinations lists)[k]? = some values) :
    List.Forall₂ (fun pick value => pick.1[pick.2]? = some value)
      (lists.zip (digits (lists.map List.length) k)) values := by
  induction lists generalizing k values with
  | nil =>
    obtain ⟨hk, rfl⟩ := List.getElem?_eq_some_iff.1 h
    obtain rfl : k = 0 := by simpa [combinations] using hk
    exact .nil
  | cons list lists ih =>
    have hlength := length_combinations lists
    rw [combinations] at h
    rcases Nat.eq_zero_or_pos (combinations lists).length with hzero | hpos
    · rw [List.length_eq_zero_iff.1 hzero] at h
      simp at h
    · -- the quotient finds the block of a value, and the rest is the number inside the block
      rw [getElem?_flatMap_of_length list (fun _ => List.length_map _) hpos, hlength] at h
      obtain ⟨value, hvalue, h⟩ := Option.bind_eq_some_iff.1 h
      rw [List.getElem?_map] at h
      obtain ⟨rest, hrest, rfl⟩ := Option.map_eq_some_iff.1 h
      exact .cons hvalue (ih hrest)

/-! ## Headers -/

/-- Headers in the order of their names, as bytes compare; headers of one name keep their order. -/
structure SortedByName (found choices : List (String × List String)) : Prop where
  perm : choices.Perm found
  sorted : choices.Pairwise fun choice other => Text.bytes choice.1 ≤ Text.bytes other.1
  stable : ∀ name, choices.filter (fun choice => choice.1 = name) =
    found.filter fun choice => choice.1 = name

/-- The headers with listed values are found in the order of their names. -/
theorem sortedByName_headerChoices {doc : Document} {parameters : List Parameter}
    {choices : List (String × List String)} (h : headerChoices doc parameters = .ok choices) :
    SortedByName (parameters.filterMap (listedHeader? doc)) choices := by
  have htrans : ∀ a b c : String × List String, (!decide (b.1 < a.1)) = true →
      (!decide (c.1 < b.1)) = true → (!decide (c.1 < a.1)) = true := by
    intro a b c hab hbc
    simp only [Bool.not_eq_true', decide_eq_false_iff_not, not_lt] at hab hbc ⊢
    exact hab.trans hbc
  have htotal : ∀ a b : String × List String,
      (!decide (b.1 < a.1) || !decide (a.1 < b.1)) = true := by
    intro a b
    simp only [Bool.or_eq_true, Bool.not_eq_true', decide_eq_false_iff_not, not_lt]
    exact le_total a.1 b.1
  rw [headerChoices_eq_ok h]
  refine ⟨List.mergeSort_perm _ _, ?sorted, fun name => ?stable⟩
  case sorted =>
    refine (List.pairwise_mergeSort htrans htotal _).imp fun hle hlt => ?_
    rw [Text.bytes_lt_iff] at hlt
    simp [hlt] at hle
  case stable =>
    rw [filter_mergeSort htrans htotal]
    -- entries of one name are in order already
    refine List.mergeSort_of_pairwise (List.pairwise_of_forall_mem_list fun a ha b hb => ?_)
    obtain rfl : a.1 = name := by simpa using (List.mem_filter.1 ha).2
    obtain hb : b.1 = a.1 := by simpa using (List.mem_filter.1 hb).2
    simp [hb]

/-- Headers, each with the value of its list that a digit stands for. -/
def Picks (choices : List (String × List String)) (ds : List ℕ)
    (headers : List (String × String)) : Prop :=
  List.Forall₂ (fun pick header => header.1 = pick.1.1 ∧ pick.1.2[pick.2]? = some header.2)
    (choices.zip ds) headers

theorem picks_zip {choices : List (String × List String)} {ds : List ℕ} {values : List String}
    (h : List.Forall₂ (fun pick value => pick.1[pick.2]? = some value)
      ((choices.map (·.2)).zip ds) values) :
    Picks choices ds ((choices.map (·.1)).zip values) := by
  induction choices generalizing ds values with
  | nil => exact .nil
  | cons choice choices ih =>
    cases ds with
    | nil =>
      cases h
      exact .nil
    | cons d ds =>
      cases h with
      | cons hvalue hrest => exact .cons ⟨rfl, hvalue⟩ (ih hrest)

/-- A header of a route has its one value; of headers of one name the last stays. -/
theorem get?_headerMembers (headers : List (String × String)) (name : String) :
    (headerMembers headers).get? name =
      (headers.reverse.lookup name).map fun value => .ofStrings [value] := by
  induction headers using List.reverseRecOn with
  | nil => rfl
  | append_singleton headers header ih =>
    have hlast : headerMembers (headers ++ [header]) =
        (headerMembers headers).insert header.1 (.ofStrings [header.2]) := by
      simp [headerMembers, Members.ofList]
    rw [hlast, Members.get?_insert, ih, List.reverse_append, List.reverse_singleton,
      List.singleton_append, List.lookup_cons]
    by_cases hname : name = header.1
    · simp [hname]
    · simp [hname, beq_false_of_ne hname]

/-! ## Copies -/

/-- A copy of a route with a name and headers of its own, stamped under its name. -/
structure IsCopy (stamp : Stamp) (route : Members) (name : String)
    (headers : List (String × String)) (own : Members) : Prop where
  name_eq : own.get? "name" = some (.str name)
  bears : Bears stamp name "route" own
  id_eq_of_skipId : stamp.skipId = true → own.get? "id" = route.get? "id"
  headers_eq : ∃ members : Members, own.get? "headers" = some (.obj members) ∧
    ∀ header, members.get? header =
      (headers.reverse.lookup header).map fun value => .ofStrings [value]
  get?_eq : ∀ key, key ∉ ["name", "id", "tags", "headers"] → own.get? key = route.get? key

theorem isCopy_numberedRoute (naming : Naming) (stamp : Stamp) (base : String) (route : Members)
    (number : ℕ) (headers : List (String × String)) :
    IsCopy stamp route (base ++ String.singleton naming.separator ++ toString number) headers
      (numberedRoute naming stamp base route number headers) := by
  refine ⟨?name, bears_numberedRoute naming stamp base route number headers, fun hskip => ?id,
    ⟨headerMembers headers, ?headers, get?_headerMembers headers⟩, fun key hkey => ?others⟩
  case name => simp [numberedRoute, Members.get?_insert]
  case id => simp [numberedRoute, Members.get?_insert, Stamp.apply, hskip]
  case headers => simp [numberedRoute]
  case others =>
    simp only [List.mem_cons, List.not_mem_nil, or_false, not_or] at hkey
    obtain ⟨hname, hid, htags, hheaders⟩ := hkey
    exact get?_numberedRoute hid htags hname hheaders _ _ _ _ _ _

/-- Numbers tell names apart. -/
theorem nodup_numberedNames (naming : Naming) (base : String) (n : ℕ) :
    ((List.range n).map fun i =>
      base ++ String.singleton naming.separator ++ toString (i + 1)).Nodup := by
  refine List.nodup_range.map fun i j h => ?_
  have hrepr : Nat.repr (i + 1) = Nat.repr (j + 1) := (String.append_right_inj _).1 h
  simpa using Nat.repr_inj.1 hrepr

/-- The routes of an operation. Without headers that list values it has its route alone. Otherwise
it has a copy for each combination of values: the values of a copy are those that the digits of its
position stand for, and its name ends in the number after its position. Digits in range belong to
one copy, and the copies have different names. -/
theorem expansion_of_expandHeaders {doc : Document} {naming : Naming} {stamp : Stamp}
    {base : String} {parameters : List Parameter} {route : Members} {routes : List Members}
    (h : expandHeaders doc naming stamp base parameters route = .ok routes) :
    ∃ choices sizes, SortedByName (parameters.filterMap (listedHeader? doc)) choices ∧
      sizes = choices.map (fun choice => choice.2.length) ∧
      (choices = [] → routes = [route]) ∧
      (choices ≠ [] → routes.length = sizes.prod ∧
        (∀ k own, routes[k]? = some own → ∃ headers, Picks choices (digits sizes k) headers ∧
          IsCopy stamp route (base ++ String.singleton naming.separator ++ toString (k + 1))
            headers own) ∧
        (∀ k < routes.length, List.Forall₂ (· < ·) (digits sizes k) sizes) ∧
        (∀ ds, List.Forall₂ (· < ·) ds sizes →
          ∃! k, k < routes.length ∧ digits sizes k = ds)) ∧
      (routes.map entityName).Nodup := by
  obtain ⟨choices, hchoices, hroutes⟩ := expandHeaders_eq_ok h
  refine ⟨choices, _, sortedByName_headerChoices hchoices, rfl, ?_⟩
  obtain ⟨hnil, rfl⟩ | ⟨hne, rfl⟩ := hroutes
  · exact ⟨fun _ => rfl, fun hne => absurd hnil hne, by simp⟩
  · have hlists : choices.map (fun choice => choice.2.length) =
        (choices.map (·.2)).map List.length := by
      rw [List.map_map]
      rfl
    have hlength : (combinations (choices.map (·.2))).length =
        (choices.map fun choice => choice.2.length).prod := by
      rw [length_combinations, hlists]
    refine ⟨fun hnil => absurd hnil hne, fun _ => ⟨?count, ?copies, ?range, ?unique⟩, ?names⟩
    case count => rw [List.length_mapIdx, hlength]
    case copies =>
      intro k own hown
      rw [List.getElem?_mapIdx] at hown
      obtain ⟨values, hvalues, rfl⟩ := Option.map_eq_some_iff.1 hown
      refine ⟨_, picks_zip ?_, isCopy_numberedRoute naming stamp base route (k + 1) _⟩
      rw [hlists]
      exact forall₂_of_getElem?_combinations hvalues
    case range =>
      intro k hk
      rw [List.length_mapIdx, hlength] at hk
      exact forall₂_digits hk
    case unique =>
      intro ds hds
      rw [List.length_mapIdx, hlength]
      exact existsUnique_digits hds
    case names =>
      have hnames := nodup_numberedNames naming base (combinations (choices.map (·.2))).length
      refine (congrArg List.Nodup (List.ext_getElem (by simp) fun i _ _ => ?_)).mpr hnames
      simp [entityName_numberedRoute]

/-- A header parameter that lists two values. -/
def pairHeader (name first second : String) : Parameter where
  name := name
  location := "header"
  required := false
  style := none
  explode := none
  schema := some (.obj [("enum", .ofStrings [first, second])])

/-- The headers of two versions and two languages. -/
def versionHeaders : List Parameter :=
  [pairHeader "X-Version" "v1" "v2", pairHeader "Accept-Language" "en" "fr"]

/-- Two versions and two languages give four routes, the versions changing faster. -/
theorem expansion_of_expandHeaders_versions :
    ∃ routes, expandHeaders ⟨[], "3.0.0"⟩ { flat := false } ⟨[], ⟨0⟩, true, Uuid.named⟩ "get"
        versionHeaders [("name", .str "get")] = .ok routes ∧
      routes.map entityName = ["get_1", "get_2", "get_3", "get_4"] ∧
      ∃ choices sizes,
        SortedByName [("X-Version", ["v1", "v2"]), ("Accept-Language", ["en", "fr"])] choices ∧
        (∀ k own, routes[k]? = some own → ∃ headers, Picks choices (digits sizes k) headers ∧
          IsCopy ⟨[], ⟨0⟩, true, Uuid.named⟩ [("name", .str "get")]
            ("get" ++ "_" ++ toString (k + 1)) headers own) ∧
        ∀ ds, List.Forall₂ (· < ·) ds sizes → ∃! k, k < 4 ∧ digits sizes k = ds := by
  have hfound : (versionHeaders.filter fun p => p.location == "header").mapM
      (headerValues ⟨[], "3.0.0"⟩) =
      .ok [some ("X-Version", ["v1", "v2"]), some ("Accept-Language", ["en", "fr"])] := by
    cbv
  have hlt : "Accept-Language" < "X-Version" := by decide
  have hsorted : ([("X-Version", ["v1", "v2"]), ("Accept-Language", ["en", "fr"])] :
      List (String × List String)).mergeSort (fun p q => !decide (q.1 < p.1)) =
      [("Accept-Language", ["en", "fr"]), ("X-Version", ["v1", "v2"])] := by
    simpa [List.mergeSort, List.MergeSort.Internal.splitInTwo, List.merge] using hlt
  have hchoices : headerChoices ⟨[], "3.0.0"⟩ versionHeaders =
      .ok [("Accept-Language", ["en", "fr"]), ("X-Version", ["v1", "v2"])] := by
    rw [headerChoices, hfound]
    exact congrArg Except.ok hsorted
  have hroutes : ∃ routes, expandHeaders ⟨[], "3.0.0"⟩ { flat := false }
      ⟨[], ⟨0⟩, true, Uuid.named⟩ "get" versionHeaders [("name", .str "get")] = .ok routes ∧
      routes.map entityName = ["get_1", "get_2", "get_3", "get_4"] := by
    rw [expandHeaders, hchoices]
    exact ⟨_, rfl, by cbv⟩
  have hlisted : versionHeaders.filterMap (listedHeader? ⟨[], "3.0.0"⟩) =
      [("X-Version", ["v1", "v2"]), ("Accept-Language", ["en", "fr"])] := by
    cbv
  obtain ⟨routes, hroutes, hnames⟩ := hroutes
  obtain ⟨choices, sizes, hsame, -, -, hcopies, -⟩ := expansion_of_expandHeaders hroutes
  rw [hlisted] at hsame
  have hne : choices ≠ [] := by
    rintro rfl
    cases hsame.perm.length_eq
  have hlength : routes.length = 4 := by simpa using congrArg List.length hnames
  obtain ⟨-, hcopies, -, hunique⟩ := hcopies hne
  rw [hlength] at hunique
  exact ⟨routes, hroutes, hnames, choices, sizes, hsame, hcopies, hunique⟩

end ApiGateway
