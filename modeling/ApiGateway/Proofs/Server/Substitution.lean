import ApiGateway.Proofs.Text.Replace
import ApiGateway.Server.Basic
import Mathlib.Data.List.Perm.Basic

/-!
# Variables in addresses

The variables of a server are replaced one after another, each in the text that the earlier ones
have left. In one pass they would all be replaced at once: an address is a list of pieces, which are
characters and names in braces, and each name is filled with the default of its variable. The two
agree as long as no placeholder comes up in what defaults have made of the text between the places
of its variable. A default with braces can make one come up, and then the order matters.

## Main definitions

* `Address.pieces`: an address as characters and names in braces.
* `Address.fill`: an address with all defaults filled in at once.
* `Address.Resurfaces`: a placeholder that comes up where the address does not have it.

## Main results

* `Address.replaceAll_fill_iff`: when one more replacement is one more default filled in.
* `Address.substitute_take_iff`: when replacing one variable after another is one pass.
* `Address.not_resurfaces`: texts without braces make no placeholder come up.
-/
namespace ApiGateway

/-! ## Pieces of an address -/

namespace Address

/-- A piece of an address: a character, or a name in braces. -/
inductive Piece where
  | char (c : Char)
  | slot (name : String)
  deriving DecidableEq

/-- The name that a brace closes, with the pieces that follow. Another opening brace cuts it off. -/
def closed? : List Piece → Option (List Char × List Piece)
  | .char c :: pieces =>
    if c = '\x7d' then some ([], pieces)
    else if c = '\x7b' then none
    else (closed? pieces).map fun (name, rest) => (c :: name, rest)
  | _ => none

/-- The pieces of an address. A brace opens a name when the next brace closes it. -/
def pieces : List Char → List Piece
  | [] => []
  | c :: text =>
    match if c = '\x7b' then closed? (pieces text) else none with
    | some (name, rest) => .slot (String.ofList name) :: rest
    | none => .char c :: pieces text

/-- What stands for a piece where variables have defaults: a name without one stays in its
braces. -/
def Piece.fill (defaults : List (String × String)) : Piece → List Char
  | .char c => [c]
  | .slot name =>
    match defaults.lookup name with
    | some value => value.toList
    | none => Target.placeholder name

/-- An address whose names have all been replaced by defaults at once. -/
def fill (defaults : List (String × String)) (address : String) : String :=
  String.ofList ((pieces address.toList).flatMap (Piece.fill defaults))

/-- The texts before, between and behind the places of a name, filled with the defaults of
others. -/
def stretches (defaults : List (String × String)) (name : String) (address : String) :
    List (List Char) :=
  ((pieces address.toList).splitOn (.slot name)).map (·.flatMap (Piece.fill defaults))

section Pieces
variable {ps rest : List Piece} {name : List Char}

theorem closed?_eq_some (h : closed? ps = some (name, rest)) :
    ps = name.map .char ++ .char '\x7d' :: rest ∧ ∀ c ∈ name, c ≠ '\x7b' ∧ c ≠ '\x7d' := by
  induction ps generalizing name with
  | nil => cases h
  | cons piece ps ih =>
    cases piece with
    | slot other => cases h
    | char c =>
      rw [closed?] at h
      split at h
      · rename_i hc
        obtain ⟨rfl, rfl⟩ := Prod.mk.inj (Option.some.inj h)
        simp [hc]
      · rename_i hclose
        split at h
        · cases h
        · rename_i hopen
          obtain ⟨⟨name', rest'⟩, hrest, heq⟩ := Option.map_eq_some_iff.1 h
          obtain ⟨rfl, rfl⟩ := Prod.mk.inj heq
          obtain ⟨rfl, hname⟩ := ih hrest
          refine ⟨rfl, fun d hd => ?_⟩
          rcases List.mem_cons.1 hd with rfl | hd
          · exact ⟨hopen, hclose⟩
          · exact hname d hd

/-- Pieces by what stands at the front of the text. -/
theorem pieces_cons (c : Char) (text : List Char) :
    (∃ name rest, c = '\x7b' ∧ pieces text = name.map .char ++ .char '\x7d' :: rest ∧
      (∀ d ∈ name, d ≠ '\x7b' ∧ d ≠ '\x7d') ∧
      pieces (c :: text) = .slot (String.ofList name) :: rest) ∨
    pieces (c :: text) = .char c :: pieces text := by
  rw [pieces]
  split
  · rename_i name rest h
    split at h
    · rename_i hc
      obtain ⟨hpieces, hname⟩ := closed?_eq_some h
      exact Or.inl ⟨name, rest, hc, hpieces, hname, rfl⟩
    · cases h
  · exact Or.inr rfl

/-- No name in braces has a brace. -/
theorem of_slot_mem {text : List Char} {name : String} (h : .slot name ∈ pieces text) :
    ∀ c ∈ name.toList, c ≠ '\x7b' ∧ c ≠ '\x7d' := by
  induction text with
  | nil => cases h
  | cons c text ih =>
    obtain ⟨chars, rest, -, htext, hchars, hpieces⟩ | hpieces := pieces_cons c text
    · rw [hpieces, List.mem_cons] at h
      rcases h with heq | h
      · obtain rfl := Piece.slot.inj heq
        simpa using hchars
      · exact ih (by rw [htext]; simp [h])
    · rw [hpieces, List.mem_cons] at h
      exact ih (h.resolve_left (by simp))

/-- Where no variable has a default, every address stays. -/
theorem flatMap_fill_nil (text : List Char) : (pieces text).flatMap (Piece.fill []) = text := by
  induction text with
  | nil => rfl
  | cons c text ih =>
    obtain ⟨chars, rest, rfl, htext, -, hpieces⟩ | hpieces := pieces_cons c text
    · have hchars : (chars.map Piece.char).flatMap (Piece.fill []) = chars := by
        rw [List.flatMap_map]
        exact List.flatMap_singleton' chars
      rw [htext, List.flatMap_append, hchars] at ih
      rw [hpieces, List.flatMap_cons, ← ih]
      simp [Piece.fill, Target.placeholder]
    · rw [hpieces, List.flatMap_cons, ih]
      rfl

end Pieces

/-! ## Filling stretch by stretch -/

section Lists
variable {α β : Type}

theorem flatMap_intercalate (f : α → List β) (a : α) (parts : List (List α)) :
    ([a].intercalate parts).flatMap f = (f a).intercalate (parts.map (·.flatMap f)) := by
  induction parts with
  | nil => rfl
  | cons part parts ih =>
    cases parts with
    | nil => simp
    | cons next parts =>
      rw [List.intercalate_cons_cons, List.flatMap_append, List.flatMap_append, ih]
      simp [List.intercalate_cons_cons]

/-- The parts of a list hold items of the list other than the one it is split at. -/
theorem of_mem_splitOn [DecidableEq α] {a : α} {items part : List α}
    (h : part ∈ items.splitOn a) : a ∉ part ∧ part ⊆ items := by
  induction items generalizing part with
  | nil =>
    obtain rfl : part = [] := by simpa using h
    simp
  | cons b items ih =>
    rw [List.splitOn_cons_eq_if_modifyHead] at h
    split at h
    · rcases List.mem_cons.1 h with rfl | h
      · simp
      · exact (ih h).imp_right (List.subset_cons_of_subset b)
    · rename_i hne
      obtain ⟨first, others, hsplit⟩ := List.exists_cons_of_ne_nil (List.splitOn_ne_nil a items)
      rw [hsplit, List.modifyHead_cons, List.mem_cons] at h
      rcases h with rfl | h
      · obtain ⟨hfirst, hsubset⟩ := ih (hsplit ▸ List.mem_cons_self)
        rw [List.mem_cons, not_or]
        exact ⟨⟨fun heq => hne (beq_iff_eq.2 heq.symm), hfirst⟩, List.cons_subset_cons b hsubset⟩
      · exact (ih (hsplit ▸ List.mem_cons_of_mem _ h)).imp_right (List.subset_cons_of_subset b)

end Lists

section Filling
variable {defaults : List (String × String)} {name value address : String}

/-- Defaults of other names fill the stretches around a name. -/
theorem fill_eq_intercalate (h : defaults.lookup name = none) (address : String) :
    (fill defaults address).toList =
      (Target.placeholder name).intercalate (stretches defaults name address) := by
  have hpieces : pieces address.toList =
      [Piece.slot name].intercalate ((pieces address.toList).splitOn (.slot name)) :=
    (List.intercalate_splitOn _).symm
  have hslot : Piece.fill defaults (.slot name) = Target.placeholder name := by
    rw [Piece.fill, h]
  rw [fill, String.toList_ofList, stretches, ← hslot, ← flatMap_intercalate, ← hpieces]

/-- A default for one more name goes between the same stretches. -/
theorem fill_append_eq_intercalate (h : defaults.lookup name = none) (value address : String) :
    (fill (defaults ++ [(name, value)]) address).toList =
      value.toList.intercalate (stretches defaults name address) := by
  have hpieces : pieces address.toList =
      [Piece.slot name].intercalate ((pieces address.toList).splitOn (.slot name)) :=
    (List.intercalate_splitOn _).symm
  have hslot : Piece.fill (defaults ++ [(name, value)]) (.slot name) = value.toList := by
    simp [Piece.fill, List.lookup_append, h]
  have hother : ∀ piece, piece ≠ .slot name →
      Piece.fill (defaults ++ [(name, value)]) piece = Piece.fill defaults piece := by
    intro piece hpiece
    cases piece with
    | char c => rfl
    | slot other =>
      have hne : (other == name) = false := by simpa using hpiece
      simp [Piece.fill, List.lookup_append, hne]
  have hstretches : ((pieces address.toList).splitOn (.slot name)).map
      (·.flatMap (Piece.fill (defaults ++ [(name, value)]))) = stretches defaults name address := by
    refine List.map_congr_left fun part hpart => List.flatMap_congr fun piece hpiece => ?_
    exact hother piece fun heq => (of_mem_splitOn hpart).1 (heq ▸ hpiece)
  rw [fill, String.toList_ofList, ← hstretches, ← hslot, ← flatMap_intercalate, ← hpieces]

end Filling

/-- The placeholder of a variable comes up where the address does not have it: in what earlier
defaults have made of the text around its places. -/
def Resurfaces (defaults : List (String × String)) (name address : String) : Prop :=
  ∃ stretch ∈ stretches defaults name address, Target.placeholder name <:+: stretch

section Steps
variable {defaults : List (String × String)} {name value address : String}

theorem placeholder_ne_nil (name : String) : Target.placeholder name ≠ [] :=
  List.cons_ne_nil _ _

/-- Replacing one more variable is filling in its default exactly when its placeholder does not
come up anew, or stands for itself. -/
theorem replaceAll_fill_iff (h : defaults.lookup name = none) (value address : String) :
    Text.replaceAll (Target.placeholder name) value.toList (fill defaults address).toList =
        (fill (defaults ++ [(name, value)]) address).toList ↔
      value.toList = Target.placeholder name ∨ ¬ Resurfaces defaults name address := by
  rw [fill_eq_intercalate h, fill_append_eq_intercalate h]
  simp only [Resurfaces, not_exists, not_and]
  by_cases hslot : .slot name ∈ pieces address.toList
  · have hopen : '\x7b' ∉ name.toList ++ ['\x7d'] := by
      rw [List.mem_append, not_or]
      exact ⟨fun hc => (of_slot_mem hslot _ hc).1 rfl, by decide⟩
    exact Text.replaceAll_intercalate_eq_iff hopen _
  · have hsingle : stretches defaults name address =
        [(pieces address.toList).flatMap (Piece.fill defaults)] := by
      rw [stretches, List.splitOn_eq_singleton hslot, List.map_singleton]
    rw [hsingle, List.intercalate_singleton, List.intercalate_singleton,
      Text.replaceAll_eq_self_iff (placeholder_ne_nil name)]
    simp

theorem substitute_append (defaults : List (String × String)) (name value address : String) :
    Target.substitute (defaults ++ [(name, value)]) address = String.ofList
      (Text.replaceAll (Target.placeholder name) value.toList
        (Target.substitute defaults address).toList) := by
  simp [Target.substitute]

theorem fill_nil (address : String) : fill [] address = address := by
  rw [fill, flatMap_fill_nil, String.ofList_toList]

/-- One variable after another is one pass, at every step, exactly when no placeholder comes up
anew for a variable that is still to be replaced by something else. -/
theorem substitute_take_iff {order : List (String × String)}
    (hnodup : (order.map Prod.fst).Nodup) (address : String) :
    (∀ k, Target.substitute (order.take k) address = fill (order.take k) address) ↔
      ∀ k (hk : k < order.length), order[k].2.toList = Target.placeholder order[k].1 ∨
        ¬ Resurfaces (order.take k) order[k].1 address := by
  have hlookup : ∀ k (hk : k < order.length), (order.take k).lookup order[k].1 = none := by
    intro k hk
    refine List.lookup_eq_none_iff.2 fun entry hentry => ?_
    obtain ⟨i, hi, rfl⟩ := List.mem_take_iff_getElem.1 hentry
    have hbelow : i < k := by omega
    have hne := List.pairwise_iff_getElem.1 (List.pairwise_map.1 hnodup) i k (by omega) hk hbelow
    simpa using hne.symm
  have hstep : ∀ k (hk : k < order.length),
      Target.substitute (order.take k) address = fill (order.take k) address →
        (Target.substitute (order.take (k + 1)) address = fill (order.take (k + 1)) address ↔
          order[k].2.toList = Target.placeholder order[k].1 ∨
            ¬ Resurfaces (order.take k) order[k].1 address) := by
    intro k hk hprevious
    have htake : order.take (k + 1) = order.take k ++ [(order[k].1, order[k].2)] :=
      (List.take_concat_get' order k hk).symm
    rw [htake, substitute_append, hprevious, ← replaceAll_fill_iff (hlookup k hk),
      ← String.toList_inj, String.toList_ofList]
  constructor
  · intro h k hk
    exact (hstep k hk (h k)).1 (h (k + 1))
  · intro h k
    induction k with
    | zero => rw [List.take_zero, fill_nil]; rfl
    | succ k ih =>
      by_cases hk : k < order.length
      · exact (hstep k hk ih).2 (h k hk)
      · rw [List.take_of_length_le (by omega)] at ih ⊢
        exact ih

end Steps

/-! ## Addresses in which no placeholder comes up -/

section Plain
variable {defaults order : List (String × String)} {name : String}

theorem lookup_eq_some_iff_of_nodup (h : (defaults.map Prod.fst).Nodup) {value : String} :
    defaults.lookup name = some value ↔ (name, value) ∈ defaults := by
  induction defaults with
  | nil => simp
  | cons entry defaults ih =>
    obtain ⟨key, text⟩ := entry
    rw [List.map_cons, List.nodup_cons] at h
    rw [List.lookup_cons]
    split
    · rename_i hkey
      obtain rfl := beq_iff_eq.1 hkey
      have habsent : (name, value) ∉ defaults :=
        fun hmem => h.1 (List.mem_map.2 ⟨_, hmem, rfl⟩)
      simp [habsent, eq_comm]
    · rename_i hkey
      have hne : name ≠ key := by simpa using hkey
      simp [ih h.2, hne]

/-- The order of defaults does not matter for one pass. -/
theorem fill_perm (hnodup : (defaults.map Prod.fst).Nodup) (hperm : order.Perm defaults)
    (address : String) : fill order address = fill defaults address := by
  have hnodup' : (order.map Prod.fst).Nodup := (hperm.map Prod.fst).nodup_iff.2 hnodup
  have hlookup : ∀ name, order.lookup name = defaults.lookup name := by
    intro name
    refine Option.ext fun value => ?_
    rw [lookup_eq_some_iff_of_nodup hnodup', lookup_eq_some_iff_of_nodup hnodup, hperm.mem_iff]
  have hfill : Piece.fill order = Piece.fill defaults := by
    funext piece
    cases piece with
    | char c => rfl
    | slot name => rw [Piece.fill, hlookup, Piece.fill]
  rw [fill, hfill, fill]

/-- A brace that stands in an address is that of a name without a default, when neither defaults nor
the text between names have opening braces. -/
theorem not_infix_flatMap_fill {ps : List Piece}
    (hdefaults : ∀ entry ∈ defaults, '\x7b' ∉ entry.2.toList) (hname : '\x7d' ∉ name.toList)
    (hopening : .char '\x7b' ∉ ps) (hother : .slot name ∉ ps)
    (hslots : ∀ other, .slot other ∈ ps → ∀ c ∈ other.toList, c ≠ '\x7b' ∧ c ≠ '\x7d') :
    ¬ Target.placeholder name <:+: ps.flatMap (Piece.fill defaults) := by
  intro h
  induction ps with
  | nil => exact placeholder_ne_nil name (List.infix_nil.1 h)
  | cons piece ps ih =>
    rw [List.mem_cons, not_or] at hopening hother
    have hrest := ih hopening.2 hother.2
      fun other hmem => hslots other (List.mem_cons_of_mem _ hmem)
    rw [List.flatMap_cons] at h
    cases piece with
    | char c =>
      refine hrest (Text.infix_of_infix_append ?_ h)
      rw [Piece.fill, List.mem_singleton]
      exact fun hc => hopening.1 (congrArg Piece.char hc)
    | slot other =>
      have hbraces := hslots other List.mem_cons_self
      cases hlookup : defaults.lookup other with
      | some value =>
        have hfill : Piece.fill defaults (.slot other) = value.toList := by rw [Piece.fill, hlookup]
        obtain ⟨front, back, hsplit, -⟩ := List.lookup_eq_some_iff.1 hlookup
        rw [hfill] at h
        exact hrest (Text.infix_of_infix_append (hdefaults (other, value) (by simp [hsplit])) h)
      | none =>
        have hfill : Piece.fill defaults (.slot other) =
            '\x7b' :: (other.toList ++ ['\x7d']) := by rw [Piece.fill, hlookup]; rfl
        rw [hfill, List.cons_append, Target.placeholder, List.cons_append,
          List.infix_cons_iff] at h
        rcases h with h | h
        · -- both names end at the first closing brace
          obtain ⟨behind, hbehind⟩ := (List.cons_prefix_cons.1 h).2
          have hclosing : '\x7d' ∉ other.toList := fun hc => (hbraces _ hc).2 rfl
          have hsplit := congrArg (List.splitOn '\x7d') hbehind
          simp only [List.append_assoc, List.cons_append, List.nil_append] at hsplit
          rw [List.splitOn_append_cons_self_of_not_mem hname,
            List.splitOn_append_cons_self_of_not_mem hclosing] at hsplit
          exact hother.1 (congrArg Piece.slot (String.toList_inj.1 (List.cons.inj hsplit).1))
        · refine hrest (Text.infix_of_infix_append ?_ h)
          rw [List.mem_append, not_or]
          exact ⟨fun hc => (hbraces _ hc).1 rfl, by decide⟩

theorem not_resurfaces {address : String}
    (hdefaults : ∀ entry ∈ defaults, '\x7b' ∉ entry.2.toList) (hname : '\x7d' ∉ name.toList)
    (haddress : .char '\x7b' ∉ pieces address.toList) : ¬ Resurfaces defaults name address := by
  rintro ⟨stretch, hstretch, hinfix⟩
  obtain ⟨part, hpart, rfl⟩ := List.mem_map.1 hstretch
  obtain ⟨hother, hsubset⟩ := of_mem_splitOn hpart
  exact not_infix_flatMap_fill hdefaults hname (fun h => haddress (hsubset h)) hother
    (fun other h => of_slot_mem (hsubset h)) hinfix

end Plain

end Address

namespace Target

/-- Variables that are replaced one after another. At every step this is one pass exactly when no
placeholder comes up anew, unless it stands for itself; it is, in any order, when names have no
braces and neither the defaults nor the text between names have opening ones. -/
theorem one_pass_of_substitute {server : Json} {order : List (String × String)}
    (hnodup : ((variableDefaults server).map Prod.fst).Nodup)
    (hperm : order.Perm (variableDefaults server)) (address : String) :
    ((∀ k, substitute (order.take k) address = Address.fill (order.take k) address) ↔
      ∀ k (hk : k < order.length), order[k].2.toList = placeholder order[k].1 ∨
        ¬ Address.Resurfaces (order.take k) order[k].1 address) ∧
    ((∀ entry ∈ variableDefaults server, '\x7d' ∉ entry.1.toList ∧ '\x7b' ∉ entry.2.toList) →
      .char '\x7b' ∉ Address.pieces address.toList →
        substitute order address = Address.fill (variableDefaults server) address) := by
  have hnodup' : (order.map Prod.fst).Nodup := (hperm.map Prod.fst).nodup_iff.2 hnodup
  have hsteps := Address.substitute_take_iff hnodup' address
  refine ⟨hsteps, fun hplain haddress => ?_⟩
  have hentry : ∀ entry ∈ order, '\x7d' ∉ entry.1.toList ∧ '\x7b' ∉ entry.2.toList :=
    fun entry h => hplain entry (hperm.subset h)
  have hrun := hsteps.2 fun k hk => Or.inr (Address.not_resurfaces
    (fun entry h => (hentry entry (List.mem_of_mem_take h)).2)
    (hentry _ (List.getElem_mem hk)).1 haddress)
  have hlast := hrun order.length
  rwa [List.take_length, Address.fill_perm hnodup hperm] at hlast

/-- An address with two variables. -/
def regionAddress : String := "https://\x7bregion\x7d.example.com/\x7bversion\x7d"

/-- A server whose variables have defaults without braces. -/
def regionServer : Json :=
  .obj [("url", .str regionAddress),
    ("variables", .obj [("region", .obj [("default", .str "eu")]),
      ("version", .obj [("default", .str "v2")])])]

/-- The variables take their defaults in either order. -/
theorem one_pass_of_substitute_region :
    substitute (variableDefaults regionServer).reverse regionAddress =
        Address.fill (variableDefaults regionServer) regionAddress ∧
      Address.fill (variableDefaults regionServer) regionAddress =
        "https://eu.example.com/v2" :=
  ⟨(one_pass_of_substitute (by decide +kernel) (List.reverse_perm _) _).2 (by decide +kernel)
    (by decide +kernel), by decide +kernel⟩

/-- An address with two variables. -/
def aliasAddress : String := "https://api.example.com/\x7bbase\x7d/\x7bversion\x7d"

/-- A server of which one variable has the placeholder of the other as its default. -/
def aliasServer : Json :=
  .obj [("url", .str aliasAddress),
    ("variables", .obj [("base", .obj [("default", .str "\x7bversion\x7d")]),
      ("version", .obj [("default", .str "v2")])])]

/-- The default of the first variable is replaced in turn; in the other order it stays. -/
theorem substitutes_default_of_alias :
    substitute (variableDefaults aliasServer) aliasAddress ≠
        Address.fill (variableDefaults aliasServer) aliasAddress ∧
      substitute (variableDefaults aliasServer) aliasAddress ≠
        substitute (variableDefaults aliasServer).reverse aliasAddress ∧
      substitute (variableDefaults aliasServer) aliasAddress = "https://api.example.com/v2/v2" ∧
      Address.fill (variableDefaults aliasServer) aliasAddress =
        "https://api.example.com/\x7bversion\x7d/v2" ∧
      (parse aliasServer).toOption.map Target.path = some "/v2/v2" := by
  decide +kernel

end Target

end ApiGateway
