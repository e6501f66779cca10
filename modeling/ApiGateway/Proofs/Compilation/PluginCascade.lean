import ApiGateway.Proofs.Compilation.Planned

/-!
# The cascade of plugins

A scope keeps two lists: the plugins in effect, and those of them that its service does not
carry. Both stand for the innermost declarations of a stretch of scopes: the first one of all
scopes from the document inwards, the second one of the scopes inside the one that made the
service. The two together with the list of the service are one invariant of the walk.

## Main definitions

* `Frame`: a scope with its place and its object.
* `Walk`: the scopes that the walk enters.
* `innermost`: what the innermost declaring scope declares under a name.
* `Represents`: a plugin list that stands for the innermost declarations.
* `Hosts`: a build with the service that a scope made.
* `Layered`: the invariant.
-/
namespace ApiGateway

open Plugin (Ordered find? payload validatorName)

/-- Where a scope stands: it is the document, the path of a template, or the operation of a
method. -/
inductive Place where
  | document
  | path (template : String)
  | operation (method : String)
  deriving DecidableEq

/-- A scope with its place and its object. -/
structure Frame where
  place : Place
  object : Members
  scope : Scope

/-- The scopes that the walk enters, each with the build at that moment and the scopes around
it, the nearest first. -/
inductive Walk (ctx : Context) (base : String) : Build → Frame → List Frame → Prop
  | document {build : Build} {root : Scope}
      (enter : Scope.ofDocument ctx {} base = .ok (build, root)) :
      Walk ctx base build ⟨.document, ctx.doc.root, root⟩ []
  | path {build here next : Build} {root : Frame} {before after : List (String × Members)}
      {path name : String} {item : Members} {scope : Scope}
      (around : Walk ctx base build root [])
      (items : ctx.doc.pathItems = .ok (before ++ (path, item) :: after))
      (walked : before.foldlM (enterPath ctx root.scope) build = .ok here)
      (named : pathName path item = .ok name)
      (enter : Scope.enter ctx here root.scope item name = .ok (next, scope)) :
      Walk ctx base next ⟨.path path, item, scope⟩ [root]
  | operation {build here next : Build} {root parent : Frame}
      {before after : List (String × Members)} {path method name : String} {operation : Members}
      {scope : Scope}
      (around : Walk ctx base build parent [root])
      (place : parent.place = .path path)
      (items : operations path parent.object = .ok (before ++ (method, operation) :: after))
      (walked : before.foldlM (enterOperation ctx parent.scope path parent.object) build =
        .ok here)
      (named : operationName method operation = .ok name)
      (enter : Scope.enter ctx here parent.scope operation name = .ok (next, scope)) :
      Walk ctx base next ⟨.operation method, operation, scope⟩ [parent, root]

/-- Whether a scope makes a service: the document does, and any scope with service defaults,
upstream defaults or servers of its own. -/
def Frame.Creates (ctx : Context) (frame : Frame) : Prop :=
  frame.place = .document ∨ creates ctx.doc frame.object = true

/-! ## Declarations -/

/-- The plugin that a scope declares under a name. In the document the plugin of its security
requirements comes before a directive. -/
def Frame.declared (ctx : Context) (frame : Frame) (sought : String) : Option Members :=
  match frame.place, Cascade.documentOpenId ctx with
  | .document, .ok (some plugin) =>
    if sought = openIdName then some plugin else Plugin.declared? ctx.doc frame.object sought
  | _, _ => Plugin.declared? ctx.doc frame.object sought

/-- What the innermost of the scopes that declare a plugin under a name declares, without
identifier and tags. -/
def innermost (ctx : Context) (frames : List Frame) (sought : String) : Option Members :=
  frames.findSome? fun frame => (frame.declared ctx sought).map payload

theorem innermost_append (ctx : Context) (inside outside : List Frame) (sought : String) :
    innermost ctx (inside ++ outside) sought =
      (innermost ctx inside sought <|> innermost ctx outside sought) := by
  simp only [innermost, List.findSome?_append]
  cases inside.findSome? fun frame => (frame.declared ctx sought).map payload <;> rfl

theorem innermost_cons (ctx : Context) (frame : Frame) (outside : List Frame) (sought : String) :
    innermost ctx (frame :: outside) sought =
      ((frame.declared ctx sought).map payload <|> innermost ctx outside sought) := by
  simp only [innermost, List.findSome?_cons]
  cases frame.declared ctx sought <;> rfl

/-- Only the document has more than its directives. -/
theorem Frame.declared_of_ne {ctx : Context} {frame : Frame} (h : frame.place ≠ .document) :
    frame.declared ctx = Plugin.declared? ctx.doc frame.object := by
  funext sought
  unfold declared
  split
  · contradiction
  · rfl

/-! ## Lists that stand for declarations -/

/-- A list in order that has, under every name but that of the validator, what the innermost
declaring scope declares, and nothing else. -/
def Represents (ctx : Context) (plugins : List Members) (frames : List Frame) : Prop :=
  Ordered plugins ∧ ∀ n, (find? plugins n).map payload =
    if n = validatorName then none else innermost ctx frames n

theorem Represents.nil (ctx : Context) : Represents ctx [] [] := by
  refine ⟨List.Pairwise.nil, ?_⟩
  intro n
  split <;> rfl

/-- Exactly one plugin of every declared name stands in the list. -/
theorem Represents.filter_eq {ctx : Context} {plugins : List Members} {frames : List Frame}
    (h : Represents ctx plugins frames) (n : String) :
    (plugins.filter fun p => Plugin.name p = n).map payload =
      if n = validatorName then [] else (innermost ctx frames n).toList := by
  rw [Plugin.filter_name_eq h.1.nodup_names]
  have := h.2 n
  split
  · rename_i hn
    rw [if_pos hn, Option.map_eq_none_iff] at this
    rw [this]
    rfl
  · rename_i hn
    rw [if_neg hn] at this
    rw [← this]
    cases find? plugins n <;> rfl

/-- The list that a scope builds over an inherited one stands for one scope more. -/
theorem Represents.build {ctx : Context} {inherited declared : List Members}
    {frames : List Frame} {frame : Frame} {base : String} (h : Represents ctx inherited frames)
    (hplace : frame.place ≠ .document)
    (hbuild : Plugin.build ctx.doc ctx.stamp base frame.object inherited = .ok declared)
    (fallback : Option Members) :
    Represents ctx (Plugin.extractValidator declared fallback).2 (frame :: frames) := by
  obtain ⟨hord, hfind⟩ := Plugin.build_spec h.1.nodup_names hbuild
  refine ⟨hord.extractValidator fallback, ?_⟩
  intro n
  rw [Plugin.find?_extractValidator]
  split
  · rfl
  · rename_i hn
    have hinherited := h.2 n
    rw [if_neg hn] at hinherited
    rw [innermost_cons, Frame.declared_of_ne hplace, ← hinherited, hfind]
    cases Plugin.declared? ctx.doc frame.object n <;> simp [Function.comp_def]

/-- What stands for inner scopes, laid over what stands for the scopes around them, stands for
all of them. -/
theorem Represents.overlay {ctx : Context} {upper lower plugins : List Members}
    {inside outside : List Frame} (hupper : Represents ctx upper inside)
    (hlower : Represents ctx lower outside) (hall : Represents ctx plugins (inside ++ outside)) :
    (upper.foldl Plugin.insert lower).map payload = plugins.map payload := by
  obtain ⟨hord, hfind⟩ := Plugin.foldl_insert_spec hupper.1 hlower.1
  refine Plugin.map_payload_eq hord hall.1 ?_
  intro n
  have hu := hupper.2 n
  have hl := hlower.2 n
  rw [hall.2, innermost_append, hfind]
  split
  · rename_i hn
    rw [if_pos hn, Option.map_eq_none_iff] at hu hl
    simp [hu, hl]
  · rename_i hn
    rw [if_neg hn] at hu hl
    rw [← hu, ← hl]
    cases find? upper n <;> simp

/-! ## The service of a scope -/

/-- A build with the service that a scope made and the plugins that left it. -/
def Hosts (ctx : Context) (build : Build) (creator : Scope) : Prop :=
  ∃ made routes, creator.make ctx = .ok made ∧
    build.slots[creator.service]? = some (made.slot ctx creator.plugins routes) ∧
    made.moved ctx creator.plugins ⊆ build.shared

/-- More routes and more services leave the service of a scope in its place. -/
theorem Hosts.grow {ctx : Context} {build : Build} {creator : Scope} (h : Hosts ctx build creator)
    (host : ℕ) (routes : List Members) (slots : List Slot) (shared : List Members) :
    Hosts ctx (build.grow host routes slots shared) creator := by
  obtain ⟨made, own, hmade, hslot, hmoved⟩ := h
  have hlen : creator.service < (build.slots.modify host (Slot.addRoutes routes)).length := by
    rw [List.length_modify]
    exact (List.getElem?_eq_some_iff.1 hslot).1
  refine ⟨made, if host = creator.service then own ++ routes else own, hmade, ?_, ?_⟩
  · simp only [Build.grow]
    rw [List.getElem?_append_left hlen, List.getElem?_modify, hslot]
    split <;> rfl
  · exact fun p hp => List.mem_append_left _ (hmoved hp)

/-- The service that a scope makes on entering is its own. -/
theorem Hosts.addService {ctx : Context} {build : Build} {creator : Scope} {made : Made}
    (hmade : creator.make ctx = .ok made) (hservice : creator.service = build.slots.length) :
    Hosts ctx (build.addService ctx creator.plugins made) creator := by
  refine ⟨made, [], hmade, ?_, ?_⟩
  · rw [Build.addService_eq, hservice]
    simp
  · rw [Build.addService_eq]
    exact List.subset_append_right _ _

/-- A scope inside another shares its service, or makes one that joins the build. -/
theorem Scope.enter_cases {ctx : Context} {build next : Build} {parent scope : Scope}
    {object : Members} {name : String}
    (h : Scope.enter ctx build parent object name = .ok (next, scope)) :
    ∃ made, Cascade.Inside ctx parent.toCascade object name scope.toCascade made ∧
      ((∃ m, made = some m ∧ next = build.addService ctx scope.plugins m ∧
          scope.service = build.slots.length) ∨
        (made = none ∧ next = build ∧ scope.service = parent.service)) := by
  simp only [Scope.enter] at h
  obtain ⟨⟨cascade, made⟩, hinside, h⟩ := bind_eq_ok_iff.1 h
  cases made with
  | some m =>
    simp only [pure, Except.pure, Except.ok.injEq, Prod.mk.injEq] at h
    obtain ⟨rfl, rfl⟩ := h
    exact ⟨some m, Cascade.inside_of_enter hinside, Or.inl ⟨m, rfl, rfl, rfl⟩⟩
  | none =>
    simp only [pure, Except.pure, Except.ok.injEq, Prod.mk.injEq] at h
    obtain ⟨rfl, rfl⟩ := h
    exact ⟨none, Cascade.inside_of_enter hinside, Or.inr ⟨rfl, rfl, rfl⟩⟩

/-! ## The invariant -/

/-- The scopes of a walk in layers: those that make no service, the innermost one that does, and
those around it. -/
structure Layered (ctx : Context) (build : Build) (frame : Frame) (around : List Frame) :
    Prop where
  bounded : ∀ f ∈ frame :: around, f.scope.service < build.slots.length
  plugins : Represents ctx frame.scope.plugins (frame :: around)
  layers : ∃ inside creator outside, frame :: around = inside ++ creator :: outside ∧
    (∀ f ∈ inside, ¬ f.Creates ctx) ∧ creator.Creates ctx ∧
    frame.scope.service = creator.scope.service ∧ Hosts ctx build creator.scope ∧
    Represents ctx creator.scope.plugins (creator :: outside) ∧
    Represents ctx frame.scope.pending inside

theorem Layered.grow {ctx : Context} {build : Build} {frame : Frame} {around : List Frame}
    (h : Layered ctx build frame around) (host : ℕ) (routes : List Members) (slots : List Slot)
    (shared : List Members) :
    Layered ctx (build.grow host routes slots shared) frame around := by
  obtain ⟨inside, creator, outside, hsplit, hinside, hcreates, hservice, hosts, hlists⟩ := h.layers
  refine ⟨fun f hf => ?_, h.plugins, inside, creator, outside, hsplit, hinside, hcreates,
    hservice, hosts.grow host routes slots shared, hlists⟩
  have := h.bounded f hf
  simp only [Build.grow, List.length_append, List.length_modify]
  omega

/-- A scope that makes a service is a layer of its own. -/
theorem Layered.create {ctx : Context} {build : Build} {around : List Frame} {made : Made}
    (frame : Frame) (hbounded : ∀ f ∈ around, f.scope.service < build.slots.length)
    (hcreates : frame.Creates ctx) (hplugins : Represents ctx frame.scope.plugins (frame :: around))
    (hpending : frame.scope.pending = []) (hmade : frame.scope.make ctx = .ok made)
    (hservice : frame.scope.service = build.slots.length) :
    Layered ctx (build.addService ctx frame.scope.plugins made) frame around := by
  refine ⟨?_, hplugins, [], frame, around, rfl, by simp, hcreates, rfl,
    Hosts.addService hmade hservice, hplugins, hpending ▸ Represents.nil ctx⟩
  rw [Build.addService_eq]
  simp only [List.length_append, List.length_cons, List.length_nil, List.forall_mem_cons]
  refine ⟨by omega, ?_⟩
  intro f hf
  have := hbounded f hf
  omega

/-- Entering a scope below the document keeps the layers. -/
theorem Layered.enter {ctx : Context} {build next : Build} {parent : Frame}
    {around : List Frame} {place : Place} {object : Members} {name : String} {scope : Scope}
    (h : Layered ctx build parent around) (hplace : place ≠ .document)
    (henter : Scope.enter ctx build parent.scope object name = .ok (next, scope)) :
    Layered ctx next ⟨place, object, scope⟩ (parent :: around) := by
  obtain ⟨made, inside, hcases⟩ := Scope.enter_cases henter
  obtain ⟨declared, hdeclared, hextract⟩ := inside.lists
  have hplugins : Represents ctx scope.plugins (⟨place, object, scope⟩ :: parent :: around) := by
    rw [show scope.plugins = _ from congrArg Prod.snd hextract]
    exact h.plugins.build hplace hdeclared _
  obtain ⟨own, hdeclares, -, hown⟩ := inside.own
  obtain ⟨hmakes, hpending, m, hm, hmake⟩ | ⟨hmakes, hm, waiting, hwaiting, hpending⟩ := hown
  · obtain ⟨m', hm', rfl, hservice⟩ | ⟨hnone, -⟩ := hcases
    · obtain rfl := Option.some.inj (hm.symm.trans hm')
      exact Layered.create ⟨place, object, scope⟩ h.bounded
        (Or.inr (makesService_eq_creates hdeclares ▸ hmakes)) hplugins hpending hmake hservice
    · rw [hm] at hnone
      cases hnone
  · obtain ⟨m', hm', -⟩ | ⟨-, rfl, hservice⟩ := hcases
    · rw [hm] at hm'
      cases hm'
    · obtain ⟨inner, creator, outer, hsplit, hinner, hcreates, hsame, hosts, hcreator, hwait⟩ :=
        h.layers
      refine ⟨?_, hplugins, ⟨place, object, scope⟩ :: inner, creator, outer, ?_, ?_, hcreates, ?_,
        hosts, hcreator, ?_⟩
      · refine List.forall_mem_cons.2 ⟨?_, h.bounded⟩
        exact hservice ▸ h.bounded parent (by simp)
      · rw [hsplit]
        rfl
      · refine List.forall_mem_cons.2 ⟨?_, hinner⟩
        rintro (hdoc | hyes)
        · exact hplace hdoc
        · rw [makesService_eq_creates hdeclares] at hmakes
          exact absurd hyes (by simp [hmakes])
      · exact hservice.trans hsame
      · show Represents ctx scope.pending _
        rw [hpending]
        exact hwait.build hplace hwaiting none

/-- The list of the document stands for the document. -/
theorem Represents.top {ctx : Context} {base : String} {root : Scope} {made : Made}
    (top : Cascade.Top ctx base root.toCascade made) :
    Represents ctx root.plugins [⟨.document, ctx.doc.root, root⟩] := by
  refine ⟨top.ordered, fun n => ?_⟩
  rw [top.find?_plugins, innermost_cons, Frame.declared, top.openId_eq]
  split
  · rfl
  · cases root.openId with
    | none => simp [innermost, Function.comp_def]
    | some plugin =>
      by_cases hn : n = openIdName <;> simp [innermost, Function.comp_def, hn]

/-- Entering the document gives the first layer. -/
theorem Layered.document {ctx : Context} {base : String} {build : Build} {root : Scope}
    (henter : Scope.ofDocument ctx {} base = .ok (build, root)) :
    Layered ctx build ⟨.document, ctx.doc.root, root⟩ [] := by
  simp only [Scope.ofDocument] at henter
  obtain ⟨⟨cascade, made⟩, hdoc, henter⟩ := bind_eq_ok_iff.1 henter
  simp only [pure, Except.pure, Except.ok.injEq, Prod.mk.injEq] at henter
  obtain ⟨rfl, rfl⟩ := henter
  have top := Cascade.top_of_ofDocument hdoc
  exact Layered.create ⟨.document, ctx.doc.root, ⟨cascade, _⟩⟩ (by simp) (Or.inl rfl)
    (Represents.top top) top.pending_eq top.make_eq rfl

/-- Every scope that the walk enters is layered. -/
theorem Walk.layered {ctx : Context} {base : String} {build : Build} {frame : Frame}
    {around : List Frame} (h : Walk ctx base build frame around) :
    Layered ctx build frame around := by
  induction h with
  | document enter => exact Layered.document enter
  | @path build here next root before after path name item scope _ _ walked _ enter ih =>
    rw [foldlM_enterPath ctx root.scope before build (ih.bounded root (by simp))] at walked
    obtain ⟨paths, -, rfl⟩ := map_eq_ok_iff.1 walked
    exact (ih.grow _ _ _ _).enter (by simp) enter
  | @operation build here next root parent before after path method name operation scope _ _ _
      walked _ enter ih =>
    rw [foldlM_enterOperation ctx parent.scope path parent.object before build
      (ih.bounded parent (by simp))] at walked
    obtain ⟨endpoints, -, rfl⟩ := map_eq_ok_iff.1 walked
    exact (ih.grow _ _ _ _).enter (by simp) enter

/-- A plugin in effect waits for the routes, or it has a name that no waiting plugin has and comes
with the service. -/
theorem Represents.mem_or_mem {ctx : Context} {upper lower plugins : List Members}
    {inside outside : List Frame} (hupper : Represents ctx upper inside)
    (hlower : Represents ctx lower outside) (hall : Represents ctx plugins (inside ++ outside))
    {p : Members} (hp : p ∈ plugins) :
    payload p ∈ upper.map payload ∨
      (∀ q ∈ upper, Plugin.name q ≠ Plugin.name p) ∧ payload p ∈ lower.map payload := by
  obtain ⟨hord, hfind⟩ := Plugin.foldl_insert_spec hupper.1 hlower.1
  have hmem : payload p ∈ (upper.foldl Plugin.insert lower).map payload := by
    rw [hupper.overlay hlower hall]
    exact List.mem_map_of_mem hp
  obtain ⟨q, hq, hpayload⟩ := List.mem_map.1 hmem
  have hname : Plugin.name q = Plugin.name p := by
    rw [← Plugin.name_payload q, hpayload, Plugin.name_payload]
  have hfound := (Plugin.find?_eq_some_iff hord.nodup_names).2 ⟨hq, hname⟩
  rw [hfind] at hfound
  cases hwaiting : find? upper (Plugin.name p) with
  | some r =>
    rw [hwaiting] at hfound
    obtain rfl : r = q := Option.some.inj hfound
    exact Or.inl (hpayload ▸ List.mem_map_of_mem (List.mem_of_find?_eq_some hwaiting))
  | none =>
    rw [hwaiting] at hfound
    refine Or.inr ⟨fun r hr => ?_, hpayload ▸ List.mem_map_of_mem (List.mem_of_find?_eq_some hfound)⟩
    simpa using List.find?_eq_none.1 hwaiting r hr

/-- No plugin is lost and none is applied twice. In every scope that the walk enters, the plugins
in effect are the innermost declarations of all its scopes, one for each name; the waiting ones
are those of the scopes inside the one that made the service; and the waiting plugins, put by
name into the list that the service was made with, are the plugins in effect. So every plugin in
effect waits for the routes or stands in the list of the service under a name that no waiting
plugin has. -/
theorem plugins_of_walk {ctx : Context} {base : String} {build : Build} {frame : Frame}
    {around : List Frame} (h : Walk ctx base build frame around) :
    (∀ n, (frame.scope.plugins.filter fun p => Plugin.name p = n).map payload =
      if n = validatorName then [] else (innermost ctx (frame :: around) n).toList) ∧
    ∃ inside creator outside made routes,
      frame :: around = inside ++ creator :: outside ∧
      (∀ f ∈ inside, ¬ f.Creates ctx) ∧ creator.Creates ctx ∧
      creator.scope.make ctx = .ok made ∧
      build.slots[frame.scope.service]? = some (made.slot ctx creator.scope.plugins routes) ∧
      made.moved ctx creator.scope.plugins ⊆ build.shared ∧
      (∀ n, (frame.scope.pending.filter fun p => Plugin.name p = n).map payload =
        if n = validatorName then [] else (innermost ctx inside n).toList) ∧
      (frame.scope.pending.foldl Plugin.insert creator.scope.plugins).map payload =
        frame.scope.plugins.map payload ∧
      ∀ p ∈ frame.scope.plugins, payload p ∈ frame.scope.pending.map payload ∨
        (∀ q ∈ frame.scope.pending, Plugin.name q ≠ Plugin.name p) ∧
          payload p ∈ creator.scope.plugins.map payload := by
  obtain ⟨-, hplugins, inside, creator, outside, hsplit, hinside, hcreates, hservice, hosts,
    hcreator, hpending⟩ := h.layered
  obtain ⟨made, routes, hmade, hslot, hmoved⟩ := hosts
  have hall : Represents ctx frame.scope.plugins (inside ++ creator :: outside) := hsplit ▸ hplugins
  refine ⟨hplugins.filter_eq, inside, creator, outside, made, routes, hsplit, hinside, hcreates,
    hmade, hservice ▸ hslot, hmoved, hpending.filter_eq, hpending.overlay hcreator hall, ?_⟩
  exact fun p hp => hpending.mem_or_mem hcreator hall hp

/-- The operation of a small document. It changes a plugin of the document. -/
def petOperation : Members := [("x-kong-plugin-cors", .obj [("enabled", .bool false)])]

/-- The path of a small document, with a service of its own. -/
def petItem : Members := [("get", .obj petOperation), ("x-kong-service-defaults", .obj [])]

/-- A small document that declares a plugin. -/
def petDocument : Document :=
  ⟨[("paths", .obj [("/pets", .obj petItem)]),
    ("x-kong-plugin-cors", .obj [("enabled", .bool true)])], "3.0.0"⟩

/-- A run over the small document, without identifiers. -/
def petContext : Context := ⟨petDocument, { skipId := true }, Options.stamp { skipId := true } []⟩

/-- The operation of the small document has the plugin as it changed it. -/
theorem plugins_of_walk_pets :
    ∃ build frame around, Walk petContext "pets" build frame around ∧
      frame.place = .operation "get" ∧
      (frame.scope.plugins.filter fun p => Plugin.name p = "cors").map payload =
        [[("enabled", .bool false), ("name", .str "cors")]] := by
  have root : Walk petContext "pets" _ _ [] := Walk.document rfl
  have items : petContext.doc.pathItems = .ok ([] ++ ("/pets", petItem) :: []) := rfl
  have path := Walk.path root items rfl rfl rfl
  have endpoints : operations "/pets" petItem = .ok ([] ++ ("get", petOperation) :: []) := rfl
  have operation := Walk.operation path rfl endpoints rfl rfl rfl
  refine ⟨_, _, _, operation, rfl, ?_⟩
  rw [(plugins_of_walk operation).1 "cors"]
  rfl

end ApiGateway
