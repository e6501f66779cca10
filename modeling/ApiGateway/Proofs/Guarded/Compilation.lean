import ApiGateway.Proofs.Compilation.Cascade
import ApiGateway.Proofs.Entity.Service
import ApiGateway.Proofs.Guarded.Plugin
import ApiGateway.Proofs.Guarded.Route

/-!
# Guarded compilations

The guarded compilation reads the first target of a service, the service that a scope hands its
routes to, and the first of the finished services by their positions, and looks up the members of
objects it walks through. It remembers every scope it has entered, and checks after each change of
the build that each of them still has its service.

A service index is taken where the service joins the build, handed down from scope to scope, and
used long after. It stays a position of the build because the build only grows: this is what the
walk tracks, step by step. Steps that make no such access are taken over as they are.

## Main definitions

* `Guarded.Trail`: the build of a walk with the scopes entered so far.
* `Guarded.Trail.check`: the check that each of them has its service.
* `Guarded.Trail.Tracks`: a trail and the build of the plain walk at the same moment.
* `Guarded.compile`: the guarded compilation.

## Main results

* `Guarded.enterOperation_follows`, `Guarded.enterPath_follows`: the steps of the walk.
* `Guarded.compile_eq_lift`: a compilation has no faults.
-/
namespace ApiGateway.Guarded

/-! ## Scopes -/

/-- A service made from its defaults and servers. The first of its targets is read by its
position. -/
def service (stamp : Stamp) (base : String) (servers : List Json) (defaults : Defaults)
    (readUri : String → Except UriError Uri) : Except Halt (Members × Option Members) := do
  let stamped := stamp.apply (defaults.service.getD []) base "service"
  let entity := stamped.insert "name" (.str base)
    |>.insert "plugins" (.arr [])
    |>.insert "routes" (.arr [])
  let fallback := (entity.string? "protocol").getD "https"
  let targets := (← lift (Target.parseAll servers readUri)).map (·.withDefaults fallback)
  let first ← entry targets 0
  let port := first.port.getD (fallbackPort first.scheme)
  let entity := entity.insertNew "protocol" (.str (first.scheme.getD fallback))
    |>.insertNew "path" (.str first.path)
    |>.insertNew "port" (.int port)
  if entity.has "host" then return (entity, none)
  if targets.length = 1 ∧ defaults.upstream.isNone then
    return (entity.insert "host" (.str first.hostname), none)
  let up := upstream stamp base targets defaults.upstream
  return (entity.insert "host" (.str (upstreamName base)), some up)

/-- The service of a scope. -/
def make (ctx : Context) (cascade : Cascade) : Except Halt Made := do
  let (entity, up) ←
    service ctx.stamp cascade.base cascade.servers cascade.defaults ctx.options.readUri
  return ⟨entity, up⟩

/-- The cascade of the document. -/
def cascadeOfDocument (ctx : Context) (base : String) : Except Halt (Cascade × Made) := do
  let defaults ← lift (declaredDefaults ctx.doc ctx.doc.root)
  let declared ← build ctx.doc ctx.stamp base ctx.doc.root []
  let (validator, plugins) := Plugin.extractValidator declared none
  let openId ← lift <|
    if ctx.options.openId then
      openIdConnect ctx.doc ctx.options.ignoreSecurityErrors ctx.doc.security? none
    else pure none
  let plugins ← match openId with
    | some plugin => insert plugins (Plugin.restamp ctx.stamp base plugin)
    | none => pure plugins
  let cascade : Cascade := ⟨base, defaults, ctx.doc.servers, plugins, [], validator, openId⟩
  return (cascade, ← make ctx cascade)

/-- The cascade of a scope inside another. -/
def cascadeEnter (ctx : Context) (parent : Cascade) (object : Members) (name : String) :
    Except Halt (Cascade × Option Made) := do
  let base := ctx.naming.extend parent.base name
  let own ← lift (declaredDefaults ctx.doc object)
  let ownServers := serversOf object
  let defaults : Defaults :=
    ⟨own.service <|> parent.defaults.service, own.upstream <|> parent.defaults.upstream,
      own.route <|> parent.defaults.route⟩
  let servers := if ownServers.isEmpty then parent.servers else ownServers
  let declared ← build ctx.doc ctx.stamp base object parent.plugins
  let (validator, plugins) := Plugin.extractValidator declared parent.validator
  if own.service.isSome || own.upstream.isSome || !ownServers.isEmpty then
    let cascade : Cascade := ⟨base, defaults, servers, plugins, [], validator, parent.openId⟩
    return (cascade, some (← make ctx cascade))
  else
    let waiting ← build ctx.doc ctx.stamp base object parent.pending
    let (_, pending) := Plugin.extractValidator waiting none
    return (⟨base, defaults, servers, plugins, pending, validator, parent.openId⟩, none)

/-- The plugins of the routes of an operation before its validator. -/
def withOpenId (ctx : Context) (scope : Cascade) (operation : Members) :
    Except Halt (List Members) :=
  if ctx.options.openId && operation.has "security" then do
    match ← lift (openIdConnect ctx.doc ctx.options.ignoreSecurityErrors
        (operation.get? "security") scope.openId) with
    | none => return scope.pending
    | some plugin =>
      if (scope.openId.map fun other => Json.sameMembers plugin other).getD false then
        return scope.pending
      else insert scope.pending (Plugin.restamp ctx.stamp scope.base plugin)
  else .ok scope.pending

/-- The plugins of the routes of an operation. -/
def operationPlugins (ctx : Context) (scope : Cascade) (operation : Members)
    (parameters : List Parameter) (body : Option RequestBody) : Except Halt (List Members) := do
  let own ← withOpenId ctx scope operation
  match ← lift (requestValidator ctx.doc ctx.naming ctx.stamp scope.base parameters body
      scope.validator) with
  | some plugin => insert own plugin
  | none => return own

/-- The plugins and the routes of an operation. -/
def operationRoutes (ctx : Context) (scope : Cascade) (path : String) (item : Members)
    (method : String) (operation : Members) : Except Halt (List Members × List Members) := do
  let parameters ← lift (ctx.doc.parameters item operation)
  let body ← lift (ctx.doc.requestBody operation)
  let plugins ← operationPlugins ctx scope operation parameters body
  let routePath ← routePath ctx.doc ctx.naming parameters scope.defaultPriority path
  let routes ← lift (expandHeaders ctx.doc ctx.naming ctx.stamp scope.base parameters
    (scope.route ctx method routePath))
  return (plugins, routes)

/-- Making a service misses no target. -/
theorem service_eq (stamp : Stamp) (base : String) (servers : List Json) (defaults : Defaults)
    (readUri : String → Except UriError Uri) :
    service stamp base servers defaults readUri =
      lift (ApiGateway.service stamp base servers defaults readUri) := by
  rw [service, ApiGateway.service]
  cases htargets : Target.parseAll servers readUri with
  | error e => rfl
  | ok targets =>
    obtain ⟨first, rest, rfl⟩ := List.exists_cons_of_ne_nil (Target.ne_nil_of_parseAll htargets)
    simp only [lift_ok, ok_bind, List.map_cons, entry_cons_zero, List.headD_cons]
    split
    · rfl
    · split <;> rfl

theorem make_eq (ctx : Context) (cascade : Cascade) :
    make ctx cascade = lift (cascade.make ctx) := by
  rw [make, Cascade.make, service_eq, lift_bind]
  rfl

theorem cascadeOfDocument_eq (ctx : Context) (base : String) :
    cascadeOfDocument ctx base = lift (Cascade.ofDocument ctx base) := by
  rw [cascadeOfDocument, Cascade.ofDocument]
  simp only [build_eq, make_eq, lift_bind]
  refine bind_congr fun defaults => bind_congr fun declared => ?_
  split
  · rw [lift_bind]
    refine bind_congr fun openId => ?_
    cases openId with
    | none => rw [lift_bind]; rfl
    | some plugin =>
      simp only [insert_eq, ok_bind]
      rw [lift_bind]; rfl
  · simp only [lift_pure, pure_bind, lift_bind]

theorem cascadeEnter_eq (ctx : Context) (parent : Cascade) (object : Members) (name : String) :
    cascadeEnter ctx parent object name = lift (parent.enter ctx object name) := by
  rw [cascadeEnter, Cascade.enter]
  simp only [build_eq, make_eq, lift_bind]
  refine bind_congr fun own => bind_congr fun declared => ?_
  split
  · rw [lift_bind]
    rfl
  · rw [lift_bind]
    rfl

theorem withOpenId_eq (ctx : Context) (scope : Cascade) (operation : Members) :
    withOpenId ctx scope operation = lift (scope.withOpenId ctx operation) := by
  rw [withOpenId, Cascade.withOpenId]
  split
  · rw [lift_bind]
    refine bind_congr fun openId => ?_
    cases openId with
    | none => rfl
    | some plugin =>
      dsimp only
      split
      · rfl
      · exact insert_eq _ _
  · rfl

theorem operationPlugins_eq (ctx : Context) (scope : Cascade) (operation : Members)
    (parameters : List Parameter) (body : Option RequestBody) :
    operationPlugins ctx scope operation parameters body =
      lift (scope.operationPlugins ctx operation parameters body) := by
  rw [operationPlugins, Cascade.operationPlugins_eq, withOpenId_eq, lift_bind]
  refine bind_congr fun own => ?_
  rw [lift_bind]
  refine bind_congr fun validator => ?_
  cases validator with
  | none => rfl
  | some plugin => exact insert_eq own plugin

theorem operationRoutes_eq (ctx : Context) (scope : Cascade) (path : String) (item : Members)
    (method : String) (operation : Members) :
    operationRoutes ctx scope path item method operation =
      lift (scope.operationRoutes ctx path item method operation) := by
  rw [operationRoutes, Cascade.operationRoutes]
  simp only [operationPlugins_eq, routePath_eq, lift_bind, lift_pure]

/-! ## The walk -/

/-- The service of a scope joins the build, and the scope takes its position; a scope without a
service of its own shares the one around it. -/
def enter (ctx : Context) (build : Build) (parent : Scope) (object : Members) (name : String) :
    Except Halt (Build × Scope) := do
  match ← cascadeEnter ctx parent.toCascade object name with
  | (cascade, some made) =>
    let build := build.addService ctx cascade.plugins made
    return (build, ⟨cascade, ← lastIndex build.slots⟩)
  | (cascade, none) => return (build, ⟨cascade, parent.service⟩)

/-- The build of a walk, with the scopes entered so far. -/
structure Trail where
  build : Build
  entered : List Scope

namespace Trail

/-- The trail itself, if each of its scopes has its service. -/
def check (trail : Trail) : Except Halt Trail :=
  match trail.entered.find? fun scope => trail.build.slots.length ≤ scope.service with
  | some scope => .error (.fault (.position scope.service trail.build.slots.length))
  | none => .ok trail

/-- The trail of the document. -/
def ofDocument (ctx : Context) (base : String) : Except Halt (Trail × Scope) := do
  let (cascade, made) ← cascadeOfDocument ctx base
  let build := Build.addService ctx {} cascade.plugins made
  let root : Scope := ⟨cascade, ← lastIndex build.slots⟩
  return (← check ⟨build, [root]⟩, root)

/-- The trail after a scope inside another has been entered. -/
def enter (ctx : Context) (trail : Trail) (parent : Scope) (object : Members) (name : String) :
    Except Halt (Trail × Scope) := do
  let (build, scope) ← Guarded.enter ctx trail.build parent object name
  return (← check ⟨build, scope :: trail.entered⟩, scope)

/-- The trail after a route has been added to the service of a scope. -/
def addRoute (ctx : Context) (scope : Scope) (plugins : List Members) (trail : Trail)
    (route : Members) : Except Halt Trail := do
  let _ ← entry trail.build.slots scope.service
  check ⟨trail.build.addRoute ctx scope.service scope.base plugins route, trail.entered⟩

end Trail

/-- Adds the routes of an operation. -/
def enterOperation (ctx : Context) (parent : Scope) (path : String) (item : Members)
    (trail : Trail) (operation : String × Members) : Except Halt Trail := do
  let name ← lift (operationName operation.1 operation.2)
  let (trail, scope) ← trail.enter ctx parent operation.2 name
  let (plugins, routes) ← operationRoutes ctx scope.toCascade path item operation.1 operation.2
  routes.foldlM (Trail.addRoute ctx scope plugins) trail

/-- Enters a path and its operations. -/
def enterPath (ctx : Context) (root : Scope) (trail : Trail) (path : String × Members) :
    Except Halt Trail := do
  let name ← lift (pathName path.1 path.2)
  let (trail, scope) ← trail.enter ctx root path.2 name
  let operations ← lift (operations path.1 path.2)
  operations.foldlM (enterOperation ctx scope path.1 path.2) trail

/-- A trail and the build of the plain walk at the same moment: the trail has the build and has
entered some scopes, and all scopes it has entered have their services. -/
structure Trail.Tracks (scopes : List Scope) (trail : Trail) (build : Build) : Prop where
  build_eq : trail.build = build
  entered : scopes ⊆ trail.entered
  bounded : ∀ scope ∈ trail.entered, scope.service < trail.build.slots.length

namespace Trail

theorem check_of_bounded {trail : Trail}
    (h : ∀ scope ∈ trail.entered, scope.service < trail.build.slots.length) :
    trail.check = .ok trail := by
  have hnone : (trail.entered.find? fun scope =>
      decide (trail.build.slots.length ≤ scope.service)) = none := by
    rw [List.find?_eq_none]
    intro scope hscope
    simpa using h scope hscope
  rw [check, hnone]

variable {ctx : Context} {scopes : List Scope} {trail : Trail} {build : Build}

theorem Tracks.subset {more : List Scope} (h : Tracks more trail build) (hsub : scopes ⊆ more) :
    Tracks scopes trail build :=
  ⟨h.build_eq, fun _ hscope => h.entered (hsub hscope), h.bounded⟩

/-- A build that has not become smaller, and a scope that has its service there, keep a trail. -/
theorem Tracks.push (h : Tracks scopes trail build) {next : Build} (scope : Scope)
    (hgrows : build.slots.length ≤ next.slots.length) (hscope : scope.service < next.slots.length) :
    Tracks (scope :: scopes) ⟨next, scope :: trail.entered⟩ next := by
  refine ⟨rfl, List.cons_subset_cons scope h.entered, List.forall_mem_cons.2 ⟨hscope, ?_⟩⟩
  intro other hother
  exact ((h.build_eq ▸ h.bounded other hother).trans_le hgrows)

/-- A service joins the build, and the scope that made it takes the position. -/
theorem Tracks.addService (h : Tracks scopes trail build) (ctx : Context) (cascade : Cascade)
    (made : Made) :
    Tracks (⟨cascade, build.slots.length⟩ :: scopes)
      ⟨build.addService ctx cascade.plugins made, ⟨cascade, build.slots.length⟩ :: trail.entered⟩
      (build.addService ctx cascade.plugins made) := by
  have hlength : (build.addService ctx cascade.plugins made).slots.length =
      build.slots.length + 1 := by
    rw [Build.addService_eq, List.length_append]
    rfl
  exact h.push _ (by omega) (by rw [hlength]; exact Nat.lt_succ_self _)

/-- Entering a scope inside one that has its service. -/
theorem Tracks.enter (h : Tracks scopes trail build) {parent : Scope} (hparent : parent ∈ scopes)
    (object : Members) (name : String) :
    Follows (fun entered plain => entered.2 = plain.2 ∧
        Tracks (plain.2 :: scopes) entered.1 plain.1)
      (trail.enter ctx parent object name) (Scope.enter ctx build parent object name) := by
  rw [Trail.enter, Guarded.enter, Scope.enter, cascadeEnter_eq, h.build_eq]
  cases parent.toCascade.enter ctx object name with
  | error e => exact Follows.error e
  | ok inside =>
    obtain ⟨cascade, made⟩ := inside
    cases made with
    | some made =>
      have htracks := h.addService ctx cascade made
      have hindex : lastIndex (build.addService ctx cascade.plugins made).slots =
          .ok build.slots.length := lastIndex_append_singleton _ _
      simp only [lift_ok, ok_bind, hindex, pure, Except.pure, check_of_bounded htracks.bounded]
      exact Follows.ok ⟨rfl, htracks⟩
    | none =>
      have hservice := h.build_eq ▸ h.bounded parent (h.entered hparent)
      have htracks := h.push ⟨cascade, parent.service⟩ le_rfl hservice
      simp only [lift_ok, ok_bind, pure, Except.pure, check_of_bounded htracks.bounded]
      exact Follows.ok ⟨rfl, htracks⟩

/-- Adding a route to the service of a scope that has been entered. -/
theorem Tracks.addRoute (h : Tracks scopes trail build) {scope : Scope} (hscope : scope ∈ scopes)
    (plugins : List Members) (route : Members) :
    Follows (Tracks scopes) (trail.addRoute ctx scope plugins route)
      (.ok (build.addRoute ctx scope.service scope.base plugins route)) := by
  have hservice := h.build_eq ▸ h.bounded scope (h.entered hscope)
  have hlength : (build.addRoute ctx scope.service scope.base plugins route).slots.length =
      build.slots.length := List.length_modify _ _ _
  have htracks : Tracks scopes
      ⟨build.addRoute ctx scope.service scope.base plugins route, trail.entered⟩
      (build.addRoute ctx scope.service scope.base plugins route) := by
    refine ⟨rfl, h.entered, fun other hother => ?_⟩
    rw [hlength]
    exact h.build_eq ▸ h.bounded other hother
  rw [Trail.addRoute, h.build_eq, entry_of_getElem? (List.getElem?_eq_getElem hservice), ok_bind,
    check_of_bounded htracks.bounded]
  exact Follows.ok htracks

end Trail

variable {ctx : Context} {scopes : List Scope} {trail : Trail} {build : Build}

/-- Entering an operation misses no service. -/
theorem enterOperation_follows {parent : Scope} (h : Trail.Tracks scopes trail build)
    (hparent : parent ∈ scopes) (path : String) (item : Members) (operation : String × Members) :
    Follows (Trail.Tracks scopes) (enterOperation ctx parent path item trail operation)
      (ApiGateway.enterOperation ctx parent path item build operation) := by
  refine Follows.bind_lift fun name => ?_
  refine (h.enter hparent operation.2 name).bind ?_
  rintro ⟨trail, scope⟩ ⟨build, _⟩ ⟨rfl, htracks⟩
  dsimp only at htracks ⊢
  rw [operationRoutes_eq]
  refine Follows.bind_lift fun planned => ?_
  obtain ⟨plugins, routes⟩ := planned
  refine (Follows.foldl htracks fun route _ trail build h => ?_).mono fun _ _ h =>
    h.subset (List.subset_cons_self _ _)
  exact h.addRoute List.mem_cons_self plugins route

/-- Entering a path and its operations misses no service. -/
theorem enterPath_follows {root : Scope} (h : Trail.Tracks scopes trail build)
    (hroot : root ∈ scopes) (path : String × Members) :
    Follows (Trail.Tracks scopes) (enterPath ctx root trail path)
      (ApiGateway.enterPath ctx root build path) := by
  refine Follows.bind_lift fun name => ?_
  refine (h.enter hroot path.2 name).bind ?_
  rintro ⟨trail, scope⟩ ⟨build, _⟩ ⟨rfl, htracks⟩
  refine Follows.bind_lift fun operations => ?_
  refine (Follows.foldlM htracks fun operation _ trail build h => ?_).mono fun _ _ h =>
    h.subset (List.subset_cons_self _ _)
  exact enterOperation_follows h List.mem_cons_self path.1 path.2 operation

/-! ## The whole compilation -/

/-- The path items of a document. Each is looked up by its template. -/
def pathItems (doc : Document) : Except Halt (List (String × Members)) :=
  let paths := (doc.root.object? "paths").getD []
  let templates := paths.filter fun (template, _) => template.toList.head? = some '/'
  templates.mapM fun path => do
    let raw ← valueOf paths path
    match ← lift (doc.resolve raw) with
    | .obj item => return (path.1, item)
    | _ => .error (.error (.structural (.pathItemNotObject path.1)))

/-- The search for the reference that closes a cycle, in component schemas that remain. Each is
looked up by its name. -/
def circularReference? (doc : Document) :
    Members → (cleared : List String) → Except Halt (Option String)
  | [], _ => .ok none
  | schema :: rest, cleared => do
    let reference := Document.schemaReference schema.1
    if reference ∈ cleared then circularReference? doc rest cleared
    else
      let value ← valueOf doc.schemas schema
      match value.walkReferences (doc.visit (doc.referenceBound + 1) [reference]) cleared with
      | .error closing => return some closing
      | .ok cleared => circularReference? doc rest (reference :: cleared)

/-- The configuration of a finished build. The first slot is read, and removed when the service of
the document is not used. -/
def finish (stamp : Stamp) (hasServers : Bool) (build : Build) : Except Halt Configuration := do
  let first ← entry build.slots 0
  let kept ←
    if !hasServers && 1 < build.slots.length && first.routes.isEmpty then do
      let owner := stamp.foreignKey first.service
      let rest ← removeAt build.slots 0
      pure ⟨rest, build.shared.filter fun plugin =>
        !((plugin.get? "service").map owner.sameValue).getD false⟩
    else pure build
  return { formatVersion := Configuration.currentFormat
           services := sortEntities (kept.slots.map Slot.complete)
           upstreams := sortEntities (kept.slots.filterMap (·.upstream))
           plugins := Plugin.sortShared kept.shared }

/-- A document that refers to itself is refused unless the options say otherwise. -/
def refuseCircular (doc : Document) (options : Options) : Except Halt Unit := do
  if options.ignoreCircularReferences then return
  match ← circularReference? doc doc.schemas [] with
  | some reference => .error (.error (.circular reference))
  | none => return

/-- Compiles a document, and checks every access on the way. -/
def compile (fresh : Uuid) (options : Options) (doc : Document) : Except Halt Configuration := do
  refuseCircular doc options
  let tags ← lift (doc.runTags options)
  let base ← lift (doc.baseName options fresh)
  let ctx : Context := ⟨doc, options, options.stamp tags⟩
  let (trail, root) ← Trail.ofDocument ctx base
  let trail ← (← pathItems doc).foldlM (enterPath ctx root) trail
  finish ctx.stamp (!doc.servers.isEmpty) trail.build

theorem pathItems_eq (doc : Document) : pathItems doc = lift doc.pathItems := by
  rw [pathItems, Document.pathItems]
  refine mapM_eq_lift fun path hpath => ?_
  obtain ⟨template, raw⟩ := path
  simp only [valueOf_of_mem (List.mem_of_mem_filter hpath), ok_bind, lift_bind]
  refine bind_congr fun value => ?_
  cases value <;> rfl

theorem circularReference?_eq (doc : Document) {schemas : Members} (cleared : List String)
    (hschemas : ∀ schema ∈ schemas, schema ∈ doc.schemas) :
    circularReference? doc schemas cleared =
      .ok (match schemas.foldlM doc.searchSchema cleared with
        | .error reference => some reference
        | .ok _ => none) := by
  induction schemas generalizing cleared with
  | nil => rfl
  | cons schema rest ih =>
    have hrest : ∀ other ∈ rest, other ∈ doc.schemas :=
      fun other hother => hschemas other (List.mem_cons_of_mem _ hother)
    have hvalue := valueOf_of_mem (hschemas schema List.mem_cons_self)
    rw [circularReference?, List.foldlM_cons, Document.searchSchema]
    split
    · exact ih _ hrest
    · simp only [hvalue, ok_bind]
      cases schema.2.walkReferences (doc.visit (doc.referenceBound + 1)
        [Document.schemaReference schema.1]) cleared with
      | error closing => rfl
      | ok cleared => exact ih _ hrest

theorem refuseCircular_eq (doc : Document) (options : Options) :
    refuseCircular doc options = lift (doc.refuseCircular options) := by
  rw [refuseCircular, circularReference?_eq doc [] fun _ h => h, Document.refuseCircular,
    Document.circularReference?]
  cases options.ignoreCircularReferences with
  | true => rfl
  | false => cases doc.schemas.foldlM doc.searchSchema [] <;> rfl

/-- Finishing a build that is not empty misses no slot. -/
theorem finish_eq (stamp : Stamp) (hasServers : Bool) {build : Build} (h : build.slots ≠ []) :
    finish stamp hasServers build = .ok (build.finish stamp hasServers) := by
  obtain ⟨slots, shared⟩ := build
  obtain ⟨first, rest, rfl⟩ := List.exists_cons_of_ne_nil h
  rw [finish, entry_cons_zero, ok_bind, Build.finish, Build.dropUnused]
  cases rest with
  | nil => simp [pure, Except.pure]
  | cons second rest =>
    simp only [List.length_cons, Nat.lt_add_left_iff_pos, Nat.zero_lt_succ, decide_true,
      Bool.and_true, removeAt_cons_zero, ok_bind]
    split <;> rfl

theorem Trail.ofDocument_follows (ctx : Context) (base : String) :
    Follows (fun entered plain => entered.2 = plain.2 ∧
        Tracks [plain.2] entered.1 plain.1)
      (Trail.ofDocument ctx base) (Scope.ofDocument ctx {} base) := by
  rw [Trail.ofDocument, Scope.ofDocument, cascadeOfDocument_eq]
  refine Follows.bind_lift fun inside => ?_
  obtain ⟨cascade, made⟩ := inside
  have hempty : Tracks [] ⟨{}, []⟩ {} := ⟨rfl, List.nil_subset _, by simp⟩
  have htracks := hempty.addService ctx cascade made
  have hindex : lastIndex (Build.addService ctx {} cascade.plugins made).slots =
      .ok (Build.slots {}).length := lastIndex_append_singleton _ _
  simp only [ok_bind, hindex, pure, Except.pure, check_of_bounded htracks.bounded]
  exact Follows.ok ⟨rfl, htracks⟩

/-- A compilation that checks every access is the plain one, whatever the document and the options
are. Every scope keeps its service until the end of the walk, every service has a first target and
every finished build a first slot, and templates and keys are cut at boundaries. So no run ends with
a fault: what is left are configurations and errors. -/
theorem compile_eq_lift (fresh : Uuid) (options : Options) (doc : Document) :
    compile fresh options doc = lift (ApiGateway.compile fresh options doc) ∧
      ∀ access, compile fresh options doc ≠ .error (.fault access) := by
  have heq : compile fresh options doc = lift (ApiGateway.compile fresh options doc) := by
    refine Follows.eq_lift ?_
    rw [compile_eq, Context.ofRun]
    simp only [← planned_of_document, bind_assoc, pure_bind]
    rw [compile, refuseCircular_eq]
    refine Follows.bind_lift fun _ => Follows.bind_lift fun tags => Follows.bind_lift fun base => ?_
    refine (Trail.ofDocument_follows _ base).bind ?_
    rintro ⟨trail, root⟩ ⟨build, _⟩ ⟨rfl, htracks⟩
    dsimp only at htracks ⊢
    rw [pathItems_eq]
    refine Follows.bind_lift fun paths => ?_
    refine (Follows.foldlM htracks fun path _ _ _ h =>
      enterPath_follows h (List.mem_singleton_self root) path).bind fun trail build h => ?_
    have hroot := h.bounded root (h.entered (List.mem_singleton_self root))
    obtain rfl := h.build_eq
    rw [finish_eq _ _ (List.ne_nil_of_length_pos (Nat.zero_lt_of_lt hroot))]
    exact Follows.ok rfl
  exact ⟨heq, fun access => heq ▸ lift_ne_fault _ access⟩

end ApiGateway.Guarded
