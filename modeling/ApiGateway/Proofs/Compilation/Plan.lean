import ApiGateway.Compilation.Compile
import ApiGateway.Proofs.Outcome
import Mathlib.Data.List.Basic

/-!
# Plans

A compilation numbers services as it makes them and hands routes to them by number. A plan is
what the walk makes without numbers: a tree of scopes, each with the service it makes, and the
routes of every operation. The walk with a build is the plan, followed by laying out the services
in the order of the walk, each with the routes of the operations it hosts.

## Main definitions

* `OperationPlan`, `PathPlan`, `Plan`: the tree.
* `Plan.of`: the plan of a document.
* `Plan.slots`, `Plan.shared`: the services with their routes, and the plugins of the top level.
* `Plan.configuration`: the configuration that a plan stands for.
-/
namespace ApiGateway

/-- A scope the walk enters: its object, its name, what it hands down, and its service if it
makes one. -/
structure ScopePlan where
  object : Members
  name : String
  cascade : Cascade
  made : Option Made

/-- An operation with its routes, and the plugins they are to carry. -/
structure OperationPlan extends ScopePlan where
  method : String
  plugins : List Members
  routes : List Members

/-- A path with its operations. -/
structure PathPlan extends ScopePlan where
  path : String
  endpoints : List OperationPlan

/-- A document with its paths. -/
structure Plan where
  root : Cascade
  made : Made
  paths : List PathPlan

/-! ## Planning -/

/-- The plan of an operation inside a path. -/
def OperationPlan.of (ctx : Context) (parent : Cascade) (path : String) (item : Members)
    (entry : String × Members) : Except Error OperationPlan := do
  let (method, operation) := entry
  let name ← operationName method operation
  let (cascade, made) ← parent.enter ctx operation name
  let (plugins, routes) ← cascade.operationRoutes ctx path item method operation
  return { object := operation, name, cascade, made, method, plugins, routes }

/-- The plan of a path. -/
def PathPlan.of (ctx : Context) (root : Cascade) (entry : String × Members) :
    Except Error PathPlan := do
  let (path, item) := entry
  let name ← pathName path item
  let (cascade, made) ← root.enter ctx item name
  let endpoints ← (← operations path item).mapM (OperationPlan.of ctx cascade path item)
  return { object := item, name, cascade, made, path, endpoints }

/-- The plan of a document under a base name. -/
def Plan.of (ctx : Context) (base : String) : Except Error Plan := do
  let (root, made) ← Cascade.ofDocument ctx base
  let paths ← (← ctx.doc.pathItems).mapM (PathPlan.of ctx root)
  return ⟨root, made, paths⟩

/-! ## Laying out -/

/-- The slot of a service that carries plugins and has routes. -/
def Made.slot (ctx : Context) (plugins routes : List Members) (made : Made) : Slot :=
  ⟨made.service.insert "plugins" (.ofObjects
    (Plugin.bubble "service" (ctx.stamp.foreignKey made.service) plugins).2), made.upstream, routes⟩

/-- The plugins of a service that leave it for the top level. -/
def Made.moved (ctx : Context) (plugins : List Members) (made : Made) : List Members :=
  (Plugin.bubble "service" (ctx.stamp.foreignKey made.service) plugins).1

namespace Route

/-- The plugins of a route, stamped for it. -/
def own (ctx : Context) (base : String) (plugins : List Members) (route : Members) :
    List Members :=
  plugins.map (Plugin.restamp ctx.stamp ((route.string? "name").getD base))

/-- A route with the plugins that stay with it. -/
def complete (ctx : Context) (base : String) (plugins : List Members) (route : Members) : Members :=
  route.insert "plugins" (.ofObjects
    (Plugin.bubble "route" (ctx.stamp.foreignKey route) (own ctx base plugins route)).2)

/-- The plugins of a route that leave it for the top level. -/
def moved (ctx : Context) (base : String) (plugins : List Members) (route : Members) :
    List Members :=
  (Plugin.bubble "route" (ctx.stamp.foreignKey route) (own ctx base plugins route)).1

end Route

/-- A slot with more routes. -/
def Slot.addRoutes (routes : List Members) (slot : Slot) : Slot :=
  { slot with routes := slot.routes ++ routes }

namespace OperationPlan

/-- The routes of an operation with their plugins. -/
def complete (ctx : Context) (op : OperationPlan) : List Members :=
  op.routes.map (Route.complete ctx op.cascade.base op.plugins)

/-- The routes that an operation leaves to the service around it. -/
def hosted (ctx : Context) (op : OperationPlan) : List Members :=
  match op.made with
  | some _ => []
  | none => op.complete ctx

/-- The slot of the service an operation makes. -/
def slots (ctx : Context) (op : OperationPlan) : List Slot :=
  match op.made with
  | some made => [made.slot ctx op.cascade.plugins (op.complete ctx)]
  | none => []

/-- The plugins that leave the service and the routes of an operation for the top level. -/
def shared (ctx : Context) (op : OperationPlan) : List Members :=
  (op.made.map (Made.moved ctx op.cascade.plugins)).getD [] ++
    op.routes.flatMap (Route.moved ctx op.cascade.base op.plugins)

end OperationPlan

namespace PathPlan

/-- The routes that a path leaves to the service of the document. -/
def hosted (ctx : Context) (p : PathPlan) : List Members :=
  match p.made with
  | some _ => []
  | none => p.endpoints.flatMap (OperationPlan.hosted ctx)

/-- The slots of the services that a path and its operations make. -/
def slots (ctx : Context) (p : PathPlan) : List Slot :=
  (match p.made with
    | some made => [made.slot ctx p.cascade.plugins
        (p.endpoints.flatMap (OperationPlan.hosted ctx))]
    | none => []) ++ p.endpoints.flatMap (OperationPlan.slots ctx)

/-- The plugins that leave a path and its operations for the top level. -/
def shared (ctx : Context) (p : PathPlan) : List Members :=
  (p.made.map (Made.moved ctx p.cascade.plugins)).getD [] ++
    p.endpoints.flatMap (OperationPlan.shared ctx)

end PathPlan

namespace Plan

/-- All slots in the order of the walk, the one of the document first. -/
def slots (ctx : Context) (plan : Plan) : List Slot :=
  plan.made.slot ctx plan.root.plugins (plan.paths.flatMap (PathPlan.hosted ctx)) ::
    plan.paths.flatMap (PathPlan.slots ctx)

/-- The plugins of the top level in the order of the walk. -/
def shared (ctx : Context) (plan : Plan) : List Members :=
  plan.made.moved ctx plan.root.plugins ++ plan.paths.flatMap (PathPlan.shared ctx)

/-- The configuration of a plan. -/
def configuration (ctx : Context) (plan : Plan) : Configuration :=
  Build.finish ctx.stamp (!ctx.doc.servers.isEmpty) ⟨plan.slots ctx, plan.shared ctx⟩

end Plan

/-! ## The walk follows the plan -/

section Lists
variable {α : Type} (f : α → α)

private theorem modify_append_left {front : List α} {i : ℕ} (hi : i < front.length)
    (back : List α) : (front ++ back).modify i f = front.modify i f ++ back := by
  induction front generalizing i with
  | nil => simp at hi
  | cons a front ih =>
    cases i with
    | zero => rfl
    | succ i => simpa using ih (by simpa using hi)

private theorem modify_append_length (front back : List α) (a : α) :
    (front ++ a :: back).modify front.length f = front ++ f a :: back := by
  induction front with
  | nil => rfl
  | cons b front ih => simpa using ih

end Lists

/-- A fold that computes a value at every entry and then updates its state is the list of those
values, followed by the updates. -/
theorem foldlM_eq_map_foldl {ε α β σ : Type} {step : σ → α → Except ε σ} {plan : α → Except ε β}
    {update : σ → β → σ} {entries : List α} (Inv : σ → Prop)
    (hinv : ∀ s b, Inv s → Inv (update s b))
    (hstep : ∀ s a, Inv s → step s a = (plan a).map (update s)) (s : σ) (hs : Inv s) :
    entries.foldlM step s = (entries.mapM plan).map fun planned => planned.foldl update s := by
  induction entries generalizing s with
  | nil => rfl
  | cons a entries ih =>
    rw [List.foldlM_cons, List.mapM_cons, hstep s a hs]
    cases plan a with
    | error e => rfl
    | ok b =>
      change entries.foldlM step (update s b) = _
      rw [ih _ (hinv s b hs)]
      cases entries.mapM plan with
      | error e => rfl
      | ok planned => rfl

/-- Adding no routes changes nothing. -/
@[simp] theorem Slot.addRoutes_nil : Slot.addRoutes [] = id := by
  funext slot
  simp [Slot.addRoutes]

@[simp] theorem Slot.addRoutes_addRoutes (routes more : List Members) (slot : Slot) :
    (slot.addRoutes routes).addRoutes more = slot.addRoutes (routes ++ more) := by
  simp [Slot.addRoutes, List.append_assoc]

/-- Routes added one by one are routes added together. -/
theorem Build.foldl_addRoute (ctx : Context) (index : ℕ) (base : String)
    (plugins routes : List Members) (build : Build) :
    routes.foldl (Build.addRoute ctx index base plugins) build =
      ⟨build.slots.modify index (Slot.addRoutes (routes.map (Route.complete ctx base plugins))),
        build.shared ++ routes.flatMap (Route.moved ctx base plugins)⟩ := by
  induction routes generalizing build with
  | nil => simp
  | cons route routes ih =>
    rw [List.foldl_cons, ih]
    have hslots : (Build.addRoute ctx index base plugins build route).slots =
        build.slots.modify index (Slot.addRoutes [Route.complete ctx base plugins route]) := rfl
    have hshared : (Build.addRoute ctx index base plugins build route).shared =
        build.shared ++ Route.moved ctx base plugins route := rfl
    rw [hslots, hshared, List.modify_modify_eq]
    simp [Function.comp_def]

/-- A build with more routes for one slot, more slots, and more plugins of the top level. -/
def Build.grow (host : ℕ) (build : Build) (routes : List Members) (slots : List Slot)
    (shared : List Members) : Build :=
  ⟨build.slots.modify host (Slot.addRoutes routes) ++ slots, build.shared ++ shared⟩

/-- Growing step by step is growing by everything together. -/
theorem Build.foldl_grow {α : Type} (host : ℕ) (routes : α → List Members) (slots : α → List Slot)
    (shared : α → List Members) (entries : List α) (build : Build)
    (hhost : host < build.slots.length) :
    entries.foldl (fun b a => b.grow host (routes a) (slots a) (shared a)) build =
      build.grow host (entries.flatMap routes) (entries.flatMap slots)
        (entries.flatMap shared) := by
  induction entries generalizing build with
  | nil => simp [grow]
  | cons a entries ih =>
    have hlen : host < (build.slots.modify host (Slot.addRoutes (routes a))).length := by
      simpa using hhost
    have hnext : host < (build.grow host (routes a) (slots a) (shared a)).slots.length := by
      simp only [grow, List.length_append]
      omega
    rw [List.foldl_cons, ih _ hnext]
    simp only [grow]
    rw [modify_append_left _ hlen, List.modify_modify_eq]
    simp [Function.comp_def]

theorem Build.addService_eq (ctx : Context) (build : Build) (plugins : List Members)
    (made : Made) : build.addService ctx plugins made =
      ⟨build.slots ++ [made.slot ctx plugins []], build.shared ++ made.moved ctx plugins⟩ := rfl

/-- Entering an operation is planning it, and growing by its routes and its service. -/
theorem enterOperation_eq (ctx : Context) (parent : Scope) (path : String) (item : Members)
    (build : Build) (entry : String × Members) :
    enterOperation ctx parent path item build entry =
      (OperationPlan.of ctx parent.toCascade path item entry).map fun op =>
        build.grow parent.service (op.hosted ctx) (op.slots ctx) (op.shared ctx) := by
  obtain ⟨method, operation⟩ := entry
  simp only [enterOperation, OperationPlan.of, Scope.enter]
  cases operationName method operation with
  | error e => rfl
  | ok name =>
    simp only [ok_bind]
    cases parent.toCascade.enter ctx operation name with
    | error e => rfl
    | ok entered =>
      obtain ⟨cascade, made⟩ := entered
      simp only [ok_bind]
      cases made with
      | some made =>
        simp only [pure, Except.pure, ok_bind]
        cases cascade.operationRoutes ctx path item method operation with
        | error e => rfl
        | ok planned =>
          simp only [ok_bind, map_ok, Build.foldl_addRoute, Build.addService_eq, Build.grow]
          rw [modify_append_length]
          simp [OperationPlan.hosted, OperationPlan.slots, OperationPlan.shared,
            OperationPlan.complete, Made.slot, Slot.addRoutes]
      | none =>
        simp only [pure, Except.pure, ok_bind]
        cases cascade.operationRoutes ctx path item method operation with
        | error e => rfl
        | ok planned =>
          simp only [ok_bind, map_ok, Build.foldl_addRoute, Build.grow]
          simp [OperationPlan.hosted, OperationPlan.slots, OperationPlan.shared,
            OperationPlan.complete]

/-- Operations entered one after the other are operations planned and then laid out. -/
theorem foldlM_enterOperation (ctx : Context) (scope : Scope) (path : String) (item : Members)
    (entries : List (String × Members)) (build : Build)
    (hscope : scope.service < build.slots.length) :
    entries.foldlM (enterOperation ctx scope path item) build =
      (entries.mapM (OperationPlan.of ctx scope.toCascade path item)).map fun endpoints =>
        build.grow scope.service (endpoints.flatMap (OperationPlan.hosted ctx))
          (endpoints.flatMap (OperationPlan.slots ctx))
          (endpoints.flatMap (OperationPlan.shared ctx)) := by
  rw [foldlM_eq_map_foldl (fun _ => True) (fun _ _ _ => trivial)
    (fun b entry _ => enterOperation_eq ctx scope path item b entry) build trivial]
  simp only [Build.foldl_grow scope.service _ _ _ _ build hscope]

/-- Entering a path is planning it, and growing by its routes and its services. -/
theorem enterPath_eq (ctx : Context) (root : Scope) (build : Build) (entry : String × Members)
    (hroot : root.service < build.slots.length) :
    enterPath ctx root build entry =
      (PathPlan.of ctx root.toCascade entry).map fun p =>
        build.grow root.service (p.hosted ctx) (p.slots ctx) (p.shared ctx) := by
  obtain ⟨path, item⟩ := entry
  simp only [enterPath, PathPlan.of, Scope.enter]
  cases pathName path item with
  | error e => rfl
  | ok name =>
    simp only [ok_bind]
    cases root.toCascade.enter ctx item name with
    | error e => rfl
    | ok entered =>
      obtain ⟨cascade, made⟩ := entered
      simp only [ok_bind]
      cases made with
      | some made =>
        simp only [pure, Except.pure, ok_bind]
        cases operations path item with
        | error e => rfl
        | ok entries =>
          simp only [ok_bind, Build.addService_eq]
          rw [foldlM_enterOperation _ _ _ _ _ _ (by simp)]
          cases entries.mapM (OperationPlan.of ctx cascade path item) with
          | error e => rfl
          | ok endpoints =>
            simp only [ok_bind, map_ok, Build.grow]
            rw [modify_append_length]
            simp [PathPlan.hosted, PathPlan.slots, PathPlan.shared, Made.slot, Slot.addRoutes]
      | none =>
        simp only [pure, Except.pure, ok_bind]
        cases operations path item with
        | error e => rfl
        | ok entries =>
          simp only [ok_bind]
          rw [foldlM_enterOperation ctx ⟨cascade, root.service⟩ path item entries build hroot]
          cases entries.mapM (OperationPlan.of ctx cascade path item) with
          | error e => rfl
          | ok endpoints => simp [PathPlan.hosted, PathPlan.slots, PathPlan.shared]

/-- Paths entered one after the other are paths planned and then laid out. -/
theorem foldlM_enterPath (ctx : Context) (root : Scope) (entries : List (String × Members))
    (build : Build) (hroot : root.service < build.slots.length) :
    entries.foldlM (enterPath ctx root) build =
      (entries.mapM (PathPlan.of ctx root.toCascade)).map fun paths =>
        build.grow root.service (paths.flatMap (PathPlan.hosted ctx))
          (paths.flatMap (PathPlan.slots ctx)) (paths.flatMap (PathPlan.shared ctx)) := by
  have hinv : ∀ (b : Build) (p : PathPlan), root.service < b.slots.length →
      root.service < (b.grow root.service (p.hosted ctx) (p.slots ctx)
        (p.shared ctx)).slots.length := by
    intro b p hb
    simp only [Build.grow, List.length_append, List.length_modify]
    omega
  rw [foldlM_eq_map_foldl _ hinv (fun b entry hb => enterPath_eq ctx root b entry hb) build hroot]
  simp only [Build.foldl_grow root.service _ _ _ _ build hroot]

/-! ## Compiling is planning -/

/-- A document that refers to itself is refused unless the options say otherwise. -/
def Document.refuseCircular (doc : Document) (options : Options) : Except Error Unit :=
  match options.ignoreCircularReferences, doc.circularReference? with
  | false, some reference => .error (.circular reference)
  | _, _ => .ok ()

/-- The tags of a run: those of the options, else those of the document. -/
def Document.runTags (doc : Document) (options : Options) : Except Error (List String) :=
  match options.tags with
  | some tags => .ok tags
  | none => (Directive.tags? doc).map (·.getD [])

/-- What a run settles before its walk: the context and the base name of the document. -/
def Context.ofRun (fresh : Uuid) (options : Options) (doc : Document) :
    Except Error (Context × String) := do
  doc.refuseCircular options
  let tags ← doc.runTags options
  let base ← doc.baseName options fresh
  return (⟨doc, options, options.stamp tags⟩, base)

/-- What a run settles: its document, its options, a stamp with some tags, and the base name. -/
theorem Context.ofRun_cases {fresh : Uuid} {options : Options} {doc : Document} {ctx : Context}
    {base : String} (h : Context.ofRun fresh options doc = .ok (ctx, base)) :
    ctx.doc = doc ∧ ctx.options = options ∧ (∃ tags, ctx.stamp = options.stamp tags) ∧
      doc.baseName options fresh = .ok base := by
  simp only [Context.ofRun] at h
  obtain ⟨-, -, h⟩ := bind_eq_ok_iff.1 h
  obtain ⟨tags, -, h⟩ := bind_eq_ok_iff.1 h
  obtain ⟨name, hname, h⟩ := bind_eq_ok_iff.1 h
  obtain ⟨rfl, rfl⟩ := Prod.mk.inj (Except.ok.inj h)
  exact ⟨rfl, rfl, ⟨tags, rfl⟩, hname⟩

/-- The stamp of a run has the tags of the run. -/
theorem Context.exists_runTags_of_ofRun {fresh : Uuid} {options : Options} {doc : Document}
    {ctx : Context} {base : String} (h : Context.ofRun fresh options doc = .ok (ctx, base)) :
    ∃ tags, doc.runTags options = .ok tags ∧ ctx.stamp = options.stamp tags := by
  simp only [Context.ofRun] at h
  obtain ⟨-, -, h⟩ := bind_eq_ok_iff.1 h
  obtain ⟨tags, htags, h⟩ := bind_eq_ok_iff.1 h
  obtain ⟨name, -, h⟩ := bind_eq_ok_iff.1 h
  obtain ⟨rfl, -⟩ := Prod.mk.inj (Except.ok.inj h)
  exact ⟨tags, htags, rfl⟩

/-- The document of a run is entered by planning it. -/
theorem planned_of_document (ctx : Context) (base : String) :
    (do
      let (build, root) ← Scope.ofDocument ctx {} base
      let build ← (← ctx.doc.pathItems).foldlM (enterPath ctx root) build
      return build.finish ctx.stamp (!ctx.doc.servers.isEmpty)) =
      (Plan.of ctx base).map (Plan.configuration ctx) := by
  simp only [Scope.ofDocument, Plan.of]
  cases Cascade.ofDocument ctx base with
  | error e => rfl
  | ok entered =>
    obtain ⟨root, made⟩ := entered
    simp only [pure, Except.pure, ok_bind]
    cases ctx.doc.pathItems with
    | error e => rfl
    | ok items =>
      simp only [ok_bind, Build.addService_eq]
      rw [foldlM_enterPath _ _ _ _ (by simp)]
      cases items.mapM (PathPlan.of ctx root) with
      | error e => rfl
      | ok paths =>
        simp [Plan.configuration, Plan.slots, Plan.shared, Build.grow, Made.slot, Slot.addRoutes]

/-- Compiling a document is settling the run, planning the walk and laying out the plan. -/
theorem compile_eq (fresh : Uuid) (options : Options) (doc : Document) :
    compile fresh options doc = (do
      let (ctx, base) ← Context.ofRun fresh options doc
      (Plan.of ctx base).map (Plan.configuration ctx)) := by
  simp only [compile, Context.ofRun, Document.refuseCircular, Document.runTags,
    ← planned_of_document]
  -- what is settled before the walk either fails alike on both sides or gives them the same run
  cases options.ignoreCircularReferences <;> cases doc.circularReference? <;>
    cases options.tags <;> cases Directive.tags? doc <;> cases doc.baseName options fresh <;> rfl

end ApiGateway
