import ApiGateway.Proofs.Compilation.Cascade
import ApiGateway.Proofs.Entity.View

/-!
# Plans without their marks

Two runs of one document with different tags, or of which one writes identifiers, make plans that
agree but for these marks, and either both succeed or fail alike. With different base names they
still succeed or fail alike: the plans agree in what is not made from a base name. The two runs are
followed side by side, scope by scope, with what each scope hands down looked at as the entities are.

## Main definitions

* `Context.vary`: a context whose run writes other marks, and `Context.retag`: other tags only.
* `View.cascade`, `View.operation`, `View.path`, `View.plan`: what is looked at on every level.

## Main results

* `View.map_enter`: the step into a scope, side by side.
* `View.map_plan_vary`: the whole walk, side by side.
-/
namespace ApiGateway

/-- A context whose run writes other marks. -/
def Context.vary (given : Option (List String)) (skipId : Bool) (stamp : Stamp) (ctx : Context) :
    Context :=
  ⟨ctx.doc, { ctx.options with tags := given, skipId := skipId }, stamp⟩

/-- A context whose run has other tags. -/
def Context.retag (given : Option (List String)) (tags : List String) (ctx : Context) : Context :=
  ⟨ctx.doc, { ctx.options with tags := given }, ctx.stamp.retag tags⟩

namespace Context
variable (given : Option (List String)) (skipId : Bool) (stamp : Stamp) (ctx : Context)

@[simp] theorem doc_vary : (ctx.vary given skipId stamp).doc = ctx.doc := rfl

@[simp] theorem naming_vary : (ctx.vary given skipId stamp).naming = ctx.naming := rfl

@[simp] theorem stamp_vary : (ctx.vary given skipId stamp).stamp = stamp := rfl

@[simp] theorem doc_retag (tags : List String) : (ctx.retag given tags).doc = ctx.doc := rfl

@[simp] theorem stamp_retag (tags : List String) :
    (ctx.retag given tags).stamp = ctx.stamp.retag tags := rfl

end Context

/-- Entering the document asks for the plugin of its security requirements after its directives. -/
theorem Cascade.ofDocument_eq (ctx : Context) (base : String) :
    Cascade.ofDocument ctx base = (do
      let defaults ← declaredDefaults ctx.doc ctx.doc.root
      let declared ← Plugin.build ctx.doc ctx.stamp base ctx.doc.root []
      let openId ← documentOpenId ctx
      let plugins := match openId with
        | some plugin => Plugin.insert (Plugin.extractValidator declared none).2
            (Plugin.restamp ctx.stamp base plugin)
        | none => (Plugin.extractValidator declared none).2
      let cascade : Cascade := ⟨base, defaults, ctx.doc.servers, plugins, [],
        (Plugin.extractValidator declared none).1, openId⟩
      return (cascade, ← cascade.make ctx)) := by
  simp only [ofDocument, documentOpenId]
  refine bind_congr fun defaults => bind_congr fun declared => ?_
  split <;> rfl

namespace View
variable {view : View} {ctx : Context} {given : Option (List String)} {skipId : Bool}
variable {stamp : Stamp}

/-- What a scope hands down, as it is looked at. -/
def cascade (view : View) (scope : Cascade) : Cascade :=
  { scope with
    base := view.shown scope.base
    plugins := scope.plugins.map (Members.hide view.pluginKeys)
    pending := scope.pending.map (Members.hide view.pluginKeys)
    validator := scope.validator.map (Members.hide view.pluginKeys) }

/-- A service with its upstream, as it is looked at. -/
def made (view : View) (made : Made) : Made :=
  ⟨view.entity made.service, made.upstream.map view.upstream⟩

/-- Scopes look alike when they do in each of their fields. -/
theorem cascade_eq_iff {scope scope' : Cascade} :
    view.cascade scope = view.cascade scope' ↔
      view.shown scope.base = view.shown scope'.base ∧ scope.defaults = scope'.defaults ∧
      scope.servers = scope'.servers ∧
      scope.plugins.map (Members.hide view.pluginKeys) =
        scope'.plugins.map (Members.hide view.pluginKeys) ∧
      scope.pending.map (Members.hide view.pluginKeys) =
        scope'.pending.map (Members.hide view.pluginKeys) ∧
      scope.validator.map (Members.hide view.pluginKeys) =
        scope'.validator.map (Members.hide view.pluginKeys) ∧ scope.openId = scope'.openId := by
  simp only [cascade, Cascade.mk.injEq]

/-! ## Scopes -/

section Scopes
variable {scope scope' : Cascade} (hstamp : view.Alike ctx.stamp stamp)
include hstamp

theorem map_make (h : view.cascade scope = view.cascade scope') :
    (scope.make ctx).map view.made = (scope'.make (ctx.vary given skipId stamp)).map view.made := by
  obtain ⟨hbase, hdefaults, hservers, -⟩ := cascade_eq_iff.1 h
  unfold Cascade.make
  rw [hservers, hdefaults]
  refine map_bind_congr (map_entity_service hstamp hbase _ _ _) ?_
  rintro ⟨entity, up⟩ ⟨entity', up'⟩ hmade
  obtain ⟨hentity, hup⟩ := Prod.mk.inj hmade
  simp only [pure, Except.pure, map_ok, made, hentity, hup]

/-- The document is entered alike. -/
theorem map_ofDocument {base base' : String} (hbase : view.shown base = view.shown base') :
    (Cascade.ofDocument ctx base).map (Prod.map view.cascade view.made) =
      (Cascade.ofDocument (ctx.vary given skipId stamp) base').map
        (Prod.map view.cascade view.made) := by
  rw [Cascade.ofDocument_eq, Cascade.ofDocument_eq]
  refine map_bind_congr_right _ fun defaults => ?_
  refine map_bind_congr (Plugin.map_hide_build hstamp hbase rfl)
    fun declared declared' hdeclared => ?_
  refine map_bind_congr_right _ fun openId => ?_
  obtain ⟨hvalidator, hplugins⟩ :=
    Plugin.extractValidator_congr hdeclared (rfl : Option.map _ none = _)
  generalize Plugin.extractValidator declared none = lists at hvalidator hplugins ⊢
  generalize Plugin.extractValidator declared' none = lists' at hvalidator hplugins ⊢
  have hcascade : view.cascade ⟨base, defaults, ctx.doc.servers, match openId with
        | some plugin => Plugin.insert lists.2 (Plugin.restamp ctx.stamp base plugin)
        | none => lists.2, [], lists.1, openId⟩ =
      view.cascade ⟨base', defaults, ctx.doc.servers, match openId with
        | some plugin =>
          Plugin.insert lists'.2 (Plugin.restamp stamp base' plugin)
        | none => lists'.2, [], lists'.1, openId⟩ := by
    refine cascade_eq_iff.2 ⟨hbase, rfl, rfl, ?_, rfl, hvalidator, rfl⟩
    cases openId with
    | none => exact hplugins
    | some plugin =>
      simp only [Plugin.map_insert (Plugin.name_hide view), hplugins,
        Plugin.hide_restamp_congr hstamp hbase (rfl : plugin.hide _ = plugin.hide _)]
  refine map_bind_congr (map_make hstamp hcascade) fun made made' hmade => ?_
  simp only [pure, Except.pure, map_ok, Prod.map_apply, hmade]
  exact congrArg (fun shown => Except.ok (shown, view.made made')) hcascade

/-- A scope inside another is entered alike when the other is. -/
theorem map_enter (h : view.cascade scope = view.cascade scope') (object : Members)
    (name : String) :
    (scope.enter ctx object name).map (Prod.map view.cascade (Option.map view.made)) =
      (scope'.enter (ctx.vary given skipId stamp) object name).map
        (Prod.map view.cascade (Option.map view.made)) := by
  obtain ⟨hbase, hdefaults, hservers, hplugins, hpending, hvalidator, hopenId⟩ :=
    cascade_eq_iff.1 h
  have hchild := shown_extend ctx.naming hbase name
  unfold Cascade.enter
  refine map_bind_congr_right _ fun own => ?_
  refine map_bind_congr (Plugin.map_hide_build hstamp hchild hplugins)
    fun declared declared' hdeclared => ?_
  obtain ⟨hown, hrest⟩ := Plugin.extractValidator_congr hdeclared hvalidator
  generalize Plugin.extractValidator declared scope.validator = lists at hown hrest ⊢
  generalize Plugin.extractValidator declared' scope'.validator = lists' at hown hrest ⊢
  simp only [hdefaults, hservers, hopenId, Context.naming_vary]
  generalize ctx.naming.extend scope.base name = child at hchild ⊢
  generalize ctx.naming.extend scope'.base name = child' at hchild ⊢
  have hcascade : ∀ defaults servers pending pending',
      pending.map (Members.hide view.pluginKeys) = pending'.map (Members.hide view.pluginKeys) →
      view.cascade ⟨child, defaults, servers, lists.2, pending, lists.1, scope'.openId⟩ =
        view.cascade ⟨child', defaults, servers, lists'.2, pending', lists'.1, scope'.openId⟩ :=
    fun _ _ _ _ h => cascade_eq_iff.2 ⟨hchild, rfl, rfl, hrest, h, hown, rfl⟩
  split
  · refine map_bind_congr (map_make hstamp (hcascade _ _ [] [] rfl)) fun made made' hmade => ?_
    simp only [pure, Except.pure, map_ok, Prod.map_apply, Option.map_some, hmade,
      hcascade _ _ [] [] rfl]
  · refine map_bind_congr (Plugin.map_hide_build hstamp hchild hpending)
      fun waiting waiting' hwaiting => ?_
    have hwait := (Plugin.extractValidator_congr hwaiting (rfl : Option.map _ none = _)).2
    simp only [pure, Except.pure, map_ok, Prod.map_apply, Option.map_none,
      hcascade _ _ _ _ hwait]

/-- The plugins of routes agree before the validator. -/
theorem map_withOpenId (h : view.cascade scope = view.cascade scope') (operation : Members) :
    (scope.withOpenId ctx operation).map (List.map (Members.hide view.pluginKeys)) =
      (scope'.withOpenId (ctx.vary given skipId stamp) operation).map
        (List.map (Members.hide view.pluginKeys)) := by
  obtain ⟨hbase, -, -, -, hpending, -, hopenId⟩ := cascade_eq_iff.1 h
  unfold Cascade.withOpenId
  rw [hopenId]
  by_cases hasks : (ctx.options.openId && operation.has "security") = true
  · have hasks' : ((ctx.vary given skipId stamp).options.openId &&
        operation.has "security") = true := hasks
    rw [if_pos hasks, if_pos hasks']
    refine map_bind_congr_right _ fun found => ?_
    cases found with
    | none => simp only [pure, Except.pure, map_ok, hpending]
    | some plugin =>
      dsimp only
      split
      · simp only [pure, Except.pure, map_ok, hpending]
      · simp only [pure, Except.pure, map_ok, Plugin.map_insert (Plugin.name_hide view), hpending,
          Context.stamp_vary,
          Plugin.hide_restamp_congr hstamp hbase (rfl : plugin.hide _ = plugin.hide _)]
  · have hasks' : ¬ ((ctx.vary given skipId stamp).options.openId &&
        operation.has "security") = true := hasks
    rw [if_neg hasks, if_neg hasks']
    simp only [map_ok, hpending]

/-- The plugins of routes agree. -/
theorem map_operationPlugins (h : view.cascade scope = view.cascade scope') (operation : Members)
    (parameters : List Parameter) (body : Option RequestBody) :
    (scope.operationPlugins ctx operation parameters body).map
        (List.map (Members.hide view.pluginKeys)) =
      (scope'.operationPlugins (ctx.vary given skipId stamp) operation parameters body).map
        (List.map (Members.hide view.pluginKeys)) := by
  obtain ⟨hbase, -, -, -, -, hvalidator, -⟩ := cascade_eq_iff.1 h
  rw [Cascade.operationPlugins_eq, Cascade.operationPlugins_eq]
  refine map_bind_congr (map_withOpenId hstamp h operation) fun own own' hown => ?_
  refine map_bind_congr (map_hide_requestValidator hstamp hbase ctx.doc ctx.naming parameters
    body hvalidator) fun found found' hfound => ?_
  cases found with
  | none =>
    obtain rfl : found' = none := by simpa using hfound.symm
    simp only [pure, Except.pure, map_ok, hown]
  | some p =>
    obtain ⟨q, rfl, hq⟩ := Option.map_eq_some_iff.1 hfound.symm
    simp only [pure, Except.pure, map_ok, Plugin.map_insert (Plugin.name_hide view), hown, hq]

/-- The route of an operation agrees before headers split it. -/
theorem entity_route (h : view.cascade scope = view.cascade scope') (method : String)
    (path : RoutePath) :
    view.entity (scope.route ctx method path) =
      view.entity (scope'.route (ctx.vary given skipId stamp) method path) := by
  obtain ⟨hbase, hdefaults, -⟩ := cascade_eq_iff.1 h
  have hstamped := entity_apply_congr hstamp hbase "route"
    (rfl : view.entity (scope'.defaults.route.getD []) = _)
  unfold Cascade.route
  rw [hdefaults]
  refine Members.hide_insertNew_congr "strip_path" (by decide) _ ?_
  refine Members.hide_insert_congr (Members.hide_insert_congr (Members.hide_insert_congr ?_
    fun _ => rfl) fun _ => rfl) fun _ => rfl
  exact Members.hide_insert_congr hstamped (eq_of_notMem_entityKeys hbase Json.str (by simp))

/-- The plugins and the routes of an operation agree. -/
theorem map_operationRoutes (h : view.cascade scope = view.cascade scope') (path : String)
    (item : Members) (method : String) (operation : Members) :
    (scope.operationRoutes ctx path item method operation).map
        (Prod.map (List.map (Members.hide view.pluginKeys)) (List.map view.entity)) =
      (scope'.operationRoutes (ctx.vary given skipId stamp) path item method operation).map
        (Prod.map (List.map (Members.hide view.pluginKeys)) (List.map view.entity)) := by
  obtain ⟨hbase, hdefaults, -⟩ := cascade_eq_iff.1 h
  have hpriority : scope.defaultPriority = scope'.defaultPriority := by
    rw [Cascade.defaultPriority, hdefaults, Cascade.defaultPriority]
  unfold Cascade.operationRoutes
  rw [hpriority]
  refine map_bind_congr_right _ fun parameters => ?_
  refine map_bind_congr_right _ fun body => ?_
  refine map_bind_congr (map_operationPlugins hstamp h operation parameters body)
    fun plugins plugins' hplugins => ?_
  refine map_bind_congr_right _ fun routePath => ?_
  refine map_bind_congr (map_entity_expandHeaders hstamp hbase ctx.doc ctx.naming parameters
    (entity_route hstamp h method routePath)) fun routes routes' hroutes => ?_
  simp only [pure, Except.pure, map_ok, Prod.map_apply, hplugins, hroutes]

end Scopes

/-! ## The walk -/

/-- An operation as it is looked at. -/
def operation (view : View) (op : OperationPlan) : OperationPlan :=
  { op with
    cascade := view.cascade op.cascade
    made := op.made.map view.made
    plugins := op.plugins.map (Members.hide view.pluginKeys)
    routes := op.routes.map view.entity }

/-- A path as it is looked at. -/
def path (view : View) (p : PathPlan) : PathPlan :=
  { p with
    cascade := view.cascade p.cascade
    made := p.made.map view.made
    endpoints := p.endpoints.map view.operation }

/-- A plan as it is looked at. -/
def plan (view : View) (plan : Plan) : Plan :=
  ⟨view.cascade plan.root, view.made plan.made, plan.paths.map view.path⟩

section Walk
variable (hstamp : view.Alike ctx.stamp stamp)
include hstamp

/-- Operations of scopes that agree are planned alike. -/
theorem map_operation {parent parent' : Cascade} (h : view.cascade parent = view.cascade parent')
    (path : String) (item : Members) (entry : String × Members) :
    (OperationPlan.of ctx parent path item entry).map view.operation =
      (OperationPlan.of (ctx.vary given skipId stamp) parent' path item entry).map
        view.operation := by
  obtain ⟨method, object⟩ := entry
  unfold OperationPlan.of
  refine map_bind_congr_right _ fun name => ?_
  refine map_bind_congr (map_enter hstamp h object name) ?_
  rintro ⟨scope, made⟩ ⟨scope', made'⟩ hentered
  obtain ⟨hscope, hmade⟩ := Prod.mk.inj hentered
  refine map_bind_congr (map_operationRoutes hstamp hscope path item method object) ?_
  rintro ⟨plugins, routes⟩ ⟨plugins', routes'⟩ hrouted
  obtain ⟨hplugins, hroutes⟩ := Prod.mk.inj hrouted
  simp only [pure, Except.pure, map_ok, operation, hscope, hmade, hplugins, hroutes]

/-- Paths are planned alike when the document is entered alike. -/
theorem map_path {root root' : Cascade} (h : view.cascade root = view.cascade root')
    (entry : String × Members) :
    (PathPlan.of ctx root entry).map view.path =
      (PathPlan.of (ctx.vary given skipId stamp) root' entry).map view.path := by
  obtain ⟨template, item⟩ := entry
  unfold PathPlan.of
  refine map_bind_congr_right _ fun name => ?_
  refine map_bind_congr (map_enter hstamp h item name) ?_
  rintro ⟨scope, made⟩ ⟨scope', made'⟩ hentered
  obtain ⟨hscope, hmade⟩ := Prod.mk.inj hentered
  refine map_bind_congr_right _ fun declared => ?_
  refine map_bind_congr
    (map_mapM_congr fun entry _ => map_operation hstamp hscope template item entry)
    fun endpoints endpoints' hendpoints => ?_
  simp only [pure, Except.pure, map_ok, View.path, hscope, hmade, hendpoints]

/-- The walk of one document goes alike with other marks, and under other base names that are not
looked at. -/
theorem map_plan_vary {base base' : String} (hbase : view.shown base = view.shown base') :
    (Plan.of ctx base).map view.plan =
      (Plan.of (ctx.vary given skipId stamp) base').map view.plan := by
  unfold Plan.of
  refine map_bind_congr (map_ofDocument hstamp hbase) ?_
  rintro ⟨root, made⟩ ⟨root', made'⟩ hentered
  obtain ⟨hroot, hmade⟩ := Prod.mk.inj hentered
  refine map_bind_congr_right _ fun items => ?_
  refine map_bind_congr (map_mapM_congr fun entry _ => map_path hstamp hroot entry)
    fun paths paths' hpaths => ?_
  simp only [pure, Except.pure, map_ok, View.plan, hroot, hmade, hpaths]

end Walk

/-- The walk of one document goes alike with other tags. -/
theorem map_plan {tags : List String} {base base' : String}
    (hbase : tagless.shown base = tagless.shown base') :
    (Plan.of ctx base).map tagless.plan =
      (Plan.of (ctx.retag given tags) base').map tagless.plan := by
  have hstamp : tagless.Alike ctx.stamp (ctx.stamp.retag tags) := ⟨tags, rfl⟩
  exact map_plan_vary hstamp hbase

end View

end ApiGateway
