import ApiGateway.Proofs.Compilation.References
import ApiGateway.Proofs.Validation.Template

/-!
# Request validators

A scope takes the validator out of its plugins and hands it down as a template, which the scopes
inside replace by their own. So no service has a validator, and nothing that waits for routes is
one. The template in effect for an operation is that of the nearest scope which declares one; what
the operation makes of it is the one validator of each of its routes.

## Main definitions

* `PathPlan.template?`: the template of the nearest scope that declares one.
* `Cascade.Templated`: a scope that hands down a template.
* `Creation.validators`: the validators of a service or a route.

## Main results

* `Plan.Planned.exists_validator`: the validator of a route.
* `Plan.Planned.validators_perm`: the validators of the top level.
* `validators_of_compile`: the validators of an output.
-/
namespace ApiGateway

open Plugin (Ordered find? validatorName isValidator declared?)

/-! ## Validators in lists -/

namespace Plugin
variable {plugins : List Members}

theorem isValidator_iff {plugin : Members} :
    isValidator plugin = true ↔ name plugin = validatorName := by
  rw [isValidator, beq_iff_eq]

/-- A list in order has one validator at most. -/
theorem Ordered.filter_isValidator (h : Ordered plugins) :
    plugins.filter isValidator = (find? plugins validatorName).toList :=
  filter_name_eq h.nodup_names validatorName

/-- A validator that is put in is the only one. -/
theorem Ordered.filter_isValidator_insert (h : Ordered plugins) {plugin : Members}
    (hname : name plugin = validatorName) :
    (Plugin.insert plugins plugin).filter isValidator = [plugin] := by
  rw [(h.insert plugin).filter_isValidator, find?_insert h, if_pos hname.symm]
  rfl

theorem filter_isValidator_eq_nil (h : ∀ p ∈ plugins, name p ≠ validatorName) :
    plugins.filter isValidator = [] :=
  List.filter_eq_nil_iff.2 fun p hp => mt isValidator_iff.1 (h p hp)

end Plugin

/-! ## Templates of scopes -/

namespace Cascade
variable {ctx : Context} {parent child root : Cascade} {object : Members} {name base : String}
  {template : Option Members}

/-- A scope hands down a template, stamped for the scope that declares it. -/
def Templated (ctx : Context) (scope : Cascade) (template : Option Members) : Prop :=
  ∃ origin, scope.validator = template.map (Plugin.restamp ctx.stamp origin)

/-- The document hands down the validator it declares. -/
theorem Templated.top {made : Made} (top : Top ctx base root made) :
    root.Templated ctx (declared? ctx.doc ctx.doc.root validatorName) := by
  obtain ⟨declared, hdeclared, hvalidator, -⟩ := top.lists
  obtain ⟨-, hfind⟩ := Plugin.build_spec (by simp) hdeclared
  refine ⟨base, ?_⟩
  rw [hvalidator, Plugin.fst_extractValidator, hfind]
  cases declared? ctx.doc ctx.doc.root validatorName <;> rfl

/-- A scope inside hands down the validator it declares, else the template around it. -/
theorem Templated.enter {made : Option Made} (h : parent.Templated ctx template)
    (hparent : parent.Stamped ctx) (inside : Inside ctx parent object name child made) :
    child.Templated ctx (declared? ctx.doc object validatorName <|> template) := by
  obtain ⟨origin, horigin⟩ := h
  obtain ⟨declared, hdeclared, hlists⟩ := inside.lists
  obtain ⟨-, hfind⟩ := Plugin.build_spec hparent.plugins.nodup_names hdeclared
  -- the lists around the scope have no validator that could be found in place of the template
  have hnone : find? parent.plugins validatorName = none := by
    refine List.find?_eq_none.2 fun p hp => ?_
    simpa using hparent.noValidator p hp
  rw [Templated, show child.validator = _ from congrArg Prod.fst hlists,
    Plugin.fst_extractValidator, hfind, hnone, horigin]
  cases declared? ctx.doc object validatorName with
  | none => exact ⟨origin, rfl⟩
  | some plugin => exact ⟨child.base, rfl⟩

/-- No validator waits for the routes of a scope inside another. -/
theorem Inside.name_ne_of_mem_pending {made : Option Made}
    (inside : Inside ctx parent object name child made) :
    ∀ p ∈ child.pending, Plugin.name p ≠ validatorName := by
  intro p hp
  obtain ⟨own, -, -, ⟨-, hnil, -⟩ | ⟨-, -, waiting, -, hpending⟩⟩ := inside.own
  · rw [hnil] at hp
    cases hp
  · rw [hpending] at hp
    exact name_ne_of_mem_extractValidator hp

/-- What an operation makes of the template in effect is the one validator that its routes are to
carry. -/
theorem exists_requestValidator {scope : Cascade} (hscope : scope.Stamped ctx)
    (hpending : ∀ p ∈ scope.pending, Plugin.name p ≠ validatorName) {operation : Members}
    {parameters : List Parameter} {body : Option RequestBody} {plugins : List Members}
    (h : scope.operationPlugins ctx operation parameters body = .ok plugins) :
    ∃ found, requestValidator ctx.doc ctx.naming ctx.stamp scope.base parameters body
        scope.validator = .ok found ∧ plugins.filter isValidator = found.toList := by
  rw [operationPlugins_eq] at h
  obtain ⟨own, hown, h⟩ := bind_eq_ok_iff.1 h
  obtain ⟨found, hfound, h⟩ := bind_eq_ok_iff.1 h
  obtain ⟨hord, hcases⟩ := withOpenId_spec hscope hown
  refine ⟨found, hfound, ?_⟩
  cases found with
  | none =>
    obtain rfl := Except.ok.inj h
    refine Plugin.filter_isValidator_eq_nil fun p hp => ?_
    obtain hp | ⟨hname, -⟩ := hcases p hp
    · exact hpending p hp
    · rw [hname]
      decide
  | some plugin =>
    obtain rfl := Except.ok.inj h
    exact hord.filter_isValidator_insert (name_of_requestValidator hfound)

end Cascade

/-- The validator that the nearest of an operation, its path and the document declares. -/
def PathPlan.template? (doc : Document) (p : PathPlan) (op : OperationPlan) : Option Members :=
  declared? doc op.object validatorName <|> (declared? doc p.object validatorName <|>
    declared? doc doc.root validatorName)

/-- The validators among the plugins of a service or a route. -/
def Creation.validators (x : Creation) : List Members := x.plugins.filter isValidator

/-- The validators that stay with their owner belong to no consumer. -/
theorem Creation.filter_pluginsOf_complete (ctx : Context) (x : Creation) :
    (Configuration.pluginsOf (x.complete ctx)).filter isValidator =
      x.validators.filter fun v => !Plugin.hasConsumer v := by
  rw [Configuration.pluginsOf, x.get?_plugins_complete, objectsIn_ofObjects, validators,
    List.filter_comm]

/-- The validators that leave their owner refer to it. -/
theorem Creation.filter_moved (ctx : Context) (x : Creation) :
    (x.moved ctx).filter isValidator =
      (x.validators.filter Plugin.hasConsumer).map (x.share ctx) := by
  have hshare : ∀ p, isValidator (x.share ctx p) = isValidator p := by
    intro p
    rw [isValidator, name_share, isValidator]
  have hmoved : x.moved ctx = (x.plugins.filter Plugin.hasConsumer).map (x.share ctx) := rfl
  rw [hmoved, List.filter_map, validators, List.filter_comm]
  simp only [Function.comp_def, hshare]

/-! ## Validators of a plan -/

namespace Plan
variable {ctx : Context} {root : String} {plan : Plan}

/-- No service has a validator. -/
theorem Planned.validators_eq_nil (h : plan.Planned ctx root) :
    ∀ x ∈ plan.services ctx, x.validators = [] := by
  intro x hx
  refine Plugin.filter_isValidator_eq_nil ?_
  obtain rfl | ⟨p, hp, ⟨made, -, rfl⟩ | ⟨op, hop, made, -, rfl⟩⟩ := mem_services_iff.1 hx
  · exact (Cascade.Stamped.top h.top).noValidator
  · exact (h.path_of_mem hp).2.noValidator
  · exact (h.operation_of_mem hp hop).2.noValidator

/-- A route has the validator that its operation makes of the template in effect, stamped for the
route, and no other. -/
theorem Planned.exists_validator (h : plan.Planned ctx root) {p : PathPlan} (hp : p ∈ plan.paths)
    {op : OperationPlan} (hop : op ∈ p.endpoints) :
    ∃ parameters body, ctx.doc.parameters p.object op.object = .ok parameters ∧
      ctx.doc.requestBody op.object = .ok body ∧
      ∀ x ∈ op.created ctx (p.endpoint ctx.doc op).site, ∃ found,
        requestValidator ctx.doc ctx.naming ctx.stamp x.name parameters body
          (p.template? ctx.doc op) = .ok found ∧ x.validators = found.toList := by
  obtain ⟨⟨_, path⟩, hpath⟩ := h.path_of_mem hp
  obtain ⟨⟨_, planned⟩, hscope⟩ := h.operation_of_mem hp hop
  obtain ⟨origin, htemplate⟩ : op.cascade.Templated ctx (p.template? ctx.doc op) :=
    ((Cascade.Templated.top h.top).enter (Cascade.Stamped.top h.top) path.inside).enter hpath
      planned.inside
  obtain ⟨parameters, body, template, hparameters, hbody, hplugins, -⟩ :=
    operationRoutes_cases planned.routed
  obtain ⟨made, hmade, hvalidators⟩ :=
    Cascade.exists_requestValidator hscope planned.inside.name_ne_of_mem_pending hplugins
  rw [htemplate] at hmade
  refine ⟨parameters, body, hparameters, hbody, ?_⟩
  intro x hx
  obtain ⟨route, -, rfl⟩ := List.mem_map.1 hx
  refine ⟨_, requestValidator_restamp hmade _, ?_⟩
  have hrestamp : ∀ name p, isValidator (Plugin.restamp ctx.stamp name p) = isValidator p := by
    intro name p
    rw [isValidator, Plugin.name_restamp, isValidator]
  rw [Creation.validators, Creation.ofRoute, Route.own, List.filter_map]
  simp only [Function.comp_def, hrestamp, hvalidators, Option.toList_map]

/-- A validator that leaves a route refers to no service. -/
theorem Planned.get?_service_share (h : plan.Planned ctx root) {x : Creation}
    (hx : x ∈ plan.routes ctx) {v : Members} (hv : v ∈ x.validators) :
    (x.share ctx v).get? "service" = none := by
  have hsound := h.sound_creations x (List.mem_append_right _ hx)
  obtain ⟨hmem, hvalidator⟩ := List.mem_filter.1 hv
  have hname : Plugin.name v ≠ openIdName := by
    rw [Plugin.isValidator_iff.1 hvalidator]
    decide
  rw [hsound.get?_share, holder_of_mem_routes hx, if_neg (by decide)]
  exact (hsound.unbound v hmem hname).1

/-- The validators of the top level are those of the routes that belong to consumers. -/
theorem Planned.validators_perm (h : plan.Planned ctx root) :
    ((plan.configuration ctx).plugins.filter isValidator).Perm
      ((plan.routes ctx).flatMap fun x =>
        (x.validators.filter Plugin.hasConsumer).map (x.share ctx)) := by
  have hmoved : ((plan.services ctx ++ plan.routes ctx).flatMap (Creation.moved ctx)).filter
      isValidator = (plan.routes ctx).flatMap fun x =>
        (x.validators.filter Plugin.hasConsumer).map (x.share ctx) := by
    have hservices : (plan.services ctx).flatMap (fun x =>
        (x.validators.filter Plugin.hasConsumer).map (x.share ctx)) = [] := by
      refine List.flatMap_eq_nil_iff.2 fun x hx => ?_
      rw [h.validators_eq_nil x hx]
      rfl
    rw [List.filter_flatMap]
    simp only [Creation.filter_moved, List.flatMap_append, hservices, List.nil_append]
  -- a validator cannot go with the service of the document, since it refers to none
  have hsurvive : ∀ v ∈ (plan.routes ctx).flatMap fun x =>
      (x.validators.filter Plugin.hasConsumer).map (x.share ctx), plan.survives ctx v = true := by
    intro v hv
    obtain ⟨x, hx, hv⟩ := List.mem_flatMap.1 hv
    obtain ⟨q, hq, rfl⟩ := List.mem_map.1 hv
    rw [h.survives_iff, h.get?_service_share hx (List.mem_of_mem_filter hq)]
    simp
  have hplugins : (plan.configuration ctx).plugins.Perm
      ((plan.shared ctx).filter (plan.survives ctx)) := plugins_perm
  have hshared : (plan.shared ctx).Perm _ := plan.shared_perm
  have hfilter := hplugins.filter isValidator
  rw [List.filter_comm] at hfilter
  have hkept := (hshared.filter isValidator).filter (plan.survives ctx)
  rw [hmoved, List.filter_eq_self.2 hsurvive] at hkept
  exact hfilter.trans hkept

end Plan

/-- Validators are asked for, the nearest template is the one in effect, and they sit on routes
alone. No service has one, neither by itself nor at the top level. The validators of a route are
what the validator declared by the nearest of operation, path and document gives for its operation,
stamped for the route: one if there is a template with something to validate, else none. It stands
with its route, or, when it belongs to a consumer, at the top level, where there are no others. -/
theorem validators_of_compile {fresh : Uuid} {options : Options} {doc : Document}
    {c : Configuration} (h : compile fresh options doc = .ok c) :
    (∀ s ∈ c.services, ∀ v ∈ Configuration.pluginsOf s, Plugin.name v ≠ validatorName) ∧
    (∀ v ∈ c.plugins, Plugin.name v = validatorName → v.has "service" = false) ∧
    ∃ ctx root plan, Context.ofRun fresh options doc = .ok (ctx, root) ∧
      Plan.of ctx root = .ok plan ∧ doc.outline = .ok (plan.paths.map (PathPlan.outline doc)) ∧
      c.routes.Perm ((plan.routes ctx).map (Creation.complete ctx)) ∧
      (c.plugins.filter isValidator).Perm ((plan.routes ctx).flatMap fun x =>
        (x.validators.filter Plugin.hasConsumer).map (x.share ctx)) ∧
      ∀ p ∈ plan.paths, ∀ op ∈ p.endpoints, ∃ parameters body,
        doc.parameters p.object op.object = .ok parameters ∧
        doc.requestBody op.object = .ok body ∧
        ∀ x ∈ op.created ctx (p.endpoint doc op).site, ∃ found,
          requestValidator doc options.naming ctx.stamp x.name parameters body
            (p.template? doc op) = .ok found ∧
          (found.isSome = true ↔
            ∃ t, p.template? doc op = some t ∧ Plugin.Checks t parameters body) ∧
          x.validators = found.toList ∧
          (Configuration.pluginsOf (x.complete ctx)).filter isValidator =
            found.toList.filter fun v => !Plugin.hasConsumer v := by
  obtain ⟨ctx, root, plan, hrun, hplan, rfl⟩ := exists_plan_of_compile h
  obtain ⟨rfl, rfl, -, -⟩ := Context.ofRun_cases hrun
  have planned := Plan.planned_of_of hplan
  refine ⟨?_, ?_, ctx, root, plan, hrun, hplan, outline_eq_of_planned planned,
    Plan.routes_perm_created, planned.validators_perm, ?_⟩
  · intro s hs v hv hname
    obtain ⟨x, hx, herase⟩ := Plan.exists_kept_of_mem_services hs
    have hnil := x.filter_pluginsOf_complete ctx
    rw [planned.validators_eq_nil x (plan.kept_subset_services hx)] at hnil
    rw [Configuration.pluginsOf, Members.get?_eq_of_erase_eq herase (by decide)] at hv
    exact List.filter_eq_nil_iff.1 hnil v hv (Plugin.isValidator_iff.2 hname)
  · intro v hv hname
    have hmem := List.mem_filter.2 ⟨hv, Plugin.isValidator_iff.2 hname⟩
    obtain ⟨x, hx, hshared⟩ := List.mem_flatMap.1 (planned.validators_perm.mem_iff.1 hmem)
    obtain ⟨q, hq, rfl⟩ := List.mem_map.1 hshared
    rw [Members.has, planned.get?_service_share hx (List.mem_of_mem_filter hq)]
    rfl
  · intro p hp op hop
    obtain ⟨parameters, body, hparameters, hbody, hvalidators⟩ := planned.exists_validator hp hop
    refine ⟨parameters, body, hparameters, hbody, ?_⟩
    intro x hx
    obtain ⟨found, hfound, hown⟩ := hvalidators x hx
    refine ⟨found, hfound, isSome_requestValidator_iff hfound, hown, ?_⟩
    rw [x.filter_pluginsOf_complete, hown]

/-- A parameter of a small document, as a query lists it. -/
def pageParameter : Json := .obj [("in", .str "query"), ("name", .str "page")]

/-- A small document with one path that declares a validator for a consumer, in place of the one of
the document, and whose one operation has a parameter. -/
def orderDocument : Document :=
  ⟨[("info", .obj [("title", .str "Orders")]),
    ("paths", .obj [("/orders", .obj [("get", .obj [("parameters", .arr [pageParameter])]),
      ("x-kong-plugin-request-validator", .obj [("consumer", .str "bob")])])]),
    ("x-kong-plugin-request-validator", .obj [])], "3.0.0"⟩

/-- Its one route has a validator, which stands at the top level. -/
theorem validators_of_compile_orders : ∃ c, compile Uuid.dns {} orderDocument = .ok c ∧
    (c.plugins.map fun v => (Plugin.name v, v.string? "consumer")) =
      [("request-validator", some "bob")] ∧
    (∀ s ∈ c.services, ∀ v ∈ Configuration.pluginsOf s, Plugin.name v ≠ validatorName) ∧
    ∃ (ctx : Context) (plan : Plan),
      c.routes.Perm ((plan.routes ctx).map (Creation.complete ctx)) ∧
      ∃ (p : PathPlan) (op : OperationPlan), plan.paths = [p] ∧ p.endpoints = [op] ∧
        ∀ x ∈ op.created ctx (p.endpoint orderDocument op).site, ∃ v, x.validators = [v] := by
  have hplugins : ((compile Uuid.dns {} orderDocument).toOption.map fun c =>
      c.plugins.map fun v => (Plugin.name v, v.string? "consumer")) =
        some [("request-validator", some "bob")] := by
    decide +kernel
  obtain ⟨c, hc, hplugins⟩ := Option.map_eq_some_iff.1 hplugins
  rw [toOption_eq_some_iff] at hc
  obtain ⟨hservices, -, ctx, root, plan, -, -, houtline, hroutes, -, hvalidators⟩ :=
    validators_of_compile hc
  -- the document has one path with one operation
  have hpaths := Except.ok.inj houtline
  obtain ⟨p, hp, houtline⟩ := List.map_eq_singleton_iff.1 hpaths.symm
  obtain ⟨op, hop, hendpoint⟩ :=
    List.map_eq_singleton_iff.1 (congrArg PathOutline.endpoints houtline)
  have hitem : p.object = [("get", .obj [("parameters", .arr [pageParameter])]),
      ("x-kong-plugin-request-validator", .obj [("consumer", .str "bob")])] :=
    congrArg PathOutline.item houtline
  have hobject : op.object = [("parameters", .arr [pageParameter])] :=
    congrArg Endpoint.operation hendpoint
  obtain ⟨parameters, body, hparameters, -, hcreated⟩ :=
    hvalidators p (by simp [hp]) op (by simp [hop])
  have hone : (orderDocument.parameters p.object op.object).toOption.map List.length = some 1 := by
    rw [hitem, hobject]
    decide +kernel
  have htemplate : (p.template? orderDocument op).isSome = true := by
    rw [PathPlan.template?, hitem, hobject]
    decide +kernel
  obtain ⟨template, htemplate⟩ := Option.isSome_iff_exists.1 htemplate
  have hchecks : Plugin.Checks template parameters body := by
    refine Or.inr (Or.inl ?_)
    rintro rfl
    rw [hparameters] at hone
    cases hone
  refine ⟨c, hc, hplugins, hservices, ctx, plan, hroutes, p, op, hp, hop, ?_⟩
  intro x hx
  obtain ⟨found, -, hfound, hown, -⟩ := hcreated x hx
  obtain ⟨v, rfl⟩ := Option.isSome_iff_exists.1 (hfound.2 ⟨template, htemplate, hchecks⟩)
  exact ⟨v, hown⟩

end ApiGateway
