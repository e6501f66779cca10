import ApiGateway.Proofs.Compilation.Protection
import ApiGateway.Proofs.Compilation.Validators

/-!
# Identifiers that a document gives

Without identifiers a stamp sets nothing but tags. It does not take an identifier away either: the
entities start as copies of what the document declares for them, so an `id` among the defaults of a
scope or in the settings of a plugin is copied to every entity made from them. Which one it is
follows from the scopes around the entity, like every other field.

## Main definitions

* `Site.plugin?`: the plugin of a name that is in effect at a site, as the document declares it.
* `Context.requirement?`: the plugin that an operation inserts for its own security requirements.
* `Creation.defaults`, `Creation.plugin?`: what a service or a route and its plugins are copies of.
* `Creation.GivenIds`: a service or a route of the output with the identifiers of what it copies.

## Main results

* `given_ids_of_compile`: the identifiers in an output without identifiers.
-/
namespace ApiGateway

open Plugin (Ordered find? validatorName declared?)

/-- What an entity has under `id`. -/
def Members.id? (entity : Members) : Option Json := entity.get? "id"

/-! ## What is in effect, as the document declares it -/

/-- The plugin that the document declares under a name. The one of its security requirements comes
before a directive. -/
def Context.documentPlugin? (ctx : Context) (sought : String) : Option Members :=
  match Cascade.documentOpenId ctx with
  | .ok (some plugin) =>
    if sought = openIdName then some plugin else declared? ctx.doc ctx.doc.root sought
  | _ => declared? ctx.doc ctx.doc.root sought

/-- The plugin of a name that the nearest of a scope and those around it declares. -/
def Site.plugin? (ctx : Context) (site : Site) (sought : String) : Option Members :=
  site.objects.dropLast.findSome? (declared? ctx.doc · sought) <|> ctx.documentPlugin? sought

/-- The plugin of the document's security requirements, if they give one. -/
def Context.openId? (ctx : Context) : Option Members := (Cascade.documentOpenId ctx).toOption.join

/-- The plugin that an operation inserts for security requirements of its own: the one that they
give, unless those of the document give the same. -/
def Context.requirement? (ctx : Context) (operation : Members) : Option Members :=
  if ctx.options.openId && operation.has "security" then
    (openIdConnect ctx.doc ctx.options.ignoreSecurityErrors (operation.get? "security")
      ctx.openId?).toOption.join.filter fun plugin =>
        !(ctx.openId?.map fun other => Json.sameMembers plugin other).getD false
  else none

namespace Site
variable {ctx : Context} {site : Site}

/-- A scope inside another has in effect what it declares, else what is in effect around it. -/
theorem plugin?_enter (hsite : site.objects ≠ []) (name : String) (object : Members)
    (sought : String) : (site.enter name object).plugin? ctx sought =
      (declared? ctx.doc object sought <|> site.plugin? ctx sought) := by
  rw [plugin?, plugin?, enter, List.dropLast_cons_of_ne_nil hsite, List.findSome?_cons]
  cases declared? ctx.doc object sought <;> rfl

theorem plugin?_document (sought : String) :
    (document ctx.doc).plugin? ctx sought = ctx.documentPlugin? sought := rfl

end Site

/-! ## Stamps without identifiers -/

namespace Members

/-- Other fields than the identifier may be set. -/
theorem id?_insert {key : String} (hne : "id" ≠ key) (entity : Members) (value : Json) :
    (entity.insert key value).id? = entity.id? := by
  simp [id?, get?_insert, hne]

theorem id?_insertNew {key : String} (hne : "id" ≠ key) (entity : Members) (value : Json) :
    (entity.insertNew key value).id? = entity.id? :=
  get?_insertNew_of_ne entity key value hne

end Members

section Stamps
variable {stamp : Stamp} (hskip : stamp.skipId = true)
include hskip

/-- Without identifiers a stamp sets the tags alone. -/
theorem Stamp.id?_apply (entity : Members) (base kind : String) :
    (stamp.apply entity base kind).id? = entity.id? := by
  rw [apply, if_pos hskip, Members.id?_insert (by decide)]

theorem Plugin.id?_restamp (base : String) (plugin : Members) :
    (restamp stamp base plugin).id? = plugin.id? :=
  Stamp.id?_apply hskip plugin base _

/-- A service has the identifier of its defaults, and so has its upstream. -/
theorem id?_of_service {base : String} {servers : List Json} {defaults : Defaults}
    {readUri : String → Except UriError Uri} {entity : Members} {up : Option Members}
    (h : service stamp base servers defaults readUri = .ok (entity, up)) :
    entity.id? = (defaults.service.getD []).id? ∧
      ∀ u, up = some u → u.id? = (defaults.upstream.getD []).id? := by
  obtain ⟨first, rest, filled, -, hfilled, hcases⟩ := service_cases h
  have hid : filled.id? = (defaults.service.getD []).id? := by
    rw [hfilled]
    simp only [filledService, Members.id?_insertNew, Members.id?_insert, Stamp.id?_apply hskip,
      ne_eq, String.reduceEq, not_false_eq_true]
  have hhost : ∀ host, (filled.insert "host" host).id? = (defaults.service.getD []).id? :=
    fun host => (Members.id?_insert (by decide) _ _).trans hid
  obtain ⟨-, rfl, rfl⟩ | ⟨-, -, -, rfl, rfl⟩ | ⟨-, -, rfl, rfl⟩ := hcases
  · exact ⟨hid, by simp⟩
  · exact ⟨hhost _, by simp⟩
  · refine ⟨hhost _, ?_⟩
    intro u hu
    obtain rfl := Option.some.inj hu
    simp only [upstream, Members.id?_insert, Stamp.id?_apply hskip, ne_eq, String.reduceEq,
      not_false_eq_true]

end Stamps

/-- The routes of an operation have the identifier of the route defaults in effect. -/
theorem id?_of_mem_expandHeaders {ctx : Context} (hskip : ctx.stamp.skipId = true)
    {scope : Cascade} {method : String} {path : RoutePath} {parameters : List Parameter}
    {routes : List Members}
    (h : expandHeaders ctx.doc ctx.naming ctx.stamp scope.base parameters
      (scope.route ctx method path) = .ok routes) :
    ∀ r ∈ routes, r.id? = (scope.defaults.route.getD []).id? := by
  have hroute : (scope.route ctx method path).id? = (scope.defaults.route.getD []).id? := by
    simp only [Cascade.route, Members.id?_insertNew, Members.id?_insert, Stamp.id?_apply hskip,
      ne_eq, String.reduceEq, not_false_eq_true]
  intro r hr
  obtain ⟨-, rfl⟩ | ⟨-, headers, -, rfl⟩ := expandHeaders_spec h
  · rwa [List.mem_singleton.1 hr]
  · obtain ⟨i, hi, rfl⟩ := List.mem_mapIdx.1 hr
    simp only [numberedRoute, Members.id?_insert, Stamp.id?_apply hskip, ne_eq, String.reduceEq,
      not_false_eq_true, hroute]

/-! ## Plugins of scopes -/

namespace Cascade
variable {ctx : Context}

/-- A scope whose plugins have the identifiers that the document gives: those in effect are the ones
in effect at its site, one waiting for routes is in effect at the site, and the template of
validators is. -/
structure Gives (ctx : Context) (site : Site) (scope : Cascade) : Prop where
  plugins : ∀ n ≠ validatorName,
    (find? scope.plugins n).map Members.id? = (site.plugin? ctx n).map Members.id?
  pending : ∀ p ∈ scope.pending, Plugin.name p ≠ validatorName ∧
    ∃ q, site.plugin? ctx (Plugin.name p) = some q ∧ p.id? = q.id?
  validator : scope.Templated ctx (site.plugin? ctx validatorName)

/-- A plugin in effect has the identifier of what the document declares. -/
theorem Gives.exists_plugin {site : Site} {scope : Cascade} (h : scope.Gives ctx site)
    (hscope : scope.Stamped ctx) {p : Members} (hp : p ∈ scope.plugins) :
    ∃ q, site.plugin? ctx (Plugin.name p) = some q ∧ p.id? = q.id? := by
  have hfound := (Plugin.find?_eq_some_iff hscope.plugins.nodup_names).2 ⟨hp, rfl⟩
  have heq := h.plugins _ (hscope.noValidator p hp)
  rw [hfound, Option.map_some] at heq
  obtain ⟨q, hq, hid⟩ := Option.map_eq_some_iff.1 heq.symm
  exact ⟨q, hq, hid.symm⟩

section Steps
variable (hskip : ctx.stamp.skipId = true)
include hskip

/-- The plugins of the document have the identifiers that it gives. -/
theorem Gives.top {base : String} {root : Cascade} {made : Made}
    (top : Top ctx base root made) : root.Gives ctx (Site.document ctx.doc) := by
  have hne : validatorName ≠ openIdName := by decide
  refine ⟨?_, ?_, ?_⟩
  · intro n hn
    rw [top.find?_plugins, if_neg hn, Site.plugin?_document, Context.documentPlugin?, top.openId_eq,
      Option.map_map]
    have hcopy : Members.id? ∘ Plugin.restamp ctx.stamp base = Members.id? :=
      funext (Plugin.id?_restamp hskip base)
    rw [hcopy]
    cases root.openId with
    | none => rfl
    | some plugin => by_cases hopen : n = openIdName <;> simp [hopen]
  · rw [top.pending_eq]
    simp
  · have htemplate : ctx.documentPlugin? validatorName =
        declared? ctx.doc ctx.doc.root validatorName := by
      unfold Context.documentPlugin?
      split
      · rw [if_neg hne]
      · rfl
    rw [Site.plugin?_document, htemplate]
    exact Templated.top top

/-- Inside a scope they still do. -/
theorem Gives.enter {site : Site} {parent child : Cascade} {object : Members} {name : String}
    {made : Option Made} (h : parent.Gives ctx site) (hsite : site.objects ≠ [])
    (hparent : parent.Stamped ctx) (inside : Inside ctx parent object name child made)
    (hchild : child.Stamped ctx) : child.Gives ctx (site.enter name object) := by
  refine ⟨?_, ?_, ?_⟩
  · intro n hn
    rw [inside.map_find?_plugins (Plugin.id?_restamp hskip) hparent hn, h.plugins n hn,
      Site.plugin?_enter hsite]
    cases declared? ctx.doc object n <;> rfl
  · intro p hp
    have hn := inside.name_ne_of_mem_pending p hp
    refine ⟨hn, ?_⟩
    cases made with
    | some m =>
      rw [inside.pending_eq_nil] at hp
      cases hp
    | none =>
      have hfound := (Plugin.find?_eq_some_iff hchild.pending.nodup_names).2 ⟨hp, rfl⟩
      have heq := inside.map_find?_pending (Plugin.id?_restamp hskip) hparent hn
      rw [hfound, Option.map_some] at heq
      rw [Site.plugin?_enter hsite]
      cases hdeclared : declared? ctx.doc object (Plugin.name p) with
      | some q =>
        rw [hdeclared] at heq
        exact ⟨q, rfl, Option.some.inj heq⟩
      | none =>
        -- what waits around the scope is in effect there, and so inside
        rw [hdeclared] at heq
        obtain ⟨around, haround, hid⟩ := Option.map_eq_some_iff.1 heq.symm
        obtain ⟨hmem, hname⟩ := (Plugin.find?_eq_some_iff hparent.pending.nodup_names).1 haround
        obtain ⟨-, q, hq, hgiven⟩ := h.pending around hmem
        exact ⟨q, hname ▸ hq, hid.symm.trans hgiven⟩
  · rw [Site.plugin?_enter hsite]
    exact h.validator.enter hparent inside

end Steps

/-! ## Plugins of routes -/

/-- Before the validator the plugins of routes are those that wait for them, with the one of the
operation's security requirements put in. -/
theorem eq_requirement?_of_withOpenId {scope : Cascade} {operation : Members}
    {own : List Members} (hdocument : documentOpenId ctx = .ok scope.openId)
    (h : scope.withOpenId ctx operation = .ok own) :
    own = match ctx.requirement? operation with
      | some plugin => Plugin.insert scope.pending (Plugin.restamp ctx.stamp scope.base plugin)
      | none => scope.pending := by
  have hopenId : ctx.openId? = scope.openId := by
    rw [Context.openId?, hdocument]
    rfl
  unfold withOpenId at h
  unfold Context.requirement?
  rw [hopenId]
  split at h
  · rename_i hasks
    rw [if_pos hasks]
    obtain ⟨found, hfound, h⟩ := bind_eq_ok_iff.1 h
    rw [hfound]
    cases found with
    | none => exact (Except.ok.inj h).symm
    | some plugin =>
      simp only at h
      rw [Except.toOption, Option.join_some, Option.filter_some]
      cases hsame : (scope.openId.map fun other => Json.sameMembers plugin other).getD false with
      | true =>
        rw [hsame] at h
        exact (Except.ok.inj h).symm
      | false =>
        rw [hsame] at h
        exact (Except.ok.inj h).symm
  · rename_i hasks
    rw [if_neg hasks]
    exact (Except.ok.inj h).symm

/-- The plugin of an operation's security requirements has the name of such plugins. -/
theorem Stamped.name_of_requirement? {scope : Cascade} {operation plugin : Members}
    (hscope : scope.Stamped ctx) (hdocument : documentOpenId ctx = .ok scope.openId)
    (h : ctx.requirement? operation = some plugin) : Plugin.name plugin = openIdName := by
  have hopenId : ctx.openId? = scope.openId := by
    rw [Context.openId?, hdocument]
    rfl
  unfold Context.requirement? at h
  rw [hopenId] at h
  split at h
  · obtain ⟨hplugin, -⟩ := Option.filter_eq_some_iff.1 h
    rw [Option.join_eq_some_iff, toOption_eq_some_iff] at hplugin
    exact hscope.name_of_openIdConnect hplugin
  · cases h

end Cascade

/-- The plugin of a name that the routes of an operation are to carry, as the document declares
it. -/
def Site.routePlugin? (ctx : Context) (site : Site) (operation : Members) (sought : String) :
    Option Members :=
  (if sought = openIdName then ctx.requirement? operation else none) <|> site.plugin? ctx sought

/-- The plugins of routes before the validator have the identifiers that the document gives. -/
theorem Cascade.Gives.withOpenId {ctx : Context} (hskip : ctx.stamp.skipId = true) {site : Site}
    {scope : Cascade} {operation : Members} {own : List Members} (h : scope.Gives ctx site)
    (hscope : scope.Stamped ctx) (hdocument : documentOpenId ctx = .ok scope.openId)
    (hown : scope.withOpenId ctx operation = .ok own) :
    ∀ p ∈ own, ∃ q, site.routePlugin? ctx operation (Plugin.name p) = some q ∧ p.id? = q.id? := by
  have hrequired := eq_requirement?_of_withOpenId hdocument hown
  intro p hp
  cases hrequirement : ctx.requirement? operation with
  | none =>
    rw [hrequirement] at hrequired
    rw [hrequired] at hp
    obtain ⟨-, q, hq, hid⟩ := h.pending p hp
    refine ⟨q, ?_, hid⟩
    rw [Site.routePlugin?, hrequirement, hq]
    split <;> rfl
  | some plugin =>
    rw [hrequirement] at hrequired
    have hname := hscope.name_of_requirement? hdocument hrequirement
    rw [hrequired, Plugin.mem_insert hscope.pending] at hp
    obtain rfl | ⟨hp, hother⟩ := hp
    · refine ⟨plugin, ?_, Plugin.id?_restamp hskip _ _⟩
      rw [Site.routePlugin?, Plugin.name_restamp, if_pos hname, hrequirement]
      rfl
    · obtain ⟨-, q, hq, hid⟩ := h.pending p hp
      rw [Plugin.name_restamp, hname] at hother
      refine ⟨q, ?_, hid⟩
      rw [Site.routePlugin?, if_neg hother, hq]
      rfl

/-- The plugins that the routes of an operation are to carry have the identifiers that the document
gives. -/
theorem Cascade.Gives.operationPlugins {ctx : Context} (hskip : ctx.stamp.skipId = true)
    {site : Site} {scope : Cascade} {operation : Members} {parameters : List Parameter}
    {body : Option RequestBody} {plugins : List Members} (h : scope.Gives ctx site)
    (hscope : scope.Stamped ctx) (hdocument : documentOpenId ctx = .ok scope.openId)
    (hplugins : scope.operationPlugins ctx operation parameters body = .ok plugins) :
    ∀ p ∈ plugins, ∃ q, site.routePlugin? ctx operation (Plugin.name p) = some q ∧
      p.id? = q.id? := by
  have hne : validatorName ≠ openIdName := by decide
  obtain ⟨own, hown, hcases⟩ := operationPlugins_cases hplugins
  have hwithout := h.withOpenId hskip hscope hdocument hown
  intro p hp
  obtain rfl | ⟨plugin, hvalidator, rfl⟩ := hcases
  · exact hwithout p hp
  · rw [Plugin.mem_insert (withOpenId_spec hscope hown).1] at hp
    obtain rfl | ⟨hp, -⟩ := hp
    · obtain ⟨declared, config, htemplate, rfl⟩ := requestValidator_cases hvalidator
      obtain ⟨origin, horigin⟩ := h.validator
      rw [htemplate] at horigin
      obtain ⟨q, hq, rfl⟩ := Option.map_eq_some_iff.1 horigin.symm
      refine ⟨q, ?_, ?_⟩
      · rw [name_of_requestValidator hvalidator, Site.routePlugin?, if_neg hne, hq]
        rfl
      · rw [Members.id?_insert (by decide), Plugin.id?_restamp hskip,
          Members.id?_insert (by decide), Plugin.id?_restamp hskip]
    · exact hwithout p hp

/-! ## Services and routes -/

namespace Creation

/-- The defaults that a service or a route is a copy of. -/
def defaults (doc : Document) (x : Creation) : Members :=
  match x.holder with
  | .service => (x.site.defaults doc).service.getD []
  | .route => (x.site.defaults doc).route.getD []

/-- The plugin of a name that a service or a route is made with, as the document declares it. -/
def plugin? (ctx : Context) (x : Creation) (sought : String) : Option Members :=
  match x.holder with
  | .service => x.site.plugin? ctx sought
  | .route => x.site.routePlugin? ctx (x.site.objects.headD []) sought

/-- A service or a route with the identifiers that the document gives: its own is that of the
defaults, and its plugins have those of the plugins that the document declares. -/
structure GivenIds (ctx : Context) (x : Creation) : Prop where
  entity : x.entity.id? = (x.defaults ctx.doc).id?
  upstream : ∀ up, x.upstream = some up →
    up.id? = ((x.site.defaults ctx.doc).upstream.getD []).id?
  plugins : ∀ p ∈ x.plugins, ∃ q, x.plugin? ctx (Plugin.name p) = some q ∧ p.id? = q.id?

variable {ctx : Context} (hskip : ctx.stamp.skipId = true)
include hskip

theorem givenIds_ofService {root : String} {site : Site} {scope : Cascade} {made : Made}
    (hf : Follows ctx root site scope) (hscope : scope.Stamped ctx) (hgives : scope.Gives ctx site)
    (hmake : scope.make ctx = .ok made) : (ofService site scope made).GivenIds ctx := by
  obtain ⟨hentity, hupstream⟩ := id?_of_service hskip (hf.make_eq hmake)
  exact ⟨hentity, hupstream, fun p hp => hgives.exists_plugin hscope hp⟩

theorem givenIds_ofRoute {site : Site} {base : String} {operation : Members}
    {plugins : List Members} {route : Members} (hsite : site.objects.headD [] = operation)
    (hroute : route.id? = ((site.defaults ctx.doc).route.getD []).id?)
    (hplugins : ∀ p ∈ plugins, ∃ q,
      site.routePlugin? ctx operation (Plugin.name p) = some q ∧ p.id? = q.id?) :
    (ofRoute ctx site base plugins route).GivenIds ctx := by
  refine ⟨hroute, by simp [ofRoute], ?_⟩
  intro p hp
  obtain ⟨r, hr, rfl⟩ := List.mem_map.1 hp
  obtain ⟨q, hq, hid⟩ := hplugins r hr
  refine ⟨q, ?_, (Plugin.id?_restamp hskip _ _).trans hid⟩
  rw [Plugin.name_restamp]
  simp only [plugin?, ofRoute, hsite]
  exact hq

end Creation

namespace Plan
variable {ctx : Context} {root : String} {plan : Plan}

/-- Every service and every route has the identifiers that the document gives. -/
theorem Planned.givenIds (h : plan.Planned ctx root) (hskip : ctx.stamp.skipId = true) :
    ∀ x ∈ plan.services ctx ++ plan.routes ctx, x.GivenIds ctx := by
  have hroot := Follows.document h.top
  have hstamped := Cascade.Stamped.top h.top
  have hgives := Cascade.Gives.top hskip h.top
  have hpath : ∀ p ∈ plan.paths, Follows ctx root (p.site ctx.doc) p.cascade ∧
      p.cascade.Gives ctx (p.site ctx.doc) := by
    intro p hp
    obtain ⟨⟨_, path⟩, hscope⟩ := h.path_of_mem hp
    exact ⟨hroot.enter path.inside,
      hgives.enter hskip (by simp [Site.document]) hstamped path.inside hscope⟩
  have hoperation : ∀ p ∈ plan.paths, ∀ op ∈ p.endpoints,
      Follows ctx root (p.endpoint ctx.doc op).site op.cascade ∧
        op.cascade.Gives ctx (p.endpoint ctx.doc op).site := by
    intro p hp op hop
    obtain ⟨⟨_, planned⟩, hscope⟩ := h.operation_of_mem hp hop
    obtain ⟨hf, hpathGives⟩ := hpath p hp
    exact ⟨hf.enter planned.inside,
      hpathGives.enter hskip (by simp [PathPlan.site, Site.enter]) (h.path_of_mem hp).2
        planned.inside hscope⟩
  intro x hx
  rcases List.mem_append.1 hx with hservice | hroute
  · obtain rfl | ⟨p, hp, ⟨made, hmade, rfl⟩ | ⟨op, hop, made, hmade, rfl⟩⟩ :=
      mem_services_iff.1 hservice
    · exact Creation.givenIds_ofService hskip hroot hstamped hgives h.top.make_eq
    · obtain ⟨⟨_, path⟩, hscope⟩ := h.path_of_mem hp
      obtain ⟨hf, hpathGives⟩ := hpath p hp
      exact Creation.givenIds_ofService hskip hf hscope hpathGives (path.inside.make_eq hmade)
    · obtain ⟨⟨_, planned⟩, hscope⟩ := h.operation_of_mem hp hop
      obtain ⟨hf, hopGives⟩ := hoperation p hp op hop
      exact Creation.givenIds_ofService hskip hf hscope hopGives (planned.inside.make_eq hmade)
  · obtain ⟨p, hp, op, hop, route, hmem, rfl⟩ := mem_created_iff.1 hroute
    obtain ⟨⟨_, path⟩, -⟩ := h.path_of_mem hp
    obtain ⟨⟨_, planned⟩, hscope⟩ := h.operation_of_mem hp hop
    obtain ⟨hf, hopGives⟩ := hoperation p hp op hop
    obtain ⟨parameters, body, template, -, -, hplugins, -, hexpand⟩ :=
      operationRoutes_cases planned.routed
    have hdocument : Cascade.documentOpenId ctx = .ok op.cascade.openId := by
      rw [planned.inside.openId_eq, path.inside.openId_eq, h.top.openId_eq]
    refine Creation.givenIds_ofRoute hskip rfl ?_
      (hopGives.operationPlugins hskip hscope hdocument hplugins)
    rw [← hf.defaults_eq]
    exact id?_of_mem_expandHeaders hskip hexpand route hmem

/-- A service that is kept and a route stand in the configuration. -/
theorem exists_mem_owners_of_kept {x : Creation} (hx : x ∈ plan.kept ctx ++ plan.routes ctx) :
    ∃ owner ∈ (plan.configuration ctx).services ++ (plan.configuration ctx).routes,
      ∀ key ≠ "routes", owner.get? key = (x.complete ctx).get? key := by
  rcases List.mem_append.1 hx with hservice | hroute
  · obtain ⟨s, hs, herase⟩ := exists_mem_services_of_kept hservice
    exact ⟨s, List.mem_append_left _ hs, fun _ hne => Members.get?_eq_of_erase_eq herase hne⟩
  · exact ⟨x.complete ctx, List.mem_append_right _ (mem_routes_iff.2 ⟨x, hroute, rfl⟩),
      fun _ _ => rfl⟩

end Plan

/-! ## Identifiers of the output -/

/-- What holds of all entities holds of services and routes with their plugins, of upstreams, and of
the plugins of the top level. -/
theorem Configuration.forall_entities_iff {c : Configuration} {P : Members → Prop} :
    (∀ e ∈ c.entities, P e.2) ↔
      (∀ owner ∈ c.services ++ c.routes, P owner ∧ ∀ p ∈ pluginsOf owner, P p) ∧
        (∀ up ∈ c.upstreams, P up) ∧ ∀ p ∈ c.plugins, P p := by
  have hroute : ∀ r, (∀ e ∈ entitiesOfRoute r, P e.2) ↔ P r ∧ ∀ p ∈ pluginsOf r, P p := by
    simp [entitiesOfRoute, ofPlugin]
  have hservice : ∀ s, (∀ e ∈ entitiesOfService s, P e.2) ↔
      (P s ∧ ∀ p ∈ pluginsOf s, P p) ∧ ∀ r ∈ routesOf s, P r ∧ ∀ p ∈ pluginsOf r, P p := by
    intro s
    simp only [entitiesOfService, List.cons_append, List.forall_mem_cons, List.forall_mem_append,
      List.forall_mem_map, List.forall_mem_flatMap, hroute, ofPlugin, and_assoc]
  simp only [entities, List.forall_mem_append, List.forall_mem_flatMap, List.forall_mem_map, hservice,
    forall_and, routes, ofPlugin, and_assoc]
  tauto

namespace Creation
variable {ctx : Context} {c : Configuration} {x : Creation}

/-- Nothing that a service or a route of an output is made from has an identifier: not its defaults,
not those of its upstream, and no plugin that stands in the output for it. -/
def LacksIds (ctx : Context) (c : Configuration) (x : Creation) : Prop :=
  (x.defaults ctx.doc).id? = none ∧
    (x.upstream.isSome → ((x.site.defaults ctx.doc).upstream.getD []).id? = none) ∧
    ∀ p ∈ x.plugins, x.Shows ctx c p → ∀ q, x.plugin? ctx (Plugin.name p) = some q → q.id? = none

theorem id?_complete (ctx : Context) (x : Creation) : (x.complete ctx).id? = x.entity.id? :=
  x.get?_complete ctx (by decide)

theorem id?_share (ctx : Context) (x : Creation) (plugin : Members) :
    (x.share ctx plugin).id? = plugin.id? :=
  Members.id?_insert (label_ne_of_ne (by decide) (by decide)) plugin _

/-- A plugin has an identifier when the one that the document declares does. -/
theorem GivenIds.id?_plugin (h : x.GivenIds ctx) {p : Members} (hp : p ∈ x.plugins) :
    p.id? = none ↔ ∀ q, x.plugin? ctx (Plugin.name p) = some q → q.id? = none := by
  obtain ⟨q, hq, hid⟩ := h.plugins p hp
  rw [hid, hq]
  simp

end Creation

namespace Plan
variable {ctx : Context} {root : String} {plan : Plan}

/-- What the entities of an output without identifiers are made from has none. -/
theorem lacksIds_of_forall {x : Creation} (hx : x ∈ plan.kept ctx ++ plan.routes ctx)
    (hgiven : x.GivenIds ctx) (hnone : ∀ e ∈ (plan.configuration ctx).entities, e.2.id? = none) :
    x.LacksIds ctx (plan.configuration ctx) := by
  obtain ⟨howners, hupstreams, hplugins⟩ := (Configuration.forall_entities_iff
    (P := fun entity => entity.id? = none)).1 hnone
  obtain ⟨owner, howner, hget⟩ := exists_mem_owners_of_kept hx
  obtain ⟨hid, hnested⟩ := howners owner howner
  refine ⟨?_, ?_, ?_⟩
  · rw [← hgiven.entity, ← x.id?_complete ctx]
    exact (hget "id" (by decide)).symm.trans hid
  · intro hup
    obtain ⟨up, hbacks⟩ := Option.isSome_iff_exists.1 hup
    have hkept : x ∈ plan.kept ctx := by
      refine (List.mem_append.1 hx).resolve_right fun hroute => ?_
      obtain ⟨p, -, op, -, route, -, rfl⟩ := mem_created_iff.1 hroute
      cases hbacks
    rw [← hgiven.upstream up hbacks]
    exact hupstreams up (upstreams_perm_kept.mem_iff.2 (List.mem_filterMap.2 ⟨x, hkept, hbacks⟩))
  · intro p hp hshows
    rw [← hgiven.id?_plugin hp]
    obtain hstays | hleaves := hshows
    · refine hnested p ?_
      rwa [Configuration.pluginsOf, hget "plugins" (by decide)]
    · exact (x.id?_share ctx p).symm.trans (hplugins _ hleaves)

/-- Every plugin of the top level is one that a service that is kept, or a route, shares. -/
theorem Planned.exists_share_of_kept (h : plan.Planned ctx root) :
    ∀ p ∈ (plan.configuration ctx).plugins, ∃ x ∈ plan.kept ctx ++ plan.routes ctx,
      ∃ q ∈ x.plugins, x.share ctx q = p := by
  intro p hp
  obtain ⟨x, hx, q, hq, -, hshare⟩ := h.exists_share_of_mem_plugins hp
  exact ⟨x, hx, q, hq, hshare⟩

/-- Entities made from what has no identifiers have none. -/
theorem Planned.id?_eq_none_of_lacksIds (h : plan.Planned ctx root)
    (hgiven : ∀ x ∈ plan.kept ctx ++ plan.routes ctx, x.GivenIds ctx)
    (hlacks : ∀ x ∈ plan.kept ctx ++ plan.routes ctx, x.LacksIds ctx (plan.configuration ctx)) :
    ∀ e ∈ (plan.configuration ctx).entities, e.2.id? = none := by
  refine (Configuration.forall_entities_iff (P := fun entity => entity.id? = none)).2 ⟨?_, ?_, ?_⟩
  · intro owner howner
    obtain ⟨x, hx, hget⟩ := exists_kept_of_mem_owners howner
    obtain ⟨hdefaults, -, hplugins⟩ := hlacks x hx
    refine ⟨?_, ?_⟩
    · refine (hget "id" (by decide)).trans ((x.id?_complete ctx).trans ?_)
      rw [(hgiven x hx).entity, hdefaults]
    · intro p hp
      rw [Configuration.pluginsOf, hget "plugins" (by decide)] at hp
      have hmem : p ∈ x.plugins := by
        rw [x.get?_plugins_complete, objectsIn_ofObjects] at hp
        exact List.mem_of_mem_filter hp
      exact ((hgiven x hx).id?_plugin hmem).2 (hplugins p hmem (Or.inl hp))
  · intro up hup
    obtain ⟨x, hx, hbacks⟩ := List.mem_filterMap.1 (upstreams_perm_kept.mem_iff.1 hup)
    have hkept := List.mem_append_left (plan.routes ctx) hx
    rw [(hgiven x hkept).upstream up hbacks]
    exact (hlacks x hkept).2.1 (by rw [hbacks]; rfl)
  · intro p hp
    obtain ⟨x, hx, q, hq, rfl⟩ := h.exists_share_of_kept p hp
    rw [x.id?_share]
    exact ((hgiven x hx).id?_plugin hq).2 ((hlacks x hx).2.2 q hq (Or.inr hp))

end Plan

/-- Without identifiers, an output has those that the document gives and no others. The services and
routes of the output are the ones that are kept, with upstreams and plugins; each has the `id` of the
defaults in effect for it, its upstream that of the upstream defaults, and each plugin that of the
plugin in effect under its name, as the document declares it. So no entity has an `id` exactly when
nothing has one that an entity of the output is a copy of. -/
theorem given_ids_of_compile {fresh : Uuid} {options : Options} {doc : Document}
    {c : Configuration} (hskip : options.skipId = true) (h : compile fresh options doc = .ok c) :
    ∃ ctx root plan, Context.ofRun fresh options doc = .ok (ctx, root) ∧
      Plan.of ctx root = .ok plan ∧
      (c.services.map (·.erase "routes")).Perm
        ((plan.kept ctx).map fun x => (x.complete ctx).erase "routes") ∧
      c.upstreams.Perm ((plan.kept ctx).filterMap Creation.upstream) ∧
      c.routes.Perm ((plan.routes ctx).map (Creation.complete ctx)) ∧
      (∀ p ∈ c.plugins, ∃ x ∈ plan.kept ctx ++ plan.routes ctx, ∃ q ∈ x.plugins,
        x.share ctx q = p) ∧
      (∀ x ∈ plan.kept ctx ++ plan.routes ctx, x.GivenIds ctx) ∧
      ((∀ e ∈ c.entities, e.2.id? = none) ↔
        ∀ x ∈ plan.kept ctx ++ plan.routes ctx, x.LacksIds ctx c) := by
  obtain ⟨ctx, root, plan, hrun, hplan, rfl⟩ := exists_plan_of_compile h
  obtain ⟨-, -, ⟨tags, hstamp⟩, -⟩ := Context.ofRun_cases hrun
  have planned := Plan.planned_of_of hplan
  have hgiven : ∀ x ∈ plan.kept ctx ++ plan.routes ctx, x.GivenIds ctx := by
    intro x hx
    refine planned.givenIds (by rw [hstamp]; exact hskip) x ?_
    exact (List.mem_append.1 hx).elim
      (fun hx => List.mem_append_left _ (plan.kept_subset_services hx))
      fun hx => List.mem_append_right _ hx
  exact ⟨ctx, root, plan, hrun, hplan, Plan.services_perm_kept, Plan.upstreams_perm_kept,
    Plan.routes_perm_created, planned.exists_share_of_kept, hgiven,
    fun hnone x hx => Plan.lacksIds_of_forall hx (hgiven x hx) hnone,
    planned.id?_eq_none_of_lacksIds hgiven⟩

/-- A small document that gives its service an identifier. -/
def doorDocument : Document :=
  ⟨[("info", .obj [("title", .str "Door")]), ("openapi", .str "3.0.0"),
    ("paths", .obj [("/bell", .obj [("get", .obj [])])]),
    ("x-kong-service-defaults", .obj [("id", .str "front")])], "3.0.0"⟩

/-- Without identifiers its service has the one that it gives. -/
theorem exists_given_id_door : ∃ c, compile Uuid.dns { skipId := true } doorDocument = .ok c ∧
    ∃ e ∈ c.entities, e.2.id? = some (.str "front") := by
  have hids : ((compile Uuid.dns { skipId := true } doorDocument).toOption.map fun c =>
      c.services.map fun s => s.string? "id") = some [some "front"] := by
    decide +kernel
  obtain ⟨c, hc, hids⟩ := Option.map_eq_some_iff.1 hids
  rw [toOption_eq_some_iff] at hc
  obtain ⟨s, hs, hid⟩ := List.map_eq_singleton_iff.1 hids
  refine ⟨c, hc, (.service, s), ?_, Members.string?_eq_some_iff.1 hid⟩
  simp [Configuration.entities, Configuration.entitiesOfService, hs]

/-- So something in its output is a copy of something with an identifier. -/
theorem given_ids_of_compile_door :
    ∃ c, compile Uuid.dns { skipId := true } doorDocument = .ok c ∧
      ∃ (ctx : Context) (plan : Plan),
        (∀ x ∈ plan.kept ctx ++ plan.routes ctx, x.GivenIds ctx) ∧
        ∃ x ∈ plan.kept ctx ++ plan.routes ctx, ¬ x.LacksIds ctx c := by
  obtain ⟨c, hc, e, he, hid⟩ := exists_given_id_door
  obtain ⟨ctx, root, plan, -, -, -, -, -, -, hgiven, hnone⟩ := given_ids_of_compile rfl hc
  refine ⟨c, hc, ctx, plan, hgiven, ?_⟩
  by_contra hlack
  have hlacks := hnone.2 fun x hx => by_contra fun hnot => hlack ⟨x, hx, hnot⟩
  rw [hlacks e he] at hid
  cases hid

/-- Leaving identifiers out does not leave every entity without one. -/
theorem not_forall_id?_eq_none_door :
    ¬ ∀ c, compile Uuid.dns { skipId := true } doorDocument = .ok c →
      ∀ e ∈ c.entities, e.2.id? = none := by
  intro hnone
  obtain ⟨c, hc, e, he, hid⟩ := exists_given_id_door
  rw [hnone c hc e he] at hid
  cases hid

end ApiGateway
