import ApiGateway.Proofs.Compilation.Removal

/-!
# Runs without OpenID Connect

A run that derives plugins from security requirements is followed side by side with one that does
not. The scopes of the two hand down the same but for plugins of one name, every step of the first
that succeeds has a counterpart, and the routes that each operation asks for are the same. Without
the plugins of that name the two plans are one.

## Main definitions

* `Context.withoutOpenId`: a context whose run derives no plugins from security requirements.
* `Cascade.AgreeButOpenId`: scopes that hand down the same but for plugins of OpenID Connect.

## Main results

* `Plan.carries_of`: the two walks side by side.
* `compile_without_openId`: what the plugins of OpenID Connect have no influence on.
-/
namespace ApiGateway

open Plugin (AgreeBut Ordered)

/-- A context whose run derives no plugins from security requirements. -/
def Context.withoutOpenId (ctx : Context) : Context :=
  { ctx with options := { ctx.options with openId := false } }

/-- Scopes that hand down the same but for plugins of OpenID Connect. -/
structure Cascade.AgreeButOpenId (scope scope' : Cascade) : Prop where
  base_eq : scope.base = scope'.base
  defaults_eq : scope.defaults = scope'.defaults
  servers_eq : scope.servers = scope'.servers
  validator_eq : scope.validator = scope'.validator
  plugins : AgreeBut openIdName scope.plugins scope'.plugins
  pending : AgreeBut openIdName scope.pending scope'.pending
  openId : ∀ p, scope.openId = some p → Plugin.name p = openIdName

namespace Cascade
variable {ctx : Context} {scope scope' : Cascade}

/-- Such scopes are the same without the plugins of the name. -/
theorem AgreeButOpenId.without_eq (h : AgreeButOpenId scope scope') :
    scope.without openIdName = scope'.without openIdName := by
  simp only [without, h.base_eq, h.defaults_eq, h.servers_eq, h.validator_eq, h.plugins.without_eq,
    h.pending.without_eq]

/-- Such scopes make the same service. -/
theorem AgreeButOpenId.make_eq (h : AgreeButOpenId scope scope') :
    scope.make ctx = scope'.make ctx.withoutOpenId := by
  simp only [make, h.base_eq, h.defaults_eq, h.servers_eq]
  rfl

/-- Such scopes are entered together with the service they make. -/
theorem AgreeButOpenId.carries_make {β : Type} (h : AgreeButOpenId scope scope') (ctx : Context)
    (k : Made → β) :
    Carries (fun entered entered' => AgreeButOpenId entered.1 entered'.1 ∧ entered.2 = entered'.2)
      (do return (scope, k (← scope.make ctx)))
      (do return (scope', k (← scope'.make ctx.withoutOpenId))) := by
  rw [h.make_eq]
  exact Carries.bind_right fun made => .ok ⟨h, rfl⟩

/-- Whatever the document hands down, it hands down the same without its security requirements but
for their plugin. -/
theorem carries_ofDocument (ctx : Context) (base : String) :
    Carries (fun entered entered' => AgreeButOpenId entered.1 entered'.1 ∧ entered.2 = entered'.2)
      (ofDocument ctx base) (ofDocument ctx.withoutOpenId base) := by
  have hopenId : Carries (fun openId openId' => openId' = none ∧
      ∀ p, openId = some p → Plugin.name p = openIdName)
      (documentOpenId ctx) (documentOpenId ctx.withoutOpenId) := by
    intro openId hopenId
    exact ⟨none, rfl, rfl, fun p hp => name_of_documentOpenId (hp ▸ hopenId)⟩
  have hnil : AgreeBut openIdName [] [] := .refl List.Pairwise.nil
  rw [ofDocument_eq, ofDocument_eq]
  refine Carries.bind_right fun defaults => ?_
  refine (Plugin.carries_build hnil _ _ _ _).bind fun declared declared' hdeclared => ?_
  refine hopenId.bind ?_
  rintro openId _ ⟨rfl, hname⟩
  obtain ⟨hvalidator, hplugins⟩ := hdeclared.extractValidator (by decide) none
  generalize Plugin.extractValidator declared none = lists at hvalidator hplugins ⊢
  generalize Plugin.extractValidator declared' none = lists' at hvalidator hplugins ⊢
  have hscopes : ∀ plugins, AgreeBut openIdName plugins lists'.2 →
      AgreeButOpenId ⟨base, defaults, ctx.doc.servers, plugins, [], lists.1, openId⟩
        ⟨base, defaults, ctx.doc.servers, lists'.2, [], lists'.1, none⟩ :=
    fun _ h => ⟨rfl, rfl, rfl, hvalidator, h, hnil, hname⟩
  refine (hscopes _ ?_).carries_make ctx id
  cases openId with
  | none => exact hplugins
  | some plugin =>
    exact hplugins.insert_left ((Plugin.name_restamp _ _ plugin).trans (hname plugin rfl))

/-- Scopes that hand down the same but for plugins of OpenID Connect are entered alike. -/
theorem AgreeButOpenId.carries_enter (h : AgreeButOpenId scope scope') (ctx : Context)
    (object : Members) (name : String) :
    Carries (fun entered entered' => AgreeButOpenId entered.1 entered'.1 ∧ entered.2 = entered'.2)
      (scope.enter ctx object name) (scope'.enter ctx.withoutOpenId object name) := by
  have hbase : ctx.naming.extend scope.base name =
      ctx.withoutOpenId.naming.extend scope'.base name := by
    rw [h.base_eq]
    rfl
  unfold enter
  simp only [h.defaults_eq, h.servers_eq, hbase]
  generalize ctx.withoutOpenId.naming.extend scope'.base name = base
  refine Carries.bind_right fun own => ?_
  refine (Plugin.carries_build h.plugins _ _ _ _).bind fun declared declared' hdeclared => ?_
  obtain ⟨hvalidator, hplugins⟩ := hdeclared.extractValidator (by decide) scope.validator
  rw [h.validator_eq] at hvalidator hplugins
  simp only [h.validator_eq]
  generalize Plugin.extractValidator declared scope'.validator = lists at hvalidator hplugins ⊢
  generalize Plugin.extractValidator declared' scope'.validator = lists' at hvalidator hplugins ⊢
  have hscopes : ∀ defaults servers pending pending', AgreeBut openIdName pending pending' →
      AgreeButOpenId ⟨base, defaults, servers, lists.2, pending, lists.1, scope.openId⟩
        ⟨base, defaults, servers, lists'.2, pending', lists'.1, scope'.openId⟩ :=
    fun _ _ _ _ hpending => ⟨rfl, rfl, rfl, hvalidator, hplugins, hpending, h.openId⟩
  split
  · exact (hscopes _ _ _ _ (.refl List.Pairwise.nil)).carries_make ctx some
  · refine (Plugin.carries_build h.pending _ _ _ _).bind fun waiting waiting' hwaiting => ?_
    exact .ok ⟨hscopes _ _ _ _ (hwaiting.extractValidator (by decide) none).2, rfl⟩

/-- Before the validator the plugins of routes are the same but for the one of OpenID Connect. -/
theorem AgreeButOpenId.carries_withOpenId (h : AgreeButOpenId scope scope') (ctx : Context)
    (operation : Members) :
    Carries (AgreeBut openIdName) (scope.withOpenId ctx operation)
      (scope'.withOpenId ctx.withoutOpenId operation) := by
  intro own hown
  refine ⟨scope'.pending, rfl, ?_⟩
  obtain rfl | ⟨plugin, -, hplugin, rfl⟩ := withOpenId_cases hown
  · exact h.pending
  · refine h.pending.insert_left ?_
    rw [Plugin.name_restamp]
    obtain hinherited | hname := eq_or_name_of_openIdConnect hplugin
    · exact h.openId plugin hinherited
    · exact hname

/-- The routes of an operation are the same, and so are their plugins but for the one of OpenID
Connect. -/
theorem AgreeButOpenId.carries_operationRoutes (h : AgreeButOpenId scope scope') (ctx : Context)
    (path : String) (item : Members) (method : String) (operation : Members) :
    Carries (fun routed routed' => AgreeBut openIdName routed.1 routed'.1 ∧ routed.2 = routed'.2)
      (scope.operationRoutes ctx path item method operation)
      (scope'.operationRoutes ctx.withoutOpenId path item method operation) := by
  have hplugins : ∀ parameters body, Carries (AgreeBut openIdName)
      (scope.operationPlugins ctx operation parameters body)
      (scope'.operationPlugins ctx.withoutOpenId operation parameters body) := by
    intro parameters body
    rw [operationPlugins_eq, operationPlugins_eq, h.base_eq, h.validator_eq]
    refine (h.carries_withOpenId ctx operation).bind fun own own' hown => ?_
    refine Carries.bind_right fun validator => ?_
    cases validator with
    | none => exact .ok hown
    | some plugin => exact .ok (hown.insert plugin)
  have hroute : ∀ template, scope.route ctx method template =
      scope'.route ctx.withoutOpenId method template := by
    intro template
    simp only [route, h.base_eq, h.defaults_eq]
    rfl
  have hpriority : scope.defaultPriority = scope'.defaultPriority := by
    rw [defaultPriority, h.defaults_eq, defaultPriority]
  unfold operationRoutes
  rw [hpriority, h.base_eq]
  refine Carries.bind_right fun parameters => Carries.bind_right fun body => ?_
  refine (hplugins parameters body).bind fun plugins plugins' hplugins => ?_
  refine Carries.bind_right fun template => ?_
  rw [hroute]
  exact Carries.bind_right fun routes => .ok ⟨hplugins, rfl⟩

end Cascade

/-! ## The walk -/

theorem OperationPlan.carries_of {parent parent' : Cascade}
    (h : Cascade.AgreeButOpenId parent parent') (ctx : Context) (path : String) (item : Members)
    (entry : String × Members) :
    Carries (fun op op' : OperationPlan => op.without openIdName = op'.without openIdName)
      (OperationPlan.of ctx parent path item entry)
      (OperationPlan.of ctx.withoutOpenId parent' path item entry) := by
  obtain ⟨method, object⟩ := entry
  refine Carries.bind_right fun name => ?_
  refine (h.carries_enter ctx object name).bind ?_
  rintro ⟨scope, made⟩ ⟨scope', _⟩ ⟨hscope, rfl⟩
  refine (hscope.carries_operationRoutes ctx path item method object).bind ?_
  rintro ⟨plugins, routes⟩ ⟨plugins', _⟩ ⟨hplugins, rfl⟩
  refine .ok ?_
  simp only [without, hscope.without_eq, hplugins.without_eq]

theorem PathPlan.carries_of {root root' : Cascade} (h : Cascade.AgreeButOpenId root root')
    (ctx : Context) (entry : String × Members) :
    Carries (fun p p' : PathPlan => p.without openIdName = p'.without openIdName)
      (PathPlan.of ctx root entry) (PathPlan.of ctx.withoutOpenId root' entry) := by
  obtain ⟨path, item⟩ := entry
  refine Carries.bind_right fun name => ?_
  refine (h.carries_enter ctx item name).bind ?_
  rintro ⟨scope, made⟩ ⟨scope', _⟩ ⟨hscope, rfl⟩
  refine Carries.bind_right fun entries => ?_
  have hoperations := Carries.mapM fun entry (_ : entry ∈ entries) =>
    OperationPlan.carries_of hscope ctx path item entry
  refine hoperations.bind fun endpoints endpoints' hendpoints => ?_
  refine .ok ?_
  simp only [without, hscope.without_eq, map_eq_of_forall₂ hendpoints]

/-- A walk that succeeds does so without OpenID Connect, and the plans are one without its
plugins. -/
theorem Plan.carries_of (ctx : Context) (base : String) :
    Carries (fun plan plan' : Plan => plan.without openIdName = plan'.without openIdName)
      (Plan.of ctx base) (Plan.of ctx.withoutOpenId base) := by
  refine (Cascade.carries_ofDocument ctx base).bind ?_
  rintro ⟨root, made⟩ ⟨root', _⟩ ⟨hroot, rfl⟩
  refine Carries.bind_right fun items => ?_
  refine (Carries.mapM fun entry _ => PathPlan.carries_of hroot ctx entry).bind
    fun paths paths' hpaths => ?_
  refine .ok ?_
  simp only [without, hroot.without_eq, map_eq_of_forall₂ hpaths]

/-- Laid out, such plans are one without the plugins of OpenID Connect. -/
theorem carries_walk (ctx : Context) (base : String) :
    Carries (fun c c' : Configuration => c.without openIdName = c'.without openIdName)
      ((Plan.of ctx base).map (Plan.configuration ctx))
      ((Plan.of ctx.withoutOpenId base).map (Plan.configuration ctx.withoutOpenId)) := by
  intro c hc
  obtain ⟨plan, hplan, rfl⟩ := map_eq_ok_iff.1 hc
  obtain ⟨plan', hplan', heq⟩ := Plan.carries_of ctx base plan hplan
  refine ⟨plan'.configuration ctx.withoutOpenId, map_eq_ok_iff.2 ⟨plan', hplan', rfl⟩, ?_⟩
  change (plan.configuration ctx).without openIdName =
    (plan'.configuration ctx.withoutOpenId).without openIdName
  rw [Plan.without_configuration, Plan.without_configuration, heq]
  rfl

/-- Deriving plugins from security requirements touches no other plugin. A run that succeeds does so
without them as well, and, with the same base name if the document has no name, the two outputs are
the same once the plugins of OpenID Connect are left out of all lists: services, upstreams, routes,
other plugins, identifiers and orders. -/
theorem compile_without_openId {fresh : Uuid} {options : Options} {doc : Document}
    {c : Configuration} (h : compile fresh { options with openId := true } doc = .ok c)
    (fresh' : Uuid) :
    ∃ c', compile fresh' { options with openId := false } doc = .ok c' ∧
      (doc.NamedAlike options fresh fresh' → c.without openIdName = c'.without openIdName) := by
  have hruns : Carries (fun c c' : Configuration => c.without openIdName = c'.without openIdName)
      (compile fresh { options with openId := true } doc)
      (compile fresh { options with openId := false } doc) := by
    rw [compile_eq, compile_eq, Context.ofRun, Context.ofRun]
    simp only [bind_assoc]
    refine Carries.bind_right fun _ => Carries.bind_right fun tags => ?_
    refine Carries.bind_right fun base => ?_
    exact carries_walk ⟨doc, { options with openId := true }, options.stamp tags⟩ base
  obtain ⟨c₀, hc₀, heq⟩ := hruns c h
  obtain ⟨c', hc', hsame⟩ := exists_compile_fresh hc₀ fresh'
  exact ⟨c', hc', fun hnamed => hsame hnamed ▸ heq⟩

/-- A small document whose one operation requires a scheme and has a plugin of a consumer, under a
path with a plugin of its own. -/
def rosterDocument : Document :=
  ⟨[("components", .obj [("securitySchemes", .obj [("staff", .obj
      [("openIdConnectUrl", .str "https://staff.example.com"), ("type", .str "openIdConnect")])])]),
    ("info", .obj [("title", .str "Rosters")]),
    ("paths", .obj [("/rosters", .obj [
      ("get", .obj [("security", .arr [.obj [("staff", .arr [])]]),
        ("x-kong-plugin-acl", .obj [("consumer", .str "bob")])]),
      ("x-kong-plugin-request-size-limiting", .obj [])])])], "3.0.0"⟩

/-- Its one route has two plugins, one of them for the requirement. Without it the run has the same
outcome but for that one. -/
theorem compile_without_openId_rosters : ∃ c c',
    compile Uuid.dns { openId := true } rosterDocument = .ok c ∧
    compile Uuid.dns { openId := false } rosterDocument = .ok c' ∧
    (c.services.map fun s => (Configuration.routesOf s).map fun r =>
      (Configuration.pluginsOf r).map Plugin.name) =
        [[["openid-connect", "request-size-limiting"]]] ∧
    c.plugins.length = 1 ∧ c.without openIdName = c'.without openIdName := by
  have hnames : ((compile Uuid.dns { openId := true } rosterDocument).toOption.map fun c =>
      (c.services.map fun s => (Configuration.routesOf s).map fun r =>
        (Configuration.pluginsOf r).map Plugin.name, c.plugins.length)) =
      some ([[["openid-connect", "request-size-limiting"]]], 1) := by
    decide +kernel
  obtain ⟨c, hc, hnames⟩ := Option.map_eq_some_iff.1 hnames
  rw [toOption_eq_some_iff] at hc
  obtain ⟨hroutes, hlength⟩ := Prod.mk.inj hnames
  have hc₀ : compile Uuid.dns { ({} : Options) with openId := true } rosterDocument = .ok c := hc
  obtain ⟨c', hc', hsame⟩ := compile_without_openId hc₀ Uuid.dns
  exact ⟨c, c', hc, hc', hroutes, hlength, hsame fun _ => rfl⟩

end ApiGateway
