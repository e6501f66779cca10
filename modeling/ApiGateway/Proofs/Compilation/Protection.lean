import ApiGateway.Proofs.Compilation.Consumers
import ApiGateway.Proofs.Compilation.Placement
import ApiGateway.Proofs.Security.OpenIdConnect

/-!
# Protection of operations

An operation with a security requirement of its own is protected by the OpenID Connect plugin of
this requirement. Its routes get the plugin unless the requirements of the document give the same
one, which is then taken to be in effect already. It need not be: a directive of the path or of the
operation replaces the plugin of the document, and then stays in effect in spite of the requirement.

## Main definitions

* `Plugin.bare`: a plugin without stamp and without references to owners.
* `Creation.inEffect`: the plugin of a name that is in effect for a route, with its owner.
* `Creation.Shows`: a plugin of an owner that stands in the output.
* `PathPlan.Overlooks`: a requirement whose plugin is not in effect.
-/
namespace ApiGateway

open Plugin (Ordered find? payload validatorName)

/-! ## Equal values -/

namespace Json

mutual

@[simp] theorem sameValue_refl : ∀ value : Json, sameValue value value = true
  | .null => rfl
  | .bool _ => by simp [sameValue]
  | .int _ => by simp [sameValue]
  | .float value => by simp [sameValue, Binary64.sameValue_refl]
  | .str _ => by simp [sameValue]
  | .arr items => by simp [sameValue, sameItems_refl items]
  | .obj members => by simp [sameValue, sameMembers_refl members]

@[simp] theorem sameItems_refl : ∀ items : List Json, sameItems items items = true
  | [] => rfl
  | item :: rest => by simp [sameItems, sameValue_refl item, sameItems_refl rest]

@[simp] theorem sameMembers_refl : ∀ members : List (String × Json),
    sameMembers members members = true
  | [] => rfl
  | (_, value) :: rest => by simp [sameMembers, sameValue_refl value, sameMembers_refl rest]

end

/-- Equal objects stay equal without a key. -/
theorem sameMembers_erase {members others : Members} (h : sameMembers members others = true)
    (key : String) : sameMembers (members.erase key) (others.erase key) = true := by
  induction members generalizing others with
  | nil =>
    cases others with
    | nil => rfl
    | cons m rest => cases h
  | cons m members ih =>
    cases others with
    | nil => cases h
    | cons n others =>
      obtain ⟨j, a⟩ := m
      obtain ⟨k, b⟩ := n
      simp only [sameMembers, Bool.and_eq_true, beq_iff_eq] at h
      obtain ⟨⟨rfl, hvalue⟩, hrest⟩ := h
      simp only [Members.erase]
      split
      · exact ih hrest
      · simp [sameMembers, hvalue, ih hrest]

end Json

namespace Plugin

/-- A plugin without what a stamp writes and without references to owners. -/
def bare (plugin : Members) : Members := ((payload plugin).erase "service").erase "route"

/-- What is left of a plugin does not change when it refers to its owner. -/
@[simp] theorem bare_insert_label (plugin : Members) (holder : Holder) (value : Json) :
    bare (Members.insert plugin holder.label value) = bare plugin := by
  simp only [bare, payload]
  cases holder with
  | service =>
    simp only [Holder.label]
    rw [Members.erase_comm _ "tags" "service", Members.erase_comm _ "id" "service",
      Members.erase_insert_self, Members.erase_comm _ "service" "id",
      Members.erase_comm _ "service" "tags"]
  | route =>
    simp only [Holder.label]
    rw [Members.erase_comm _ "service" "route", Members.erase_comm _ "tags" "route",
      Members.erase_comm _ "id" "route", Members.erase_insert_self,
      Members.erase_comm _ "route" "id", Members.erase_comm _ "route" "tags",
      Members.erase_comm _ "route" "service"]

theorem bare_eq_of_payload_eq {p q : Members} (h : payload p = payload q) : bare p = bare q := by
  rw [bare, bare, h]

/-- Equal plugins have equal fields beside stamp and references. -/
theorem sameMembers_bare {p q : Members} (h : Json.sameMembers p q = true) :
    Json.sameMembers (bare p) (bare q) = true :=
  Json.sameMembers_erase (Json.sameMembers_erase
    (Json.sameMembers_erase (Json.sameMembers_erase h "id") "tags") "service") "route"

end Plugin

/-! ## Plugins in effect -/

/-- The plugin of a name that is in effect for a route of a service, with its owner: that of the
route, else that of the service. -/
def Creation.inEffect (x host : Creation) (sought : String) : Option (Creation × Members) :=
  ((find? x.plugins sought).map fun p => (x, p)) <|> (find? host.plugins sought).map fun p => (host, p)

/-- A plugin of an owner stands in the output, with the owner or at the top level. -/
def Creation.Shows (ctx : Context) (c : Configuration) (x : Creation) (plugin : Members) : Prop :=
  plugin ∈ Configuration.pluginsOf (x.complete ctx) ∨ x.share ctx plugin ∈ c.plugins

namespace Creation
variable {x host : Creation} {sought : String}

/-- What is in effect is found in the lists of the route and of the service. -/
theorem map_payload_inEffect (x host : Creation) (sought : String) :
    (x.inEffect host sought).map (fun e => payload e.2) =
      ((find? x.plugins sought).map payload <|> (find? host.plugins sought).map payload) := by
  simp [inEffect, Option.map_or, Function.comp_def]

/-- What is in effect is a plugin of the route or of the service. -/
theorem mem_of_inEffect {y : Creation} {p : Members} (h : x.inEffect host sought = some (y, p)) :
    (y = x ∨ y = host) ∧ p ∈ y.plugins := by
  cases hown : find? x.plugins sought with
  | some q =>
    simp only [inEffect, hown, Option.map_some] at h
    obtain ⟨rfl, rfl⟩ := Prod.mk.inj (Option.some.inj h)
    exact ⟨Or.inl rfl, List.mem_of_find?_eq_some hown⟩
  | none =>
    simp only [inEffect, hown, Option.map_none] at h
    obtain ⟨q, hq, heq⟩ := Option.map_eq_some_iff.1 h
    obtain ⟨rfl, rfl⟩ := Prod.mk.inj heq
    exact ⟨Or.inr rfl, List.mem_of_find?_eq_some hq⟩

end Creation

/-- A plugin of what is kept stands in the output unless it goes with the service of the
document. -/
theorem Plan.Planned.shows_iff {ctx : Context} {root : String} {plan : Plan}
    (h : plan.Planned ctx root) {x : Creation} (hx : x ∈ plan.kept ctx ++ plan.routes ctx)
    {p : Members} (hp : p ∈ x.plugins) :
    x.Shows ctx (plan.configuration ctx) p ↔
      ¬ (Plugin.hasConsumer p = true ∧ plan.Loses ctx x p) := by
  have hnested : p ∈ Configuration.pluginsOf (x.complete ctx) ↔ Plugin.hasConsumer p = false := by
    rw [Configuration.pluginsOf, x.get?_plugins_complete, objectsIn_ofObjects, List.mem_filter]
    simp [hp]
  unfold Creation.Shows
  rw [hnested]
  cases hconsumer : Plugin.hasConsumer p with
  | false => simp
  | true =>
    rw [h.share_mem_plugins_iff hx hp hconsumer]
    simp

/-! ## The lists of a scope and of its service -/

namespace Cascade
variable {ctx : Context}

/-- The plugins in effect are the waiting ones, laid over those that a service carries. -/
def Covers (scope : Cascade) (carried : List Members) : Prop :=
  ∀ n ≠ validatorName, (find? scope.plugins n).map payload =
    ((find? scope.pending n).map payload <|> (find? carried n).map payload)

section Inside
variable {parent child : Cascade} {object : Members} {name : String} {made : Option Made}
  {n : String}

/-- A scope has in effect what it declares, else what is in effect around it, as far as stamps leave
it alone. -/
theorem Inside.map_find?_plugins {α : Type} {f : Members → α}
    (hf : ∀ base p, f (Plugin.restamp ctx.stamp base p) = f p)
    (inside : Inside ctx parent object name child made) (h : parent.Stamped ctx)
    (hn : n ≠ validatorName) : (find? child.plugins n).map f =
      ((Plugin.declared? ctx.doc object n).map f <|> (find? parent.plugins n).map f) := by
  obtain ⟨declared, hdeclared, hlists⟩ := inside.lists
  obtain ⟨-, hfind⟩ := Plugin.build_spec h.plugins.nodup_names hdeclared
  rw [show child.plugins = _ from congrArg Prod.snd hlists, Plugin.find?_extractValidator,
    if_neg hn, hfind]
  simp [Option.map_or, Function.comp_def, hf]

/-- What waits in a scope without a service is what the scope declares, else what waits around it,
as far as stamps leave it alone. -/
theorem Inside.map_find?_pending {α : Type} {f : Members → α}
    (hf : ∀ base p, f (Plugin.restamp ctx.stamp base p) = f p)
    (inside : Inside ctx parent object name child none) (h : parent.Stamped ctx)
    (hn : n ≠ validatorName) : (find? child.pending n).map f =
      ((Plugin.declared? ctx.doc object n).map f <|> (find? parent.pending n).map f) := by
  obtain ⟨own, -, -, ⟨-, -, m, hm, -⟩ | ⟨-, -, waiting, hwaiting, hpending⟩⟩ := inside.own
  · cases hm
  · obtain ⟨-, hfind⟩ := Plugin.build_spec h.pending.nodup_names hwaiting
    rw [hpending, Plugin.find?_extractValidator, if_neg hn, hfind]
    simp [Option.map_or, Function.comp_def, hf]

theorem Inside.find?_plugins (inside : Inside ctx parent object name child made)
    (h : parent.Stamped ctx) (hn : n ≠ validatorName) :
    (find? child.plugins n).map payload =
      ((Plugin.declared? ctx.doc object n).map payload <|> (find? parent.plugins n).map payload) :=
  inside.map_find?_plugins (by simp) h hn

theorem Inside.find?_pending (inside : Inside ctx parent object name child none)
    (h : parent.Stamped ctx) (hn : n ≠ validatorName) :
    (find? child.pending n).map payload =
      ((Plugin.declared? ctx.doc object n).map payload <|> (find? parent.pending n).map payload) :=
  inside.map_find?_pending (by simp) h hn

/-- Nothing waits in a scope with a service. -/
theorem Inside.pending_eq_nil {m : Made}
    (inside : Inside ctx parent object name child (some m)) : child.pending = [] := by
  obtain ⟨own, -, -, ⟨-, hpending, -⟩ | ⟨-, hmade, -⟩⟩ := inside.own
  · exact hpending
  · cases hmade

/-- The service of a scope is covered when the one around it is. -/
theorem Covers.within {around : Creation} (h : parent.Covers around.plugins)
    (hparent : parent.Stamped ctx) (inside : Inside ctx parent object name child made)
    (site : Site) : child.Covers (around.within site child made).plugins := by
  intro n hn
  cases made with
  | some m =>
    rw [inside.pending_eq_nil]
    rfl
  | none =>
    rw [inside.find?_plugins hparent hn, inside.find?_pending hparent hn, h n hn]
    cases Plugin.declared? ctx.doc object n <;> rfl

end Inside

/-- The service of the document carries all plugins of the document. -/
theorem Covers.top {base : String} {root : Cascade} {made : Made}
    (top : Top ctx base root made) : root.Covers root.plugins := by
  intro n _
  rw [top.pending_eq]
  rfl

/-- The plugin of the document's requirements is in effect for the document. -/
theorem Top.find?_openId {base : String} {root : Cascade} {made : Made}
    (top : Top ctx base root made) {plugin : Members} (h : root.openId = some plugin) :
    (find? root.plugins openIdName).map payload = some (payload plugin) := by
  have hne : openIdName ≠ validatorName := by decide
  rw [top.find?_plugins, if_neg hne, h]
  simp

end Cascade

/-! ## The requirement of an operation -/

section Requirement
variable {name : String} {required : Json} {scheme : Members}
variable {ctx : Context} {scope : Cascade} {operation : Members}

/-- Before the validator the routes of an operation have the plugin of its requirement, but for a
plugin that the document's requirements give too: then they have what waits for them. -/
theorem Cascade.find?_withOpenId {own : List Members} (hscope : scope.Stamped ctx)
    (hopen : ctx.options.openId = true)
    (hsecurity : operation.get? "security" = some (.arr [.obj [(name, required)]]))
    (hscheme : ctx.doc.securityScheme name = .ok scheme)
    (htype : scheme.string? "type" = some openIdType)
    (h : scope.withOpenId ctx operation = .ok own) :
    ∃ plugin, openIdPlugin ctx.doc scheme required = .ok plugin ∧
      ((∃ document, scope.openId = some document ∧ Json.sameMembers plugin document = true ∧
          own = scope.pending) ∨
        ((∀ document, scope.openId = some document → Json.sameMembers plugin document = false) ∧
          (find? own openIdName).map payload = some (payload plugin))) := by
  unfold withOpenId at h
  rw [if_pos (by simp [hopen, Members.has, hsecurity]), hsecurity,
    openIdConnect_of_scheme _ _ hscheme htype] at h
  cases hplugin : openIdPlugin ctx.doc scheme required with
  | error e =>
    rw [hplugin] at h
    cases h
  | ok plugin =>
    rw [hplugin] at h
    simp only [map_ok, ok_bind] at h
    refine ⟨plugin, rfl, ?_⟩
    split at h
    · rename_i hsame
      obtain rfl := Except.ok.inj h
      cases hdocument : scope.openId with
      | none => simp [hdocument] at hsame
      | some document => exact Or.inl ⟨document, rfl, by simpa [hdocument] using hsame, rfl⟩
    · rename_i hsame
      obtain rfl := Except.ok.inj h
      refine Or.inr ⟨?_, ?_⟩
      · intro document hdocument
        simpa [hdocument] using hsame
      · rw [Plugin.find?_insert hscope.pending, Plugin.name_restamp,
          if_pos (name_of_openIdPlugin hplugin).symm]
        simp

/-- The validator of an operation leaves the other plugins alone. -/
theorem Cascade.find?_operationPlugins {parameters : List Parameter} {body : Option RequestBody}
    {plugins : List Members} (hscope : scope.Stamped ctx)
    (h : scope.operationPlugins ctx operation parameters body = .ok plugins) :
    ∃ own, scope.withOpenId ctx operation = .ok own ∧
      ∀ n ≠ validatorName, find? plugins n = find? own n := by
  obtain ⟨own, hown, rfl | ⟨plugin, hvalidator, rfl⟩⟩ := operationPlugins_cases h
  · exact ⟨_, hown, fun _ _ => rfl⟩
  · refine ⟨own, hown, ?_⟩
    intro n hn
    rw [Plugin.find?_insert (withOpenId_spec hscope hown).1, name_of_requestValidator hvalidator,
      if_neg hn]

end Requirement

/-- The plugin that an operation or its path declares under the name of OpenID Connect, that of the
operation first. -/
def PathPlan.redeclared (doc : Document) (p : PathPlan) (op : OperationPlan) : Option Members :=
  Plugin.declared? doc op.object openIdName <|> Plugin.declared? doc p.object openIdName

/-- The plugin of an operation's requirement is overlooked: the requirements of the document give
the same one, but path or operation declare another, which is then in effect. -/
def PathPlan.Overlooks (ctx : Context) (p : PathPlan) (op : OperationPlan) (plugin : Members) :
    Prop :=
  ∃ document other, Cascade.documentOpenId ctx = .ok (some document) ∧
    Json.sameMembers plugin document = true ∧ p.redeclared ctx.doc op = some other ∧
    Json.sameMembers (Plugin.bare plugin) (Plugin.bare other) = false

section Operations
variable {ctx : Context} {root : String} {plan : Plan} {p : PathPlan} {op : OperationPlan}

/-- What is in effect for the routes of an operation with a requirement is the plugin of the
requirement. If the document's requirements give the same plugin, it is the one that operation or
path declare, else that of the document. -/
theorem Plan.Planned.payload_inEffect (h : plan.Planned ctx root) (hp : p ∈ plan.paths)
    (hop : op ∈ p.endpoints) (hopen : ctx.options.openId = true) {name : String} {required : Json}
    {scheme : Members}
    (hsecurity : op.object.get? "security" = some (.arr [.obj [(name, required)]]))
    (hscheme : ctx.doc.securityScheme name = .ok scheme)
    (htype : scheme.string? "type" = some openIdType) :
    ∃ plugin, openIdPlugin ctx.doc scheme required = .ok plugin ∧
      ∀ x ∈ op.created ctx (p.endpoint ctx.doc op).site,
        ((∃ document, Cascade.documentOpenId ctx = .ok (some document) ∧
            Json.sameMembers plugin document = true ∧
            (x.inEffect (p.host ctx (plan.document ctx) op) openIdName).map (fun e => payload e.2) =
              some (payload ((p.redeclared ctx.doc op).getD document))) ∨
          ((∀ document, Cascade.documentOpenId ctx = .ok (some document) →
              Json.sameMembers plugin document = false) ∧
            (x.inEffect (p.host ctx (plan.document ctx) op) openIdName).map (fun e => payload e.2) =
              some (payload plugin))) := by
  have hne : openIdName ≠ validatorName := by decide
  have hroot := Cascade.Stamped.top h.top
  obtain ⟨⟨_, path⟩, hpath⟩ := h.path_of_mem hp
  obtain ⟨⟨_, planned⟩, hscope⟩ := h.operation_of_mem hp hop
  obtain ⟨parameters, body, template, -, -, hplugins, -⟩ := operationRoutes_cases planned.routed
  obtain ⟨own, hown, hvalidator⟩ := Cascade.find?_operationPlugins hscope hplugins
  obtain ⟨plugin, hplugin, hcases⟩ :=
    Cascade.find?_withOpenId hscope hopen hsecurity hscheme htype hown
  refine ⟨plugin, hplugin, ?_⟩
  intro x hx
  obtain ⟨route, -, rfl⟩ := List.mem_map.1 hx
  -- a route stamps its plugins, which are those of the operation
  have hroute : (find? (Creation.ofRoute ctx (p.endpoint ctx.doc op).site op.cascade.base
      op.plugins route).plugins openIdName).map payload = (find? own openIdName).map payload := by
    rw [Creation.ofRoute, Route.own, Plugin.find?_map (Plugin.name_restamp _ _),
      hvalidator _ hne]
    simp [Function.comp_def]
  have hdocument : Cascade.documentOpenId ctx = .ok op.cascade.openId := by
    rw [planned.inside.openId_eq, path.inside.openId_eq, h.top.openId_eq]
  rw [Creation.map_payload_inEffect, hroute, hdocument]
  obtain ⟨document, hopenId, hsame, rfl⟩ | ⟨hdiffers, hfound⟩ := hcases
  · refine Or.inl ⟨document, by rw [hopenId], hsame, ?_⟩
    have hdocuments : plan.root.Covers (plan.document ctx).plugins := .top h.top
    have hcovers : op.cascade.Covers (p.host ctx (plan.document ctx) op).plugins :=
      (hdocuments.within hroot path.inside _).within hpath planned.inside _
    have htop : plan.root.openId = some document := by
      rw [← hopenId, planned.inside.openId_eq, path.inside.openId_eq]
    rw [← hcovers _ hne, planned.inside.find?_plugins hpath hne,
      path.inside.find?_plugins hroot hne, h.top.find?_openId htop, PathPlan.redeclared]
    cases Plugin.declared? ctx.doc op.object openIdName <;>
      cases Plugin.declared? ctx.doc p.object openIdName <;> rfl
  · refine Or.inr ⟨?_, ?_⟩
    · intro document hopenId
      exact hdiffers document (Except.ok.inj hopenId)
    · rw [hfound]
      rfl

/-- The plugin in effect is that of the requirement, unless the requirement is overlooked. -/
theorem Plan.Planned.exists_inEffect (h : plan.Planned ctx root) (hp : p ∈ plan.paths)
    (hop : op ∈ p.endpoints) (hopen : ctx.options.openId = true) {name : String} {required : Json}
    {scheme : Members}
    (hsecurity : op.object.get? "security" = some (.arr [.obj [(name, required)]]))
    (hscheme : ctx.doc.securityScheme name = .ok scheme)
    (htype : scheme.string? "type" = some openIdType) :
    ∃ plugin, openIdPlugin ctx.doc scheme required = .ok plugin ∧
      ∀ x ∈ op.created ctx (p.endpoint ctx.doc op).site, ∃ y e,
        x.inEffect (p.host ctx (plan.document ctx) op) openIdName = some (y, e) ∧
        (Json.sameMembers (Plugin.bare plugin) (Plugin.bare e) = true ↔
          ¬ p.Overlooks ctx op plugin) := by
  obtain ⟨plugin, hplugin, heffect⟩ := h.payload_inEffect hp hop hopen hsecurity hscheme htype
  refine ⟨plugin, hplugin, ?_⟩
  intro x hx
  obtain ⟨document, hdocument, hsame, hpayload⟩ | ⟨hdiffers, hpayload⟩ := heffect x hx
  · obtain ⟨⟨y, e⟩, hfound, he⟩ := Option.map_eq_some_iff.1 hpayload
    refine ⟨y, e, hfound, ?_⟩
    rw [Plugin.bare_eq_of_payload_eq he]
    cases hother : p.redeclared ctx.doc op with
    | none =>
      simp only [Option.getD_none, Plugin.sameMembers_bare hsame, true_iff]
      rintro ⟨_, _, _, _, hsome, _⟩
      rw [hother] at hsome
      cases hsome
    | some other =>
      rw [Option.getD_some]
      constructor
      · rintro heq ⟨_, q, _, _, hq, hdiffers⟩
        obtain rfl : other = q := Option.some.inj (hother.symm.trans hq)
        rw [heq] at hdiffers
        cases hdiffers
      · intro hsees
        by_contra hdiffers
        exact hsees ⟨document, other, hdocument, hsame, hother, Bool.eq_false_iff.2 hdiffers⟩
  · obtain ⟨⟨y, e⟩, hfound, he⟩ := Option.map_eq_some_iff.1 hpayload
    refine ⟨y, e, hfound, ?_⟩
    rw [Plugin.bare_eq_of_payload_eq he]
    simp only [Json.sameMembers_refl, true_iff]
    rintro ⟨document, _, hdocument, hsame, _⟩
    rw [hdiffers document hdocument] at hsame
    cases hsame

end Operations

/-- Operations are protected as they require, but for requirements that are overlooked. When OpenID
Connect is asked for, a requirement of one scheme of that kind gives a plugin, whatever is in effect
around the operation. On every route of the operation some plugin of OpenID Connect is in effect, its
own or that of its service. It stands in the output unless it belongs to a consumer and goes with
the service of the document; and it has the fields of the requirement's plugin exactly when the
requirement is not overlooked. -/
theorem protection_of_compile {fresh : Uuid} {options : Options} {doc : Document}
    {c : Configuration} (h : compile fresh options doc = .ok c) (hopen : options.openId = true) :
    ∃ ctx root plan, Context.ofRun fresh options doc = .ok (ctx, root) ∧
      Plan.of ctx root = .ok plan ∧ c.placed.Perm (plan.placed ctx) ∧
      ∀ p ∈ plan.paths, ∀ op ∈ p.endpoints, ∀ name required scheme,
        op.object.get? "security" = some (.arr [.obj [(name, required)]]) →
        doc.securityScheme name = .ok scheme → scheme.string? "type" = some openIdType →
        ∃ plugin, (∀ inherited, openIdConnect doc options.ignoreSecurityErrors
            (op.object.get? "security") inherited = .ok (some plugin)) ∧
          ∀ x ∈ op.created ctx (p.endpoint ctx.doc op).site, ∃ y e,
            x.inEffect (p.host ctx (plan.document ctx) op) openIdName = some (y, e) ∧
            (y.Shows ctx c e ↔ ¬ (Plugin.hasConsumer e = true ∧ plan.Loses ctx y e)) ∧
            (Json.sameMembers (Plugin.bare plugin) (Plugin.bare e) = true ↔
              ¬ p.Overlooks ctx op plugin) := by
  obtain ⟨ctx, root, plan, hrun, hplan, rfl⟩ := exists_plan_of_compile h
  obtain ⟨hdoc, hoptions, -, -⟩ := Context.ofRun_cases hrun
  have planned := Plan.planned_of_of hplan
  refine ⟨ctx, root, plan, hrun, hplan, plan.placed_perm, ?_⟩
  intro p hp op hop name required scheme hsecurity hscheme htype
  obtain ⟨plugin, hplugin, heffect⟩ := planned.exists_inEffect hp hop (hoptions ▸ hopen) hsecurity
    (hdoc ▸ hscheme) htype
  refine ⟨plugin, ?_, ?_⟩
  · intro inherited
    rw [hsecurity, openIdConnect_of_scheme _ _ hscheme htype, ← hdoc, hplugin]
    rfl
  · intro x hx
    obtain ⟨y, e, hfound, hsame⟩ := heffect x hx
    refine ⟨y, e, hfound, ?_, hsame⟩
    obtain ⟨howner, he⟩ := Creation.mem_of_inEffect hfound
    refine planned.shows_iff ?_ he
    obtain rfl | rfl := howner
    · exact List.mem_append_right _ (List.mem_flatMap.2 ⟨p, hp, List.mem_flatMap.2 ⟨op, hop, hx⟩⟩)
    · refine List.mem_append_left _ (Plan.host_mem_kept hp hop ?_)
      rintro hroutes
      rw [OperationPlan.created, hroutes] at hx
      cases hx

/-- The schemes and the one path of small documents. The path declares a plugin of OpenID Connect,
and its operation requires a scheme. -/
def partnerMembers : Members :=
  [("components", .obj [("securitySchemes", .obj [("staff", .obj
      [("openIdConnectUrl", .str "https://staff.example.com"), ("type", .str "openIdConnect")])])]),
    ("info", .obj [("title", .str "Shop")]), ("openapi", .str "3.0.0"),
    ("paths", .obj [("/orders", .obj [("get", .obj
        [("security", .arr [.obj [("staff", .arr [])]])]),
      ("x-kong-plugin-openid-connect", .obj
        [("config", .obj [("issuer", .str "https://partners.example.com")])])])])]

/-- Without requirements of the document the operation is protected as it requires, whatever its
path declares. -/
theorem protection_of_compile_staff :
    ∃ c, compile Uuid.dns { openId := true } ⟨partnerMembers, "3.0.0"⟩ = .ok c ∧
      c.placed.length = 1 ∧ ∃ (ctx : Context) (plan : Plan), c.placed.Perm (plan.placed ctx) ∧
        ∃ (p : PathPlan) (op : OperationPlan) (plugin : Members), plan.paths = [p] ∧ p.endpoints = [op] ∧
          (openIdConnect ⟨partnerMembers, "3.0.0"⟩ false
            (some (.arr [.obj [("staff", .arr [])]])) none = .ok (some plugin)) ∧
          ∀ x ∈ op.created ctx (p.endpoint ctx.doc op).site, ∃ y e,
            x.inEffect (p.host ctx (plan.document ctx) op) openIdName = some (y, e) ∧
            Json.sameMembers (Plugin.bare plugin) (Plugin.bare e) = true := by
  have hlength : ((compile Uuid.dns { openId := true } ⟨partnerMembers, "3.0.0"⟩).toOption.map
      fun c => c.placed.length) = some 1 := by
    decide +kernel
  obtain ⟨c, hc, hlength⟩ := Option.map_eq_some_iff.1 hlength
  rw [toOption_eq_some_iff] at hc
  obtain ⟨ctx, root, plan, hrun, hplan, hperm, hprotected⟩ := protection_of_compile hc rfl
  obtain ⟨hdoc, hoptions, -, -⟩ := Context.ofRun_cases hrun
  -- the document has one path with one operation
  have houtline := outline_eq_of_planned (Plan.planned_of_of hplan)
  rw [hdoc] at houtline
  have hpaths := Except.ok.inj houtline
  obtain ⟨p, hp, hoperations⟩ := List.map_eq_singleton_iff.1 hpaths.symm
  obtain ⟨op, hop, hendpoint⟩ :=
    List.map_eq_singleton_iff.1 (congrArg PathOutline.endpoints hoperations)
  have hobject : op.object = [("security", .arr [.obj [("staff", .arr [])]])] :=
    congrArg Endpoint.operation hendpoint
  obtain ⟨plugin, hplugin, heffect⟩ := hprotected p (by simp [hp]) op (by simp [hop]) "staff"
    (.arr []) _ (by rw [hobject]; rfl) rfl rfl
  refine ⟨c, hc, hlength, ctx, plan, hperm, p, op, plugin, hp, hop, ?_, ?_⟩
  · rw [← hplugin none, hobject]
    rfl
  · intro x hx
    obtain ⟨y, e, hfound, -, hsame⟩ := heffect x hx
    refine ⟨y, e, hfound, hsame.2 ?_⟩
    rintro ⟨document, -, hdocument, -⟩
    rw [Cascade.documentOpenId, hoptions, hdoc] at hdocument
    cases hdocument

/-- When the document requires the same scheme, the one route of the operation has the plugin that
the path declares and not the one that the operation requires. -/
theorem not_sameMembers_bare_partners :
    ∃ c plugin, compile Uuid.dns { openId := true }
        ⟨partnerMembers.insert "security" (.arr [.obj [("staff", .arr [])]]), "3.0.0"⟩ = .ok c ∧
      openIdConnect ⟨partnerMembers, "3.0.0"⟩ false (some (.arr [.obj [("staff", .arr [])]])) none =
        .ok (some plugin) ∧
      c.plugins.isEmpty = true ∧
      (c.placed.map fun entry => (Configuration.pluginsOf entry.2).map fun p =>
        (Plugin.name p, Json.sameMembers (Plugin.bare plugin) (Plugin.bare p))) =
        [[("openid-connect", false)]] := by
  have hroutes : ((compile Uuid.dns { openId := true }
      ⟨partnerMembers.insert "security" (.arr [.obj [("staff", .arr [])]]), "3.0.0"⟩).toOption.map
        fun c => (c.plugins.isEmpty, c.placed.map fun entry =>
          (Configuration.pluginsOf entry.2).map fun p => (Plugin.name p, Json.sameMembers
            [("config", .obj [("issuer", .str "https://staff.example.com"),
              ("scopes_required", .arr [])]), ("name", .str "openid-connect")] (Plugin.bare p)))) =
      some (true, [[("openid-connect", false)]]) := by
    decide +kernel
  obtain ⟨c, hc, hroutes⟩ := Option.map_eq_some_iff.1 hroutes
  rw [toOption_eq_some_iff] at hc
  obtain ⟨hplugins, hroutes⟩ := Prod.mk.inj hroutes
  exact ⟨c, _, hc, rfl, hplugins, hroutes⟩

end ApiGateway
