import ApiGateway.Proofs.Compilation.Creation

/-!
# References of plugins

A plugin that leaves its owner refers to it by the key of the owner: its identifier, or its name
when identifiers are left out. The reference is written while the walk is under way, and it holds in
the output: the owner still stands there, since a plugin whose reference is that of a service that
is left out goes with it.

## Main definitions

* `Options.keyField`: the field that has the key of an owner.
* `Refers`: a plugin that refers to an owner.
-/
namespace ApiGateway

/-- The field that has the key of an owner. -/
def Options.keyField (options : Options) : String := if options.skipId then "name" else "id"

theorem Stamp.keyField_ne {stamp : Stamp} {key : String} (hid : "id" ≠ key) (hname : "name" ≠ key) :
    stamp.keyField ≠ key := by
  unfold Stamp.keyField
  split
  · exact hname
  · exact hid

theorem Options.keyField_stamp (options : Options) (tags : List String) :
    (options.stamp tags).keyField = options.keyField := rfl

/-- A field of a plugin has the key of an owner. -/
def Refers (keyField field : String) (plugin owner : Members) : Prop :=
  ∃ key, owner.get? keyField = some (.str key) ∧ plugin.get? field = some (.str key)

/-- Only a string is the same value as a string. -/
theorem Json.sameValue_str_iff {text : String} {value : Json} :
    Json.sameValue (.str text) value = true ↔ value = .str text := by
  cases value with
  | str other =>
    rw [Json.sameValue, beq_iff_eq, Json.str.injEq]
    exact eq_comm
  | _ => simp [Json.sameValue]

/-! ## Keys -/

namespace Creation
variable {ctx : Context} {x : Creation}

/-- An owner has its key. -/
theorem Sound.get?_keyField (h : x.Sound ctx) :
    x.entity.get? ctx.stamp.keyField = some (.str (x.key ctx.stamp)) := by
  unfold Stamp.keyField key
  split
  · exact h.named
  · rename_i hids
    exact h.bears.id_eq (Bool.eq_false_iff.2 hids)

/-- The key of an owner is what plugins refer to. -/
theorem Sound.foreignKey_eq (h : x.Sound ctx) :
    ctx.stamp.foreignKey x.entity = .str (x.key ctx.stamp) := by
  rw [Stamp.foreignKey, h.get?_keyField, Option.getD_some]

/-- Plugins do not touch the key of their owner. -/
theorem get?_keyField_complete (ctx : Context) (x : Creation) :
    (x.complete ctx).get? ctx.stamp.keyField = x.entity.get? ctx.stamp.keyField :=
  x.get?_complete ctx (Stamp.keyField_ne (by decide) (by decide))

/-- A plugin that refers to its owner has its key in one field more. -/
theorem Sound.get?_share (h : x.Sound ctx) (plugin : Members) (field : String) :
    (x.share ctx plugin).get? field =
      if field = x.holder.label then some (.str (x.key ctx.stamp)) else plugin.get? field := by
  rw [share, Members.get?_insert, h.foreignKey_eq]

theorem label_ne_of_ne {holder : Holder} {field : String} (hservice : field ≠ "service")
    (hroute : field ≠ "route") : field ≠ holder.label := by
  cases holder
  · exact hservice
  · exact hroute

@[simp] theorem name_share (ctx : Context) (x : Creation) (plugin : Members) :
    Plugin.name (x.share ctx plugin) = Plugin.name plugin :=
  Plugin.name_insert_of_ne (label_ne_of_ne (by decide) (by decide)) plugin _

@[simp] theorem hasConsumer_share (ctx : Context) (x : Creation) (plugin : Members) :
    Plugin.hasConsumer (x.share ctx plugin) = Plugin.hasConsumer plugin := by
  have hne : "consumer" ≠ x.holder.label := label_ne_of_ne (by decide) (by decide)
  simp only [Plugin.hasConsumer, share, Members.get?_insert, if_neg hne]

/-- A plugin without references of its own refers to its owner and to nothing else. -/
theorem Sound.has_share (h : x.Sound ctx) {plugin : Members} (hunbound : Plugin.Unbound plugin) :
    (x.share ctx plugin).has "service" ≠ (x.share ctx plugin).has "route" := by
  obtain ⟨hservice, hroute⟩ := hunbound
  cases hholder : x.holder <;>
    simp [Members.has, h.get?_share, hholder, Holder.label, hservice, hroute]

end Creation

namespace Plan
variable {ctx : Context} {root : String} {plan : Plan}

theorem holder_of_mem_services {x : Creation} (hx : x ∈ plan.services ctx) :
    x.holder = .service := by
  obtain rfl | ⟨p, -, ⟨made, -, rfl⟩ | ⟨op, -, made, -, rfl⟩⟩ := mem_services_iff.1 hx <;> rfl

theorem holder_of_mem_routes {x : Creation} (hx : x ∈ plan.routes ctx) : x.holder = .route := by
  obtain ⟨p, -, op, -, route, -, rfl⟩ := mem_created_iff.1 hx
  rfl

/-- A plugin of the top level stays there unless the service of the document is left out and is
what the plugin has under `service`. -/
theorem Planned.survives_iff (h : plan.Planned ctx root) {p : Members} :
    plan.survives ctx p = true ↔ ¬ (plan.dropped ctx = true ∧
      p.get? "service" = some (.str ((plan.document ctx).key ctx.stamp))) := by
  have hsound := h.sound_creations (plan.document ctx) (by simp [services])
  have hkey : ctx.stamp.foreignKey (plan.ownSlot ctx).service =
      .str ((plan.document ctx).key ctx.stamp) := by
    have hservice : (plan.ownSlot ctx).service = (plan.document ctx).complete ctx := rfl
    rw [hservice, Stamp.foreignKey, Creation.get?_keyField_complete, hsound.get?_keyField,
      Option.getD_some]
  rw [survives, hkey]
  cases hservice : p.get? "service" with
  | none => simp
  | some value =>
    cases hdropped : plan.dropped ctx <;> cases hsame : Json.sameValue
      (.str ((plan.document ctx).key ctx.stamp)) value <;>
      simp_all [Json.sameValue_str_iff, ← Bool.not_eq_true]

/-- Every plugin of the top level refers to an owner in the output. -/
theorem Planned.exists_share_of_mem_plugins (h : plan.Planned ctx root) {p : Members}
    (hp : p ∈ (plan.configuration ctx).plugins) :
    ∃ x ∈ plan.kept ctx ++ plan.routes ctx, ∃ q ∈ x.plugins,
      Plugin.hasConsumer q = true ∧ x.share ctx q = p := by
  obtain ⟨⟨x, hx, hmoved⟩, hsurvives⟩ := mem_plugins_iff.1 hp
  obtain ⟨q, hq, hconsumer, rfl⟩ := Creation.mem_moved_iff.1 hmoved
  refine ⟨x, ?_, q, hq, hconsumer, rfl⟩
  rcases List.mem_append.1 hx with hservice | hroute
  · obtain hkept | ⟨hdropped, rfl⟩ := mem_kept_or_eq hservice
    · exact List.mem_append_left _ hkept
    · -- plugins of a service that is left out do not stay
      refine absurd ⟨hdropped, ?_⟩ (h.survives_iff.1 hsurvives)
      rw [(h.sound_creations _ hx).get?_share]
      rfl
  · exact List.mem_append_right _ hroute

/-- A service that is kept is referred to by the plugins that leave it, and a route too. -/
theorem Planned.exists_refers (h : plan.Planned ctx root) {x : Creation}
    (hx : x ∈ plan.kept ctx ++ plan.routes ctx) (q : Members) :
    (∃ s ∈ (plan.configuration ctx).services,
      s.erase "routes" = (x.complete ctx).erase "routes" ∧
        Refers ctx.stamp.keyField "service" (x.share ctx q) s) ∨
    (∃ r ∈ (plan.configuration ctx).routes,
      r = x.complete ctx ∧ Refers ctx.stamp.keyField "route" (x.share ctx q) r) := by
  have hsound := h.sound_kept x hx
  rcases List.mem_append.1 hx with hservice | hroute
  · obtain ⟨s, hs, herase⟩ := exists_mem_services_of_kept hservice
    refine Or.inl ⟨s, hs, herase, x.key ctx.stamp, ?_, ?_⟩
    · rw [Members.get?_eq_of_erase_eq herase (Stamp.keyField_ne (by decide) (by decide)),
        Creation.get?_keyField_complete, hsound.get?_keyField]
    · rw [hsound.get?_share, holder_of_mem_services (plan.kept_subset_services hservice)]
      rfl
  · refine Or.inr ⟨x.complete ctx, mem_routes_iff.2 ⟨x, hroute, rfl⟩, rfl, x.key ctx.stamp, ?_, ?_⟩
    · rw [Creation.get?_keyField_complete, hsound.get?_keyField]
    · rw [hsound.get?_share, holder_of_mem_routes hroute]
      rfl

end Plan

/-- References hold in the output. Every plugin of the top level belongs to a consumer and has the
key of a service of the output under `service` or that of a route under `route`; only the plugin of
OpenID Connect can have both fields. The plugins that services and routes carry belong to no
consumer and, but for that of OpenID Connect, have neither field. -/
theorem references_of_compile {fresh : Uuid} {options : Options} {doc : Document}
    {c : Configuration} (h : compile fresh options doc = .ok c) :
    (∀ p ∈ c.plugins, Plugin.hasConsumer p = true ∧
      ((∃ s ∈ c.services, Refers options.keyField "service" p s) ∨
        ∃ r ∈ c.routes, Refers options.keyField "route" p r) ∧
      (Plugin.name p ≠ openIdName → p.has "service" ≠ p.has "route")) ∧
    ∀ owner ∈ c.services ++ c.routes, ∃ plugins,
      owner.get? "plugins" = some (.ofObjects plugins) ∧
      ∀ p ∈ plugins, Plugin.hasConsumer p = false ∧
        (Plugin.name p ≠ openIdName → p.has "service" = false ∧ p.has "route" = false) := by
  obtain ⟨ctx, root, plan, hrun, hplan, rfl⟩ := exists_plan_of_compile h
  obtain ⟨-, -, ⟨tags, hstamp⟩, -⟩ := Context.ofRun_cases hrun
  have planned := Plan.planned_of_of hplan
  have hfield : options.keyField = ctx.stamp.keyField := by rw [hstamp, Options.keyField_stamp]
  constructor
  · intro p hp
    obtain ⟨x, hx, q, hq, hconsumer, rfl⟩ := planned.exists_share_of_mem_plugins hp
    have hsound := planned.sound_kept x hx
    rw [Creation.hasConsumer_share, Creation.name_share, hfield]
    refine ⟨hconsumer, ?_, fun hname => hsound.has_share (hsound.unbound q hq hname)⟩
    exact (planned.exists_refers hx q).imp
      (fun ⟨s, hs, _, hrefers⟩ => ⟨s, hs, hrefers⟩) (fun ⟨r, hr, _, hrefers⟩ => ⟨r, hr, hrefers⟩)
  · intro owner howner
    obtain ⟨x, hx, hget⟩ := Plan.exists_kept_of_mem_owners howner
    refine ⟨_, (hget "plugins" (by decide)).trans (x.get?_plugins_complete ctx), ?_⟩
    intro p hp
    obtain ⟨hmem, hconsumer⟩ := List.mem_filter.1 hp
    refine ⟨by simpa using hconsumer, ?_⟩
    intro hname
    obtain ⟨hservice, hroute⟩ := (planned.sound_kept x hx).unbound p hmem hname
    simp [Members.has, hservice, hroute]

/-- A small document with a plugin for one consumer. -/
def memberDocument : Document :=
  ⟨[("info", .obj [("title", .str "Members")]),
    ("paths", .obj [("/lounge", .obj [("get", .obj [])])]),
    ("x-kong-plugin-acl", .obj [("consumer", .str "bob")])], "3.0.0"⟩

/-- The one plugin of the small document refers to an owner, by one field. -/
theorem references_of_compile_members :
    ∃ c, compile Uuid.dns { skipId := true } memberDocument = .ok c ∧
      c.plugins.map Plugin.name = ["acl"] ∧
      ∀ p ∈ c.plugins, Plugin.hasConsumer p = true ∧
        ((∃ s ∈ c.services, Refers "name" "service" p s) ∨
          ∃ r ∈ c.routes, Refers "name" "route" p r) ∧
        p.has "service" ≠ p.has "route" := by
  have hnames : ((compile Uuid.dns { skipId := true } memberDocument).toOption.map fun c =>
      c.plugins.map Plugin.name) = some ["acl"] := by
    decide +kernel
  obtain ⟨c, hc, hnames⟩ := Option.map_eq_some_iff.1 hnames
  rw [toOption_eq_some_iff] at hc
  refine ⟨c, hc, hnames, ?_⟩
  intro p hp
  have hname : Plugin.name p ∈ c.plugins.map Plugin.name := List.mem_map_of_mem hp
  rw [hnames, List.mem_singleton] at hname
  obtain ⟨hconsumer, hrefers, hfields⟩ := (references_of_compile hc).1 p hp
  refine ⟨hconsumer, hrefers, hfields ?_⟩
  rw [hname]
  decide

end ApiGateway
