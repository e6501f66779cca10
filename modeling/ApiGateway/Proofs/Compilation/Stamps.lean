import ApiGateway.Proofs.Compilation.References

/-!
# The stamps of the output

A plugin may be stamped several times on its way: by the document, by its path, by its operation,
and once more by the route that carries it. Only the last stamp counts, and it is the one of the
owner. So everything in the output has the tags of the run, and an identifier that is derived from
the name of the owner, whatever the document has under these fields.

## Main definitions

* `StampedOwner`: a service or a route that bears the stamp of its name, with plugins that do.
-/
namespace ApiGateway

/-- An owner that has a name, bears the stamp of this name, and carries plugins with the stamp of
this name. -/
def StampedOwner (stamp : Stamp) (kind : String) (owner : Members) : Prop :=
  ∃ name plugins, owner.get? "name" = some (.str name) ∧ Bears stamp name kind owner ∧
    owner.get? "plugins" = some (.ofObjects plugins) ∧
    ∀ p ∈ plugins, Bears stamp name ("plugin." ++ Plugin.name p) p

section Owners
variable {ctx : Context} {x : Creation}

/-- The plugins in effect for an owner bear the stamp of its name. -/
theorem Creation.Sound.bears_plugin (h : x.Sound ctx) :
    ∀ p ∈ x.plugins, Bears ctx.stamp x.name ("plugin." ++ Plugin.name p) p := by
  intro p hp
  obtain ⟨q, rfl⟩ := h.restamped p hp
  rw [Plugin.name_restamp]
  exact bears_restamp ctx.stamp x.name q

/-- A plugin that refers to its owner keeps its stamp. -/
theorem Creation.Sound.bears_share (h : x.Sound ctx) {p : Members} (hp : p ∈ x.plugins) :
    Bears ctx.stamp x.name ("plugin." ++ Plugin.name (x.share ctx p)) (x.share ctx p) := by
  rw [Creation.name_share]
  exact (h.bears_plugin p hp).insert _ (Creation.label_ne_of_ne (by decide) (by decide))
    (Creation.label_ne_of_ne (by decide) (by decide))

/-- What is shown of an owner in the output, apart from its routes, is stamped. -/
theorem Creation.Sound.stampedOwner (h : x.Sound ctx) {owner : Members}
    (hget : ∀ key ≠ "routes", owner.get? key = (x.complete ctx).get? key) :
    StampedOwner ctx.stamp x.holder.label owner := by
  refine ⟨x.name, x.plugins.filter fun p => !Plugin.hasConsumer p, ?_, ⟨?_, ?_⟩, ?_, ?_⟩
  · rw [hget "name" (by decide), x.get?_complete ctx (by decide), h.named]
  · rw [hget "tags" (by decide), x.get?_complete ctx (by decide), h.bears.tags_eq]
  · intro hids
    rw [hget "id" (by decide), x.get?_complete ctx (by decide), h.bears.id_eq hids]
  · rw [hget "plugins" (by decide), x.get?_plugins_complete]
  · exact fun p hp => h.bears_plugin p (List.mem_of_mem_filter hp)

end Owners

namespace Plan
variable {ctx : Context} {root : String} {plan : Plan}

theorem Planned.stampedOwner_service (h : plan.Planned ctx root) :
    ∀ s ∈ (plan.configuration ctx).services, StampedOwner ctx.stamp "service" s := by
  intro s hs
  obtain ⟨x, hx, herase⟩ := exists_kept_of_mem_services hs
  have howner := (h.sound_kept x (List.mem_append_left _ hx)).stampedOwner
    fun key hne => Members.get?_eq_of_erase_eq herase hne
  rwa [holder_of_mem_services (plan.kept_subset_services hx)] at howner

theorem Planned.stampedOwner_route (h : plan.Planned ctx root) :
    ∀ r ∈ (plan.configuration ctx).routes, StampedOwner ctx.stamp "route" r := by
  intro r hr
  obtain ⟨x, hx, rfl⟩ := mem_routes_iff.1 hr
  have howner := (h.sound_kept x (List.mem_append_right _ hx)).stampedOwner fun _ _ => rfl
  rwa [holder_of_mem_routes hx] at howner

/-- Every upstream of the output backs a service of the output. -/
theorem Planned.exists_service_of_upstream (h : plan.Planned ctx root) :
    ∀ up ∈ (plan.configuration ctx).upstreams, ∃ s ∈ (plan.configuration ctx).services, ∃ name,
      s.get? "name" = some (.str name) ∧ Backs ctx.stamp name s up := by
  intro up hup
  obtain ⟨x, hx, hbacks⟩ := List.mem_filterMap.1 (upstreams_perm_kept.mem_iff.1 hup)
  have hsound := h.sound_kept x (List.mem_append_left _ hx)
  obtain ⟨bears, hname, hhost, htargets⟩ := hsound.backed up hbacks
  obtain ⟨s, hs, herase⟩ := exists_mem_services_of_kept hx
  have hget : ∀ key, key ≠ "routes" → key ≠ "plugins" → s.get? key = x.entity.get? key := by
    intro key hroutes hplugins
    rw [Members.get?_eq_of_erase_eq herase hroutes, x.get?_complete ctx hplugins]
  refine ⟨s, hs, x.name, ?_, bears, hname, ?_, htargets⟩
  · rw [hget "name" (by decide) (by decide), hsound.named]
  · rw [hget "host" (by decide) (by decide), hhost]

/-- Every plugin of the top level bears the stamp of the owner it refers to. -/
theorem Planned.exists_owner_of_plugin (h : plan.Planned ctx root) :
    ∀ p ∈ (plan.configuration ctx).plugins, ∃ owner name,
      owner.get? "name" = some (.str name) ∧
      Bears ctx.stamp name ("plugin." ++ Plugin.name p) p ∧
      ((owner ∈ (plan.configuration ctx).services ∧
          Refers ctx.stamp.keyField "service" p owner) ∨
        (owner ∈ (plan.configuration ctx).routes ∧
          Refers ctx.stamp.keyField "route" p owner)) := by
  intro p hp
  obtain ⟨x, hx, q, hq, -, rfl⟩ := h.exists_share_of_mem_plugins hp
  have hsound := h.sound_kept x hx
  have hname : (x.complete ctx).get? "name" = some (.str x.name) := by
    rw [x.get?_complete ctx (by decide), hsound.named]
  obtain ⟨s, hs, herase, hrefers⟩ | ⟨r, hr, rfl, hrefers⟩ := h.exists_refers hx q
  · refine ⟨s, x.name, ?_, hsound.bears_share hq, Or.inl ⟨hs, hrefers⟩⟩
    rwa [Members.get?_eq_of_erase_eq herase (by decide)]
  · exact ⟨_, x.name, hname, hsound.bears_share hq, Or.inr ⟨hr, hrefers⟩⟩

end Plan

/-- Everything in the output is stamped for its owner. Services, routes, upstreams and their
targets, and plugins, nested or at the top level, have the tags of the run. With identifiers, that
of a service, a route or an upstream is derived from the name of the service or the route and its
kind, and that of a plugin from the name of its owner and its own name. -/
theorem stamps_of_compile {fresh : Uuid} {options : Options} {doc : Document}
    {c : Configuration} (h : compile fresh options doc = .ok c) :
    ∃ tags, doc.runTags options = .ok tags ∧
      (∀ s ∈ c.services, StampedOwner (options.stamp tags) "service" s) ∧
      (∀ r ∈ c.routes, StampedOwner (options.stamp tags) "route" r) ∧
      (∀ up ∈ c.upstreams, ∃ s ∈ c.services, ∃ name, s.get? "name" = some (.str name) ∧
        Backs (options.stamp tags) name s up) ∧
      ∀ p ∈ c.plugins, ∃ owner name, owner.get? "name" = some (.str name) ∧
        Bears (options.stamp tags) name ("plugin." ++ Plugin.name p) p ∧
        ((owner ∈ c.services ∧ Refers options.keyField "service" p owner) ∨
          (owner ∈ c.routes ∧ Refers options.keyField "route" p owner)) := by
  obtain ⟨ctx, root, plan, hrun, hplan, rfl⟩ := exists_plan_of_compile h
  obtain ⟨tags, htags, hstamp⟩ := Context.exists_runTags_of_ofRun hrun
  have planned := Plan.planned_of_of hplan
  have hfield : options.keyField = ctx.stamp.keyField := by rw [hstamp, Options.keyField_stamp]
  refine ⟨tags, htags, ?_⟩
  rw [hfield, ← hstamp]
  exact ⟨planned.stampedOwner_service, planned.stampedOwner_route,
    planned.exists_service_of_upstream, planned.exists_owner_of_plugin⟩

/-- The service of the small document and the plugin of its consumer have the tags of the run, and
the identifier of the plugin comes from the name of an owner. -/
theorem stamps_of_compile_members :
    ∃ c, compile Uuid.dns { tags := some ["edge"] } memberDocument = .ok c ∧
      c.plugins.map Plugin.name = ["acl"] ∧
      (∀ s ∈ c.services, s.get? "tags" = some (.ofStrings ["edge"])) ∧
      ∀ p ∈ c.plugins, p.get? "tags" = some (.ofStrings ["edge"]) ∧
        ∃ owner ∈ c.services ++ c.routes, ∃ name, owner.get? "name" = some (.str name) ∧
          p.get? "id" = some (.str (Uuid.named Uuid.dns
            (name ++ "." ++ ("plugin." ++ Plugin.name p))).text) := by
  have hnames : ((compile Uuid.dns { tags := some ["edge"] } memberDocument).toOption.map fun c =>
      c.plugins.map Plugin.name) = some ["acl"] := by
    decide +kernel
  obtain ⟨c, hc, hnames⟩ := Option.map_eq_some_iff.1 hnames
  rw [toOption_eq_some_iff] at hc
  obtain ⟨tags, htags, hservices, -, -, hplugins⟩ := stamps_of_compile hc
  obtain rfl : ["edge"] = tags := Except.ok.inj htags
  refine ⟨c, hc, hnames, ?_, ?_⟩
  · intro s hs
    obtain ⟨name, plugins, -, hbears, -⟩ := hservices s hs
    exact hbears.tags_eq
  · intro p hp
    obtain ⟨owner, name, hname, hbears, howner⟩ := hplugins p hp
    refine ⟨hbears.tags_eq, owner, ?_, name, hname, hbears.id_eq rfl⟩
    exact List.mem_append.2 (howner.imp And.left And.left)

end ApiGateway
