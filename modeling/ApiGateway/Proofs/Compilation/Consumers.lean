import ApiGateway.Proofs.Compilation.References
import ApiGateway.Proofs.Naming.BaseName
import ApiGateway.Proofs.Uuid.Text

/-!
# Plugins of consumers

A plugin with a consumer leaves its owner for the top level. It is found there in the output, unless
the service of the document is left out and takes it along: the plugins that go are told by the
value under `service` alone, not by where they come from. A scope without any slug has the base name
of the document, so its service has the key of the document's service, and its plugins go too. So
does the OpenID Connect plugin of a route whose security scheme sets that key itself.

## Main definitions

* `Creation.text`: the text that the identifier of an owner is derived from.
* `Plan.Loses`: the plugins that go with the service of the document though their owner stays.
-/
namespace ApiGateway

/-- The text that the identifier of an owner is derived from. -/
def Creation.text (x : Creation) : String := x.name ++ "." ++ x.holder.label

/-- A plugin goes with the service of the document though its owner stays: it is the plugin of a
service with the same key, or the OpenID Connect plugin of a route with this key under `service`. -/
def Plan.Loses (ctx : Context) (plan : Plan) (x : Creation) (plugin : Members) : Prop :=
  plan.dropped ctx = true ∧
    match x.holder with
    | .service => x.key ctx.stamp = (plan.document ctx).key ctx.stamp
    | .route => Plugin.name plugin = openIdName ∧
        plugin.get? "service" = some (.str ((plan.document ctx).key ctx.stamp))

/-! ## Scopes with the base name of the document -/

section Names
variable {naming : Naming} {root : String}

/-- Names only ever make a base name longer. -/
theorem Site.length_le_base (site : Site) : root.length ≤ (site.base naming root).length := by
  obtain ⟨names, objects⟩ := site
  induction names with
  | nil => exact le_rfl
  | cons name names ih =>
    rw [Site.base_cons naming root name names objects objects]
    by_cases hslug : naming.slug name = ""
    · rwa [Naming.extend_of_slug_eq_empty hslug]
    · exact ih.trans (Naming.length_lt_extend hslug _).le

/-- A site has the base name of the document exactly when none of its names has a slug. -/
theorem Site.base_eq_iff (site : Site) :
    site.base naming root = root ↔ ∀ name ∈ site.names, naming.slug name = "" := by
  obtain ⟨names, objects⟩ := site
  induction names with
  | nil => simp [Site.base]
  | cons name names ih =>
    rw [Site.base_cons naming root name names objects objects]
    by_cases hslug : naming.slug name = ""
    · rw [Naming.extend_of_slug_eq_empty hslug, ih]
      simp [hslug]
    · constructor
      · intro heq
        have hlong := Naming.length_lt_extend hslug (Site.base naming root ⟨names, objects⟩)
        have hle : root.length ≤ (Site.base naming root ⟨names, objects⟩).length :=
          Site.length_le_base _
        rw [heq] at hlong
        omega
      · intro h
        exact absurd (h name (by simp)) hslug

end Names

/-- Creations of one kind with one key have one name, when identifiers are left out or different texts
have different identifiers. -/
theorem Creation.name_eq_of_key_eq {stamp : Stamp} {creations : List Creation} {x y : Creation}
    (hx : x ∈ creations) (hy : y ∈ creations) (hholder : x.holder = y.holder)
    (hinj : stamp.skipId = true ∨
      Set.InjOn (stamp.nameId stamp.space) {t | ∃ x ∈ creations, t = x.text})
    (hkey : x.key stamp = y.key stamp) : x.name = y.name := by
  unfold Creation.key at hkey
  by_cases hids : stamp.skipId = true
  · rwa [if_pos hids, if_pos hids] at hkey
  · rw [if_neg hids, if_neg hids] at hkey
    have htext : x.text = y.text := (hinj.resolve_left hids) ⟨x, hx, rfl⟩ ⟨y, hy, rfl⟩
      (Uuid.text_injective hkey)
    rw [Creation.text, Creation.text, hholder, String.append_assoc, String.append_assoc] at htext
    simpa using htext

namespace Plan
variable {ctx : Context} {root : String} {plan : Plan}

/-- The service of a scope has the base name of the site. -/
theorem Planned.name_of_mem_services (h : plan.Planned ctx root) :
    ∀ x ∈ plan.services ctx, x.name = x.site.base ctx.naming root := by
  have hf := Follows.document h.top
  intro x hx
  obtain rfl | ⟨p, hp, ⟨made, -, rfl⟩ | ⟨op, hop, made, -, rfl⟩⟩ := mem_services_iff.1 hx
  · exact hf.base_eq
  · obtain ⟨_, path⟩ := h.exists_path hp
    exact (hf.enter path.inside).base_eq
  · obtain ⟨_, path⟩ := h.exists_path hp
    obtain ⟨_, planned⟩ := path.exists_operation hop
    exact ((hf.enter path.inside).enter planned.inside).base_eq

/-- Services with one key have one name, when identifiers are left out or different texts have
different identifiers. -/
theorem name_eq_of_key_eq {x y : Creation} (hx : x ∈ plan.services ctx)
    (hy : y ∈ plan.services ctx)
    (hinj : ctx.stamp.skipId = true ∨ Set.InjOn (ctx.stamp.nameId ctx.stamp.space)
      {t | ∃ x ∈ plan.services ctx, t = x.text})
    (hkey : x.key ctx.stamp = y.key ctx.stamp) : x.name = y.name :=
  Creation.name_eq_of_key_eq hx hy
    ((holder_of_mem_services hx).trans (holder_of_mem_services hy).symm) hinj hkey

/-- A service has the key of the document's service only if none of its names has a slug. -/
theorem Planned.slug_eq_empty_of_key_eq (h : plan.Planned ctx root) {x : Creation}
    (hx : x ∈ plan.services ctx)
    (hinj : ctx.stamp.skipId = true ∨ Set.InjOn (ctx.stamp.nameId ctx.stamp.space)
      {t | ∃ x ∈ plan.services ctx, t = x.text})
    (hkey : x.key ctx.stamp = (plan.document ctx).key ctx.stamp) :
    ∀ name ∈ x.site.names, ctx.naming.slug name = "" := by
  have hdocument : plan.document ctx ∈ plan.services ctx := by simp [services]
  have hname := name_eq_of_key_eq hx hdocument hinj hkey
  rw [h.name_of_mem_services x hx, h.name_of_mem_services _ hdocument] at hname
  exact x.site.base_eq_iff.1 hname

/-- A plugin with a consumer is found at the top level exactly when it does not go with the service
of the document. -/
theorem Planned.share_mem_plugins_iff (h : plan.Planned ctx root) {x : Creation}
    (hx : x ∈ plan.kept ctx ++ plan.routes ctx) {p : Members} (hp : p ∈ x.plugins)
    (hconsumer : Plugin.hasConsumer p = true) :
    x.share ctx p ∈ (plan.configuration ctx).plugins ↔ ¬ plan.Loses ctx x p := by
  have hsound := h.sound_kept x hx
  have hcreated : ∃ y ∈ plan.services ctx ++ plan.routes ctx, x.share ctx p ∈ y.moved ctx := by
    refine ⟨x, ?_, Creation.mem_moved_iff.2 ⟨p, hp, hconsumer, rfl⟩⟩
    rcases List.mem_append.1 hx with hservice | hroute
    · exact List.mem_append_left _ (plan.kept_subset_services hservice)
    · exact List.mem_append_right _ hroute
  rw [mem_plugins_iff, h.survives_iff, hsound.get?_share, Loses]
  simp only [hcreated, true_and]
  refine not_congr (and_congr_right fun _ => ?_)
  cases hholder : x.holder with
  | service => simp [Holder.label]
  | route =>
    simp only [Holder.label]
    constructor
    · intro hservice
      refine ⟨?_, by simpa using hservice⟩
      -- only the OpenID Connect plugin comes with references of its own
      by_contra hname
      have hunbound := hsound.unbound p hp hname
      simp [hunbound.1] at hservice
    · rintro ⟨-, hservice⟩
      simpa using hservice

end Plan

/-- Plugins of consumers are found at the top level, but for those that go with the service of the
document. The services and routes of the output are the ones that are kept, each with its key; a
plugin with a consumer that is in effect for one of them stands at the top level with this key
exactly when it is not lost. When identifiers are left out, or the services of different names have
different ones, it is lost with a service only if no name around this service has a slug. -/
theorem consumers_of_compile {fresh : Uuid} {options : Options} {doc : Document}
    {c : Configuration} (h : compile fresh options doc = .ok c) :
    ∃ ctx root plan, Context.ofRun fresh options doc = .ok (ctx, root) ∧
      Plan.of ctx root = .ok plan ∧
      (c.services.map (·.erase "routes")).Perm
        ((plan.kept ctx).map fun x => (x.complete ctx).erase "routes") ∧
      c.routes.Perm ((plan.routes ctx).map (Creation.complete ctx)) ∧
      (∀ x ∈ plan.kept ctx ++ plan.routes ctx,
        x.entity.get? options.keyField = some (.str (x.key ctx.stamp)) ∧
        ∀ p ∈ x.plugins, Plugin.hasConsumer p = true →
          (x.share ctx p).get? x.holder.label = some (.str (x.key ctx.stamp)) ∧
          (x.share ctx p ∈ c.plugins ↔ ¬ plan.Loses ctx x p)) ∧
      ((options.skipId = true ∨ Set.InjOn (options.nameId options.space)
          {t | ∃ x ∈ plan.services ctx, t = x.text}) →
        ∀ x ∈ plan.kept ctx, ∀ p, plan.Loses ctx x p →
          ∀ name ∈ x.site.names, options.naming.slug name = "") := by
  obtain ⟨ctx, root, plan, hrun, hplan, rfl⟩ := exists_plan_of_compile h
  obtain ⟨-, hoptions, ⟨tags, hstamp⟩, -⟩ := Context.ofRun_cases hrun
  have planned := Plan.planned_of_of hplan
  refine ⟨ctx, root, plan, hrun, hplan, Plan.services_perm_kept, Plan.routes_perm_created, ?_, ?_⟩
  · intro x hx
    have hsound := planned.sound_kept x hx
    refine ⟨?_, ?_⟩
    · have hfield : options.keyField = ctx.stamp.keyField := by rw [hstamp, Options.keyField_stamp]
      rw [hfield, hsound.get?_keyField]
    · intro p hp hconsumer
      refine ⟨?_, planned.share_mem_plugins_iff hx hp hconsumer⟩
      rw [hsound.get?_share, if_pos rfl]
  · rintro hinj x hx p ⟨-, hlost⟩
    have hservice := plan.kept_subset_services hx
    rw [Plan.holder_of_mem_services hservice] at hlost
    have hslugs := planned.slug_eq_empty_of_key_eq hservice (by rwa [hstamp]) hlost
    rwa [Context.naming, hoptions] at hslugs

/-- The names of the plugins of consumers that are in effect for the services a run keeps, and
whether it leaves out the service of the document. -/
def consumersOfRun (fresh : Uuid) (options : Options) (doc : Document) :
    Except Error (Bool × List String) := do
  let (ctx, root) ← Context.ofRun fresh options doc
  let plan ← Plan.of ctx root
  return (plan.dropped ctx,
    (plan.kept ctx).flatMap fun x => (x.plugins.filter Plugin.hasConsumer).map Plugin.name)

theorem exists_of_consumersOfRun {fresh : Uuid} {options : Options} {doc : Document}
    {ctx : Context} {root name : String} {plan : Plan} {dropped : Bool}
    (hrun : Context.ofRun fresh options doc = .ok (ctx, root)) (hplan : Plan.of ctx root = .ok plan)
    (h : (consumersOfRun fresh options doc).toOption = some (dropped, [name])) :
    plan.dropped ctx = dropped ∧ ∃ x ∈ plan.kept ctx, ∃ p ∈ x.plugins,
      Plugin.hasConsumer p = true ∧ Plugin.name p = name := by
  rw [toOption_eq_some_iff] at h
  simp only [consumersOfRun, hrun, ok_bind, hplan] at h
  obtain ⟨hdropped, hnames⟩ := Prod.mk.inj (Except.ok.inj h)
  refine ⟨hdropped, ?_⟩
  have hmem : name ∈ (plan.kept ctx).flatMap fun x =>
      (x.plugins.filter Plugin.hasConsumer).map Plugin.name := by
    rw [hnames]
    exact List.mem_singleton_self name
  obtain ⟨x, hx, hname⟩ := List.mem_flatMap.1 hmem
  obtain ⟨p, hp, hname⟩ := List.mem_map.1 hname
  obtain ⟨hp, hconsumer⟩ := List.mem_filter.1 hp
  exact ⟨x, hx, p, hp, hconsumer, hname⟩

/-- The plugin of the small document stands at the top level. -/
theorem consumers_of_compile_members :
    ∃ c, compile Uuid.dns {} memberDocument = .ok c ∧ ∃ p ∈ c.plugins, Plugin.name p = "acl" := by
  obtain ⟨c, hc⟩ : ∃ c, (compile Uuid.dns {} memberDocument).toOption = some c :=
    Option.isSome_iff_exists.1 (by decide +kernel)
  rw [toOption_eq_some_iff] at hc
  obtain ⟨ctx, root, plan, hrun, hplan, -, -, hfound, -⟩ := consumers_of_compile hc
  have hconsumers : (consumersOfRun Uuid.dns {} memberDocument).toOption = some (false, ["acl"]) := by
    decide +kernel
  obtain ⟨hdropped, x, hx, p, hp, hconsumer, hname⟩ := exists_of_consumersOfRun hrun hplan hconsumers
  obtain ⟨-, hplugins⟩ := hfound x (List.mem_append_left _ hx)
  refine ⟨c, hc, x.share ctx p, (hplugins p hp hconsumer).2.2 ?_, ?_⟩
  · rintro ⟨hlost, -⟩
    rw [hdropped] at hlost
    cases hlost
  · rwa [Creation.name_share]

/-- A document without servers, whose one path has servers but no slug. -/
def lobbyDocument : Document :=
  ⟨[("info", .obj [("title", .str "api")]), ("openapi", .str "3.0.0"),
    ("paths", .obj [("/", .obj [("get", .obj []),
      ("servers", .arr [.obj [("url", .str "https://a.example.com")]])])]),
    ("x-kong-plugin-acl", .obj [("consumer", .str "bob")])], "3.0.0"⟩

/-- The service of the path has the plugin of the consumer in effect when it is made, and yet the
output has no plugin at the top level. -/
theorem not_share_mem_plugins_lobby :
    ∃ c ctx root plan, compile Uuid.dns {} lobbyDocument = .ok c ∧
      Context.ofRun Uuid.dns {} lobbyDocument = .ok (ctx, root) ∧ Plan.of ctx root = .ok plan ∧
      c.plugins = [] ∧ ∃ x ∈ plan.kept ctx, ∃ p ∈ x.plugins,
        Plugin.hasConsumer p = true ∧ x.share ctx p ∉ c.plugins := by
  have hempty : ((compile Uuid.dns {} lobbyDocument).toOption.map fun c => c.plugins.isEmpty) =
      some true := by
    decide +kernel
  obtain ⟨c, hc, hempty⟩ := Option.map_eq_some_iff.1 hempty
  rw [toOption_eq_some_iff] at hc
  obtain ⟨ctx, root, plan, hrun, hplan, -⟩ := exists_plan_of_compile hc
  have hconsumers : (consumersOfRun Uuid.dns {} lobbyDocument).toOption = some (true, ["acl"]) := by
    decide +kernel
  obtain ⟨-, x, hx, p, hp, hconsumer, -⟩ := exists_of_consumersOfRun hrun hplan hconsumers
  have hnil : c.plugins = [] := List.isEmpty_iff.1 hempty
  refine ⟨c, ctx, root, plan, hc, hrun, hplan, hnil, x, hx, p, hp, hconsumer, ?_⟩
  rw [hnil]
  exact List.not_mem_nil

end ApiGateway
