import ApiGateway.Proofs.Compilation.Groups
import Mathlib

/-!
# Unique identifiers

When the paths of a document have different slugs, and so do the operations of each path, two
owners of one kind never have the same slugs. A service and a route may: an operation with a
service of its own gives its name to both. Their plugins share identifiers only by name, and the
one name that both can have is that of OpenID Connect, when the operation has security
requirements of its own.

## Main definitions

* `DistinctSlugs`: an outline whose slugs tell its paths and operations apart.
* `Owner.key`: an owner without its name.
* `Endpoint.Doubled`: an operation whose service and whose route both have an OpenID Connect plugin.
-/
namespace ApiGateway

open Plugin (Ordered validatorName)

/-- The slug of the name of a scope. -/
def Site.slug (naming : Naming) (site : Site) : String := naming.slug (site.names.headD "")

/-- Paths with different slugs, each with operations of different slugs, none of them empty. -/
@[mk_iff]
structure DistinctSlugs (naming : Naming) (outline : List PathOutline) : Prop where
  paths : (outline.map fun p => p.site.slug naming).Nodup
  paths_ne : ∀ p ∈ outline, p.site.slug naming ≠ ""
  operations : ∀ p ∈ outline, (p.endpoints.map fun e => e.site.slug naming).Nodup
  operations_ne : ∀ p ∈ outline, ∀ e ∈ p.endpoints, e.site.slug naming ≠ ""

instance (naming : Naming) (outline : List PathOutline) :
    Decidable (DistinctSlugs naming outline) :=
  decidable_of_iff' _ (distinctSlugs_iff naming outline)

/-- An owner without its name. -/
def Owner.key (owner : Owner) : Holder × List String := (owner.holder, owner.sequence)

/-- The route of an operation whose headers list no values. -/
def Site.routeOwner (naming : Naming) (root : String) (site : Site) : Owner :=
  ⟨.route, site.base naming root, site.sequence naming root⟩

/-- Whether both the service and the route of an operation have an OpenID Connect plugin among
these entities. -/
def Endpoint.Doubled (naming : Naming) (root : String) (entities : List Owned) (e : Endpoint) :
    Prop :=
  ∃ o ∈ entities, ∃ o' ∈ entities, o.owner = e.site.owner naming root ∧
    o'.owner = e.site.routeOwner naming root ∧
    o.kind = .plugin openIdName ∧ o'.kind = .plugin openIdName

theorem PathPlan.site_endpoint (doc : Document) (p : PathPlan) (op : OperationPlan) :
    (p.endpoint doc op).site = (p.site doc).enter op.name op.object := rfl

theorem PathPlan.slug_outline (naming : Naming) (doc : Document) (p : PathPlan) :
    (p.outline doc).site.slug naming = naming.slug p.name := rfl

theorem PathPlan.slug_endpoint (naming : Naming) (doc : Document) (p : PathPlan)
    (op : OperationPlan) : (p.endpoint doc op).site.slug naming = naming.slug op.name := rfl

/-- The operations of the outline of a path are those of the path. -/
theorem PathPlan.endpoints_outline (doc : Document) (p : PathPlan) :
    (p.outline doc).endpoints = p.endpoints.map (p.endpoint doc) := rfl

/-! ## Owners of one kind have different slugs -/

/-- Lists without repetitions, none of whose values has the mark of another list. -/
theorem nodup_flatMap_of_mark {α β γ : Type} {f : α → List β} (mark : β → γ) (g : α → γ)
    {entries : List α} (hnodup : ∀ a ∈ entries, (f a).Nodup)
    (hmark : ∀ a ∈ entries, ∀ b ∈ f a, mark b = g a) (hentries : (entries.map g).Nodup) :
    (entries.flatMap f).Nodup := by
  rw [List.nodup_flatMap]
  refine ⟨hnodup, (List.pairwise_map.1 hentries).imp_of_mem ?_⟩
  intro a a' ha ha' hne b hb hb'
  exact hne ((hmark a ha b hb).symm.trans (hmark a' ha' b hb'))

section Keys
variable {ctx : Context} {root : String}

/-- The slugs of a site inside another under a name with a slug. -/
theorem Site.sequence_enter_of_ne {naming : Naming} {name : String} (hne : naming.slug name ≠ "")
    (root : String) (site : Site) (object : Members) :
    (site.enter name object).sequence naming root =
      site.sequence naming root ++ [naming.slug name] := by
  rw [sequence_enter]
  simp [hne]

/-- The routes of an operation are its only one, or numbered. -/
theorem Endpoint.mem_owners_cases {naming : Naming} {doc : Document} {e : Endpoint}
    {owner : Owner} (h : owner ∈ e.owners naming root doc) :
    (e.sizes doc = [] ∧ owner = e.site.routeOwner naming root) ∨
      ∃ i : ℕ, owner.holder = .route ∧
        owner.sequence = e.site.sequence naming root ++ [toString (i + 1)] := by
  unfold Endpoint.owners at h
  split at h
  · rename_i hsizes
    exact Or.inl ⟨hsizes, List.mem_singleton.1 h⟩
  · obtain ⟨i, -, rfl⟩ := List.mem_map.1 h
    exact Or.inr ⟨i, rfl, rfl⟩

/-- The routes of an operation have different numbers. -/
theorem Endpoint.nodup_keys_owners (naming : Naming) (root : String) (doc : Document)
    (e : Endpoint) : ((e.owners naming root doc).map Owner.key).Nodup := by
  unfold Endpoint.owners
  split
  · simp
  · rw [List.map_map]
    refine List.nodup_range.map ?_
    intro i j h
    have hlast := List.append_cancel_left (congrArg Prod.snd h)
    have hrepr : Nat.repr (i + 1) = Nat.repr (j + 1) := List.singleton_inj.1 hlast
    simpa using Nat.repr_inj.1 hrepr

/-- The owners of a scope and of the scopes inside it, which are told apart by their slugs. -/
theorem nodup_keys_of_children {α : Type} (sequence : List String) (front : List Group)
    {children : List α} {slug : α → String} {groups : α → List Group}
    (hfront : (front.map fun g => g.owner.key).Nodup)
    (hown : ∀ g ∈ front, g.owner.sequence = sequence)
    (hchildren : ∀ a ∈ children, ((groups a).map fun g => g.owner.key).Nodup)
    (hinside : ∀ a ∈ children, ∀ g ∈ groups a, sequence ++ [slug a] <+: g.owner.sequence)
    (hslugs : (children.map slug).Nodup) :
    ((front ++ children.flatMap groups).map fun g => g.owner.key).Nodup := by
  -- the slug of a child stands behind the slugs of the scope
  have hslug : ∀ a ∈ children, ∀ g ∈ groups a,
      g.owner.sequence[sequence.length]? = some (slug a) := by
    intro a ha g hg
    obtain ⟨rest, hrest⟩ := hinside a ha g hg
    rw [← hrest, List.append_assoc, List.getElem?_append_right le_rfl]
    simp
  rw [List.map_append, List.map_flatMap, List.nodup_append]
  refine ⟨hfront, ?_, ?_⟩
  · refine nodup_flatMap_of_mark (fun key => key.2[sequence.length]?)
      (fun a => some (slug a)) hchildren ?_ ?_
    · intro a ha key hkey
      obtain ⟨g, hg, rfl⟩ := List.mem_map.1 hkey
      exact hslug a ha g hg
    · have := hslugs.map (Option.some_injective String)
      rwa [List.map_map] at this
  · intro key hkey key' hkey' heq
    obtain ⟨g, hg, rfl⟩ := List.mem_map.1 hkey
    obtain ⟨a, ha, hmem⟩ := List.mem_flatMap.1 hkey'
    obtain ⟨g', hg', rfl⟩ := List.mem_map.1 hmem
    have hsame : g.owner.sequence = g'.owner.sequence := congrArg Prod.snd heq
    have := hslug a ha g' hg'
    rw [← hsame, hown g hg] at this
    simp at this

/-- The owners of an operation have its slugs. -/
theorem OperationPlan.prefix_of_mem_groups {e : Endpoint} {op : OperationPlan} {g : Group}
    (h : g ∈ op.groups ctx root e) :
    e.site.sequence ctx.naming root <+: g.owner.sequence := by
  rw [groups, List.mem_append] at h
  obtain h | h := h
  · obtain ⟨made, -, rfl⟩ := List.mem_map.1 h
    exact List.prefix_rfl
  · obtain ⟨owner, howner, rfl⟩ := List.mem_map.1 h
    obtain ⟨-, rfl⟩ | ⟨i, -, hseq⟩ := Endpoint.mem_owners_cases howner
    · exact List.prefix_rfl
    · exact ⟨_, hseq.symm⟩

/-- The service and the routes of an operation are different owners. -/
theorem OperationPlan.nodup_keys (e : Endpoint) (op : OperationPlan) :
    ((op.groups ctx root e).map fun g => g.owner.key).Nodup := by
  have hroutes : ((e.owners ctx.naming root ctx.doc).map (Route.group op.plugins)).map
      (fun g => g.owner.key) = (e.owners ctx.naming root ctx.doc).map Owner.key := by
    rw [List.map_map]
    rfl
  rw [groups, List.map_append, hroutes, List.nodup_append]
  refine ⟨?_, e.nodup_keys_owners ctx.naming root ctx.doc, ?_⟩
  · cases op.made <;> simp
  · intro key hkey key' hkey' heq
    rw [List.map_map] at hkey
    obtain ⟨made, -, rfl⟩ := List.mem_map.1 hkey
    obtain ⟨owner, howner, rfl⟩ := List.mem_map.1 hkey'
    have hholder : Holder.service = owner.holder := congrArg Prod.fst heq
    obtain ⟨-, rfl⟩ | ⟨i, hroute, -⟩ := Endpoint.mem_owners_cases howner
    · cases hholder
    · rw [hroute] at hholder
      cases hholder

section Paths
variable {p : PathPlan} (hne : ∀ op ∈ p.endpoints, ctx.naming.slug op.name ≠ "")
include hne

/-- The owners of the operations of a path have the slugs of the path and of their operation. -/
theorem PathPlan.prefix_of_mem_endpoint {op : OperationPlan} (hop : op ∈ p.endpoints) {g : Group}
    (hg : g ∈ op.groups ctx root (p.endpoint ctx.doc op)) :
    (p.site ctx.doc).sequence ctx.naming root ++ [ctx.naming.slug op.name] <+:
      g.owner.sequence := by
  have hprefix := OperationPlan.prefix_of_mem_groups hg
  rwa [site_endpoint, Site.sequence_enter_of_ne (hne op hop)] at hprefix

theorem PathPlan.prefix_of_mem_groups {g : Group} (h : g ∈ p.groups ctx root) :
    (p.site ctx.doc).sequence ctx.naming root <+: g.owner.sequence := by
  rw [groups, List.mem_append] at h
  obtain h | h := h
  · obtain ⟨made, -, rfl⟩ := List.mem_map.1 h
    exact List.prefix_rfl
  · obtain ⟨op, hop, hg⟩ := List.mem_flatMap.1 h
    exact (List.prefix_append _ _).trans (prefix_of_mem_endpoint hne hop hg)

/-- The owners of a path are different. -/
theorem PathPlan.nodup_keys (hslugs : (p.endpoints.map fun op => ctx.naming.slug op.name).Nodup) :
    ((p.groups ctx root).map fun g => g.owner.key).Nodup := by
  refine nodup_keys_of_children ((p.site ctx.doc).sequence ctx.naming root) _ ?_ ?_
    (fun op _ => OperationPlan.nodup_keys _ op)
    (fun op hop g hg => prefix_of_mem_endpoint hne hop hg) hslugs
  · cases p.made <;> simp
  · intro g hg
    obtain ⟨made, -, rfl⟩ := List.mem_map.1 hg
    rfl

end Paths

/-- The slugs of an outline of a plan are those of its names. -/
theorem DistinctSlugs.of_outline {doc : Document} {naming : Naming} {paths : List PathPlan}
    (h : DistinctSlugs naming (paths.map (PathPlan.outline doc))) :
    (paths.map fun p => naming.slug p.name).Nodup ∧
    (∀ p ∈ paths, naming.slug p.name ≠ "") ∧
    ∀ p ∈ paths, (p.endpoints.map fun op => naming.slug op.name).Nodup ∧
      ∀ op ∈ p.endpoints, naming.slug op.name ≠ "" := by
  refine ⟨?_, ?_, ?_⟩
  · have hpaths := h.paths
    rw [List.map_map] at hpaths
    exact hpaths
  · intro p hp
    rw [← PathPlan.slug_outline naming doc p]
    exact h.paths_ne (p.outline doc) (List.mem_map_of_mem hp)
  · intro p hp
    constructor
    · have hoperations := h.operations (p.outline doc) (List.mem_map_of_mem hp)
      rw [PathPlan.endpoints_outline, List.map_map] at hoperations
      exact hoperations
    · intro op hop
      rw [← PathPlan.slug_endpoint naming doc p op]
      exact h.operations_ne (p.outline doc) (List.mem_map_of_mem hp) (p.endpoint doc op)
        (List.mem_map_of_mem hop)

/-- The owners of a plan are different. -/
theorem Plan.nodup_keys {plan : Plan}
    (h : DistinctSlugs ctx.naming (plan.paths.map (PathPlan.outline ctx.doc))) :
    ((plan.groups ctx root).map fun g => g.owner.key).Nodup := by
  obtain ⟨hpaths, hpaths_ne, hoperations⟩ := h.of_outline
  refine nodup_keys_of_children ((Site.document ctx.doc).sequence ctx.naming root)
    [plan.made.group (owner ctx root) plan.root.plugins] (by simp) ?_
    (fun p hp => PathPlan.nodup_keys (hoperations p hp).2 (hoperations p hp).1) ?_ hpaths
  · intro g hg
    rw [List.mem_singleton.1 hg]
    rfl
  · intro p hp g hg
    have hprefix := PathPlan.prefix_of_mem_groups (hoperations p hp).2 hg
    rwa [PathPlan.site, Site.sequence_enter_of_ne (hpaths_ne p hp)] at hprefix

end Keys

/-! ## Entities of one owner are of different kinds -/

section Kinds
variable {ctx : Context} {root : String} {plan : Plan}

theorem nodup_pluginKinds {plugins : List Members} (h : Ordered plugins) :
    (pluginKinds plugins).Nodup := by
  have hnames := h.nodup_names.map fun (a b : String) (hab : Kind.plugin a = .plugin b) =>
    Kind.plugin.inj hab
  rwa [List.map_map] at hnames

theorem Made.nodup_kinds (owner : Owner) (made : Made) {plugins : List Members}
    (h : Ordered plugins) : (made.group owner plugins).kinds.Nodup := by
  have hplugins := nodup_pluginKinds h
  cases hup : made.upstream <;> simp [group, hup, hplugins] <;> simp [pluginKinds]

theorem Route.nodup_kinds (owner : Owner) {plugins : List Members} (h : Ordered plugins) :
    (Route.group plugins owner).kinds.Nodup := by
  simp [group, nodup_pluginKinds h]
  simp [pluginKinds]

/-- The groups of a plan have no kind twice. -/
theorem Plan.Planned.nodup_kinds (h : plan.Planned ctx root) :
    ∀ g ∈ plan.groups ctx root, g.kinds.Nodup := by
  intro g hg
  obtain rfl | ⟨p, hp, ⟨made, -, rfl⟩ | ⟨op, hop, ⟨made, -, rfl⟩ | ⟨owner, -, rfl⟩⟩⟩ :=
    Plan.mem_groups_iff.1 hg
  · exact Made.nodup_kinds _ _ (Cascade.Stamped.top h.top).plugins
  · exact Made.nodup_kinds _ _ (h.path_of_mem hp).2.plugins
  · exact Made.nodup_kinds _ _ (h.operation_of_mem hp hop).2.plugins
  · obtain ⟨⟨entry, planned⟩, hstamped⟩ := h.operation_of_mem hp hop
    obtain ⟨parameters, body, template, -, -, hplugins, -⟩ := operationRoutes_cases planned.routed
    exact Route.nodup_kinds _ (Cascade.operationPlugins_spec hstamped hplugins).1

/-- Two entities of a plan differ in their kind, in the slugs of their owners, or in what their
owners are. -/
theorem Plan.Planned.nodup_keys_and_kinds (h : plan.Planned ctx root)
    (hslugs : DistinctSlugs ctx.naming (plan.paths.map (PathPlan.outline ctx.doc))) :
    ((plan.entities ctx root).map fun o => (o.owner.key, o.kind)).Nodup := by
  have hgroups : (((plan.groups ctx root).flatMap Group.places).map
      fun place => (place.1.key, place.2)).Nodup := by
    rw [List.map_flatMap]
    refine nodup_flatMap_of_mark Prod.fst (fun g => g.owner.key) ?_ ?_ (nodup_keys hslugs)
    · intro g hg
      rw [Group.places, List.map_map]
      exact (h.nodup_kinds g hg).map fun a b hab => congrArg Prod.snd hab
    · intro g hg place hplace
      rw [Group.places, List.map_map] at hplace
      obtain ⟨kind, -, rfl⟩ := List.mem_map.1 hplace
      rfl
  obtain ⟨places, hperm, hsub⟩ := places_subperm h
  have hplaces := (hperm.map fun place => (place.1.key, place.2)).nodup_iff.1
    (hgroups.sublist (hsub.map _))
  rwa [List.map_map] at hplaces

/-- A kind that the service and the routes of an operation both have is that of OpenID Connect
plugins, and the operation has security requirements of its own. -/
theorem Plan.Planned.kind_of_shared (h : plan.Planned ctx root) {p : PathPlan}
    (hp : p ∈ plan.paths) {op : OperationPlan} (hop : op ∈ p.endpoints) {made : Made}
    (hmade : op.made = some made) {owner owner' : Owner} {kind : Kind}
    (hservice : kind ∈ (made.group owner op.cascade.plugins).kinds)
    (hroute : kind ∈ (Route.group op.plugins owner').kinds) :
    kind = .plugin openIdName ∧ creates ctx.doc op.object = true ∧
      ctx.options.openId = true ∧ op.object.has "security" = true := by
  obtain ⟨⟨entry, planned⟩, hstamped⟩ := h.operation_of_mem hp hop
  -- an operation that makes a service leaves no plugins waiting
  have hpending : creates ctx.doc op.object = true ∧ op.cascade.pending = [] := by
    obtain ⟨own, hown, -, ⟨hmakes, hnil, -⟩ | ⟨-, hnone, -⟩⟩ := planned.inside.own
    · exact ⟨makesService_eq_creates hown ▸ hmakes, hnil⟩
    · rw [hmade] at hnone
      cases hnone
  obtain ⟨parameters, body, template, -, -, hplugins, -⟩ := operationRoutes_cases planned.routed
  obtain ⟨-, hcases⟩ := Cascade.operationPlugins_spec hstamped hplugins
  obtain ⟨q, hq, rfl⟩ : ∃ q ∈ op.plugins, kind = .plugin (Plugin.name q) := by
    simp only [Route.group, pluginKinds, List.mem_cons, List.mem_map] at hroute
    obtain rfl | ⟨q, hq, rfl⟩ := hroute
    · simp [Made.group, pluginKinds] at hservice
    · exact ⟨q, hq, rfl⟩
  obtain ⟨r, hr, hname⟩ : ∃ r ∈ op.cascade.plugins, Plugin.name r = Plugin.name q := by
    simpa [Made.group, pluginKinds] using hservice
  obtain hwaits | ⟨hopenId, hasked⟩ | hvalidator := hcases q hq
  · rw [hpending.2] at hwaits
    cases hwaits
  · exact ⟨by rw [hopenId], hpending.1, hasked⟩
  · exact absurd (hname.trans hvalidator) (hstamped.noValidator r hr)

/-! ## A service and a route of the same slugs -/

section Slugs
variable (hslugs : DistinctSlugs ctx.naming (plan.paths.map (PathPlan.outline ctx.doc)))
include hslugs

/-- The slugs of an operation are those of the document, of its path and its own. -/
theorem DistinctSlugs.sequence_endpoint (root : String) {p : PathPlan} (hp : p ∈ plan.paths)
    {op : OperationPlan} (hop : op ∈ p.endpoints) :
    (p.endpoint ctx.doc op).site.sequence ctx.naming root =
      (Site.document ctx.doc).sequence ctx.naming root ++
        [ctx.naming.slug p.name, ctx.naming.slug op.name] := by
  obtain ⟨-, hpaths, hoperations⟩ := hslugs.of_outline
  rw [PathPlan.site_endpoint, Site.sequence_enter_of_ne ((hoperations p hp).2 op hop),
    PathPlan.site, Site.sequence_enter_of_ne (hpaths p hp), List.append_assoc]
  rfl

/-- Operations of the same slugs are one operation. -/
theorem DistinctSlugs.eq_of_sequence_eq {p p' : PathPlan} (hp : p ∈ plan.paths)
    (hp' : p' ∈ plan.paths) {op op' : OperationPlan} (hop : op ∈ p.endpoints)
    (hop' : op' ∈ p'.endpoints)
    (h : (p.endpoint ctx.doc op).site.sequence ctx.naming root =
      (p'.endpoint ctx.doc op').site.sequence ctx.naming root) : p = p' ∧ op = op' := by
  obtain ⟨hpaths, -, hoperations⟩ := hslugs.of_outline
  rw [hslugs.sequence_endpoint root hp hop, hslugs.sequence_endpoint root hp' hop',
    List.append_cancel_left_eq] at h
  obtain ⟨hpath, htail⟩ := List.cons.inj h
  obtain rfl := List.inj_on_of_nodup_map hpaths hp hp' hpath
  exact ⟨rfl, List.inj_on_of_nodup_map (hoperations p hp).1 hop hop' (List.cons.inj htail).1⟩

/-- A service and a route of the same slugs that both have an entity of some kind are those of an
operation with a single route, and the kind is that of OpenID Connect plugins. -/
theorem Plan.Planned.operation_of_same (h : plan.Planned ctx root) {o o' : Owned}
    (ho : o ∈ plan.entities ctx root) (ho' : o' ∈ plan.entities ctx root)
    (hservice : o.owner.holder = .service) (hroute : o'.owner.holder = .route)
    (hsequence : o.owner.sequence = o'.owner.sequence) (hkind : o.kind = o'.kind) :
    ∃ p ∈ plan.paths, ∃ op ∈ p.endpoints,
      o.owner = (p.endpoint ctx.doc op).site.owner ctx.naming root ∧
      o'.owner = (p.endpoint ctx.doc op).site.routeOwner ctx.naming root ∧
      o.kind = .plugin openIdName ∧ creates ctx.doc op.object = true ∧
      (p.endpoint ctx.doc op).sizes ctx.doc = [] ∧ ctx.options.openId = true ∧
      op.object.has "security" = true := by
  obtain ⟨g, hg, howner, hmem⟩ := exists_group_of_mem h ho
  obtain ⟨g', hg', howner', hmem'⟩ := exists_group_of_mem h ho'
  obtain ⟨-, hpaths_ne, -⟩ := hslugs.of_outline
  -- the second owner is a route of some operation
  obtain ⟨p, hp, op, hop, owner, hroutes, rfl⟩ : ∃ p ∈ plan.paths, ∃ op ∈ p.endpoints,
      ∃ owner ∈ (p.endpoint ctx.doc op).owners ctx.naming root ctx.doc,
        g' = Route.group op.plugins owner := by
    rw [howner'] at hroute
    obtain rfl | ⟨p, hp, ⟨made, -, rfl⟩ | ⟨op, hop, ⟨made, -, rfl⟩ | hlast⟩⟩ :=
      mem_groups_iff.1 hg'
    · cases hroute
    · cases hroute
    · cases hroute
    · exact ⟨p, hp, op, hop, hlast⟩
  have hsplit := hslugs.sequence_endpoint root hp hop
  have hlong : ((Site.document ctx.doc).sequence ctx.naming root).length + 2 ≤
      o.owner.sequence.length := by
    rw [hsequence, howner']
    obtain ⟨-, rfl⟩ | ⟨i, -, hseq⟩ := Endpoint.mem_owners_cases hroutes
    · simp [Route.group, Site.routeOwner, hsplit]
    · simp [Route.group, hseq, hsplit]
  -- so the first one is the service of an operation
  obtain ⟨p', hp', op', hop', made, hmade, rfl⟩ : ∃ p' ∈ plan.paths, ∃ op' ∈ p'.endpoints,
      ∃ made, op'.made = some made ∧ g = made.group
        ((p'.endpoint ctx.doc op').site.owner ctx.naming root) op'.cascade.plugins := by
    rw [howner] at hservice hlong
    obtain rfl | ⟨p', hp', ⟨made, -, rfl⟩ | ⟨op', hop', hmade | ⟨owner', howners, rfl⟩⟩⟩ :=
      mem_groups_iff.1 hg
    · simp [Made.group, Plan.owner, Site.owner] at hlong
    · simp [Made.group, Site.owner, PathPlan.site,
        Site.sequence_enter_of_ne (hpaths_ne p' hp')] at hlong
    · exact ⟨p', hp', op', hop', hmade⟩
    · obtain ⟨-, rfl⟩ | ⟨i, hholder, -⟩ := Endpoint.mem_owners_cases howners
      · cases hservice
      · rw [Route.group, hholder] at hservice
        cases hservice
  have hsplit' := hslugs.sequence_endpoint root hp' hop'
  rw [howner, howner'] at hsequence
  obtain ⟨hsizes, rfl⟩ | ⟨i, -, hseq⟩ := Endpoint.mem_owners_cases hroutes
  · obtain ⟨rfl, rfl⟩ := hslugs.eq_of_sequence_eq hp' hp hop' hop hsequence
    obtain ⟨hopenId, hcreates, hasked⟩ := h.kind_of_shared hp hop hmade hmem (hkind ▸ hmem')
    exact ⟨p', hp, op', hop, howner, howner', hopenId, hcreates, hsizes, hasked⟩
  · have hlength := congrArg List.length hsequence
    simp [Made.group, Route.group, Site.owner, hseq, hsplit, hsplit'] at hlength

/-- The operations that are doubled make a service, have a single route and security requirements
of their own. -/
theorem Plan.Planned.of_doubled (h : plan.Planned ctx root) {p : PathPlan} (hp : p ∈ plan.paths)
    {op : OperationPlan} (hop : op ∈ p.endpoints)
    (hdoubled : (p.endpoint ctx.doc op).Doubled ctx.naming root (plan.entities ctx root)) :
    creates ctx.doc op.object = true ∧ (p.endpoint ctx.doc op).sizes ctx.doc = [] ∧
      ctx.options.openId = true ∧ op.object.has "security" = true := by
  obtain ⟨o, ho, o', ho', howner, howner', hkind, hkind'⟩ := hdoubled
  obtain ⟨p', hp', op', hop', hsame, -, -, hcases⟩ := h.operation_of_same hslugs ho ho'
    (by rw [howner]; rfl) (by rw [howner']; rfl) (by rw [howner, howner']; rfl)
    (hkind.trans hkind'.symm)
  have hsequence := congrArg Owner.sequence (howner.symm.trans hsame)
  obtain ⟨rfl, rfl⟩ := hslugs.eq_of_sequence_eq hp hp' hop hop' hsequence
  exact hcases

/-- Entities of a plan have different texts exactly when no operation is doubled. -/
theorem Plan.Planned.nodup_texts_iff (h : plan.Planned ctx root)
    (hsound : ∀ o ∈ plan.entities ctx root, o.Sound ctx) :
    ((plan.entities ctx root).map Owned.text).Nodup ↔ ∀ p ∈ plan.paths, ∀ op ∈ p.endpoints,
      ¬ (p.endpoint ctx.doc op).Doubled ctx.naming root (plan.entities ctx root) := by
  constructor
  · rintro hnodup p hp op hop ⟨o, ho, o', ho', howner, howner', hkind, hkind'⟩
    have htext : o.text = o'.text := by
      rw [Owned.text, Owned.text, howner, howner', hkind, hkind']
      rfl
    obtain rfl := List.inj_on_of_nodup_map hnodup ho ho' htext
    cases congrArg Owner.holder (howner.symm.trans howner')
  · intro hdoubled
    refine List.pairwise_map.2
      ((List.pairwise_map.1 (h.nodup_keys_and_kinds hslugs)).imp_of_mem ?_)
    intro o o' ho ho' hne htext
    obtain ⟨hkind, hsequence⟩ :=
      kind_and_sequence_of_text_eq (hsound o ho).2 (hsound o' ho').2 htext
    -- owners of one kind with the same slugs are one owner
    cases hholder : o.owner.holder <;> cases hholder' : o'.owner.holder
    · exact hne (by simp [Owner.key, hholder, hholder', hsequence, hkind])
    · obtain ⟨p, hp, op, hop, hown, hown', hopenId, -⟩ :=
        h.operation_of_same hslugs ho ho' hholder hholder' hsequence hkind
      exact hdoubled p hp op hop
        ⟨o, ho, o', ho', hown, hown', hopenId, hkind.symm.trans hopenId⟩
    · obtain ⟨p, hp, op, hop, hown, hown', hopenId, -⟩ :=
        h.operation_of_same hslugs ho' ho hholder' hholder hsequence.symm hkind.symm
      exact hdoubled p hp op hop
        ⟨o', ho', o, ho, hown, hown', hopenId, hkind.trans hopenId⟩
    · exact hne (by simp [Owner.key, hholder, hholder', hsequence, hkind])

end Slugs

end Kinds

/-- Identifiers are unique but for one case. In an output with identifiers and nested names whose
slugs tell paths and operations apart, and when different texts of the run have different
identifiers, no two entities share one exactly when no operation has an OpenID Connect plugin
both at its service and at its route. Such an operation makes a service, has a single route, and
has security requirements of its own, from which plugins are derived. -/
theorem nodup_ids_iff {fresh : Uuid} {options : Options} {doc : Document} {c : Configuration}
    {outline : List PathOutline} (hnested : options.flatNames = false)
    (hids : options.skipId = false) (h : compile fresh options doc = .ok c)
    (houtline : doc.outline = .ok outline) (hslugs : DistinctSlugs options.naming outline) :
    ∃ ctx root plan, Context.ofRun fresh options doc = .ok (ctx, root) ∧
      Plan.of ctx root = .ok plan ∧
      c.entities.Perm ((plan.entities ctx root).map Owned.item) ∧
      (Set.InjOn (options.nameId options.space) {t | ∃ o ∈ plan.entities ctx root, t = o.text} →
        ((c.entities.map fun e => e.2.string? "id").Nodup ↔
          ∀ p ∈ outline, ∀ e ∈ p.endpoints,
            ¬ e.Doubled options.naming root (plan.entities ctx root))) ∧
      ∀ p ∈ outline, ∀ e ∈ p.endpoints,
        e.Doubled options.naming root (plan.entities ctx root) →
          creates doc e.operation = true ∧ e.sizes doc = [] ∧ options.openId = true ∧
            e.operation.has "security" = true := by
  obtain ⟨ctx, root, plan, hrun, hplan, rfl⟩ := exists_plan_of_compile h
  obtain ⟨hdoc, hoptions, ⟨tags, hstamp⟩, hbase⟩ := Context.ofRun_cases hrun
  obtain ⟨text, hroot⟩ := Document.exists_slug_of_baseName hbase
  have planned := Plan.planned_of_of hplan
  have hnaming : ctx.naming = options.naming := by rw [Context.naming, hoptions]
  have hsound := planned.sound (by simp [hstamp, Options.stamp, hids])
    (by simp [hnaming, Options.naming, hnested]) (hnaming ▸ hroot)
  obtain rfl : plan.paths.map (PathPlan.outline ctx.doc) = outline := by
    rw [← hdoc, outline_eq_of_planned planned] at houtline
    exact Except.ok.inj houtline
  rw [← hnaming] at hslugs ⊢
  have hperm := Plan.entities_perm planned
  have hid : ((plan.entities ctx root).map Owned.item).map (fun e => e.2.string? "id") =
      ((plan.entities ctx root).map Owned.text).map
        fun t => some (options.nameId options.space t).text := by
    rw [List.map_map, List.map_map]
    refine List.map_congr_left ?_
    intro o ho
    have hidentified := (hsound o ho).1
    simp only [hstamp, Options.stamp, Owned.Identified] at hidentified
    simp [Owned.item, Members.string?, hidentified]
  have hnodup := planned.nodup_texts_iff hslugs hsound
  refine ⟨ctx, root, plan, hrun, hplan, hperm, ?_, ?_⟩
  · intro hinj
    rw [(hperm.map _).nodup_iff, hid]
    constructor
    · intro hdistinct p hp e he
      obtain ⟨p, hmem, rfl⟩ := List.mem_map.1 hp
      obtain ⟨op, hop, rfl⟩ := List.mem_map.1 he
      exact hnodup.1 hdistinct.of_map p hmem op hop
    · intro hdoubled
      refine (hnodup.2 ?_).map_on ?_
      · intro p hp op hop
        exact hdoubled (p.outline ctx.doc) (List.mem_map_of_mem hp) (p.endpoint ctx.doc op)
          (List.mem_map_of_mem hop)
      · intro t ht t' ht' heq
        obtain ⟨o, ho, rfl⟩ := List.mem_map.1 ht
        obtain ⟨o', ho', rfl⟩ := List.mem_map.1 ht'
        exact hinj ⟨o, ho, rfl⟩ ⟨o', ho', rfl⟩ (Uuid.text_injective (Option.some.inj heq))
  · intro p hp e he hdoubled
    obtain ⟨p, hmem, rfl⟩ := List.mem_map.1 hp
    obtain ⟨op, hop, rfl⟩ := List.mem_map.1 he
    rw [← hdoc, ← hoptions]
    exact planned.of_doubled hslugs hmem hop hdoubled

/-- Without OpenID Connect plugins the small document has unique identifiers. -/
theorem nodup_ids_iff_greetings :
    ∃ c, compile Uuid.dns {} greetingDocument = .ok c ∧
      (c.entities.map fun e => e.2.string? "id").Nodup := by
  obtain ⟨c, hc⟩ : ∃ c, (compile Uuid.dns {} greetingDocument).toOption = some c :=
    Option.isSome_iff_exists.1 (by decide +kernel)
  have houtline : (greetingDocument.outline.toOption.map fun outline =>
      decide (DistinctSlugs (Options.naming {}) outline)) = some true := by
    decide +kernel
  obtain ⟨outline, houtline, hslugs⟩ := Option.map_eq_some_iff.1 houtline
  rw [toOption_eq_some_iff] at hc houtline
  obtain ⟨ctx, root, plan, hrun, hplan, -, hiff, hdoubled⟩ :=
    nodup_ids_iff rfl rfl hc houtline (of_decide_eq_true hslugs)
  have htexts : (identifierTexts Uuid.dns {} greetingDocument).toOption =
      some ["greetings.service", "greetings_hello_get_1.route", "greetings_hello_get_2.route"] := by
    decide +kernel
  refine ⟨c, hc, (hiff (injOn_of_identifierTexts hrun hplan htexts (by decide +kernel))).2 ?_⟩
  intro p hp e he h
  cases (hdoubled p hp e he h).2.2.1

/-- A document whose one operation has a service and security requirements of its own. -/
def shopDocument : Document :=
  ⟨[("components", .obj [("securitySchemes", .obj
      [("staff", .obj [("openIdConnectUrl", .str "https://staff.example.com"),
        ("type", .str openIdType)]),
       ("users", .obj [("openIdConnectUrl", .str "https://users.example.com"),
        ("type", .str openIdType)])])]),
    ("info", .obj [("title", .str "Shop")]),
    ("openapi", .str "3.0.0"),
    ("paths", .obj [("/orders", .obj [("get", .obj
      [("security", .arr [.obj [("staff", .arr [])]]), ("x-kong-service-defaults", .obj [])])])]),
    ("security", .arr [.obj [("users", .arr [])]])], "3.0.0"⟩

/-- The operation of the shop is doubled: its slugs tell it apart and different texts have
different identifiers, but a plugin of its service and one of its route share theirs. -/
theorem not_nodup_ids_shop :
    ∃ c outline ctx root plan,
      compile Uuid.dns { openId := true } shopDocument = .ok c ∧
      shopDocument.outline = .ok outline ∧ DistinctSlugs (Options.naming {}) outline ∧
      Context.ofRun Uuid.dns { openId := true } shopDocument = .ok (ctx, root) ∧
      Plan.of ctx root = .ok plan ∧
      Set.InjOn (Uuid.named Uuid.dns) {t | ∃ o ∈ plan.entities ctx root, t = o.text} ∧
      ¬ (c.entities.map fun e => e.2.string? "id").Nodup := by
  have hids : ((compile Uuid.dns { openId := true } shopDocument).toOption.map fun c =>
      decide (c.entities.map fun e => e.2.string? "id").Nodup) = some false := by
    decide +kernel
  have houtline : (shopDocument.outline.toOption.map fun outline =>
      decide (DistinctSlugs (Options.naming {}) outline)) = some true := by
    decide +kernel
  obtain ⟨c, hc, hids⟩ := Option.map_eq_some_iff.1 hids
  obtain ⟨outline, houtline, hslugs⟩ := Option.map_eq_some_iff.1 houtline
  rw [toOption_eq_some_iff] at hc houtline
  obtain ⟨ctx, root, plan, hrun, hplan, -⟩ := exists_plan_of_compile hc
  have htexts : (identifierTexts Uuid.dns { openId := true } shopDocument).toOption =
      some ["shop_orders_get.service", "shop_orders_get.plugin.openid-connect",
        "shop_orders_get.route", "shop_orders_get.plugin.openid-connect"] := by
    decide +kernel
  exact ⟨c, outline, ctx, root, plan, hc, houtline, of_decide_eq_true hslugs, hrun, hplan,
    injOn_of_identifierTexts hrun hplan htexts (by decide +kernel), of_decide_eq_false hids⟩

end ApiGateway
