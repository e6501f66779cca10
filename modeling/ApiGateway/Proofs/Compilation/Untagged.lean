import ApiGateway.Proofs.Compilation.Layout
import ApiGateway.Proofs.Compilation.References
import ApiGateway.Proofs.Naming.GivenName

/-!
# Configurations without their tags

Tags are written on entities and read nowhere. Plans that agree but for tags are laid out alike:
services, routes and plugins come in the same order, refer to the same owners, and the same service
is dropped. So two runs on one document with different tags fail alike or give configurations that
agree but for tags.

## Main definitions

* `Service.untag`, `Route.untag`, `Upstream.untag`, `Configuration.untag`: what is left of an entity
  and of a configuration without the tags on every level.

## Main results

* `View.configuration_congr`: plans that agree but for tags are laid out alike.
* `compile_retag`: two runs with different tags.
-/
namespace ApiGateway

/-! ## What is left without tags -/

/-- An object without its tags, and with the values of other keys replaced. -/
def Members.untagWith (nested : String → Json → Json) (members : Members) : Members :=
  (members.mapValues nested).erase "tags"

/-- A plugin without its tags. -/
def Plugin.untag (plugin : Members) : Members := plugin.erase "tags"

/-- A route without its tags and those of its plugins. -/
def Route.untag (route : Members) : Members :=
  route.untagWith fun key value => if key = "plugins" then value.mapObjects Plugin.untag else value

/-- A value under a key of a service, where plugins and routes are without their tags. -/
def Service.untagNested (key : String) (value : Json) : Json :=
  if key = "plugins" then value.mapObjects Plugin.untag
  else if key = "routes" then value.mapObjects Route.untag
  else value

/-- A service without its tags and those of its plugins and routes. -/
def Service.untag (service : Members) : Members := service.untagWith Service.untagNested

/-- An upstream without its tags and those of its targets. -/
def Upstream.untag (upstream : Members) : Members := upstream.untagWith untagTargets

/-- A configuration without the tags of its services, upstreams and plugins on every level. -/
def Configuration.untag (c : Configuration) : Configuration :=
  { c with
    services := c.services.map Service.untag
    upstreams := c.upstreams.map Upstream.untag
    plugins := c.plugins.map Plugin.untag }

/-! ## Laying out -/

theorem Stamp.foreignKey_congr (stamp : Stamp) (tags : List String) {owner owner' : Members}
    (h : owner.hide ["tags"] = owner'.hide ["tags"]) :
    stamp.foreignKey owner = (stamp.retag tags).foreignKey owner' := by
  have hkey : stamp.keyField ∉ ["tags"] := by
    unfold keyField
    split <;> simp
  rw [foreignKey, Members.get?_eq_of_hide hkey h]
  rfl

section Layout
variable (ctx : Context) (given : Option (List String)) (tags : List String)
variable {plugins plugins' : List Members}

/-- The plugins that leave a route agree. -/
theorem Route.moved_congr (base : String) {route route' : Members}
    (hroute : route.hide ["tags"] = route'.hide ["tags"])
    (h : plugins.map (Members.hide ["tags"]) = plugins'.map (Members.hide ["tags"])) :
    (moved ctx base plugins route).map (Members.hide ["tags"]) =
      (moved (ctx.retag given tags) base plugins' route').map (Members.hide ["tags"]) := by
  have hstamp : Mark.tags.Alike ctx.stamp (ctx.stamp.retag tags) := ⟨tags, rfl⟩
  rw [moved, moved, Context.stamp_retag, ← ctx.stamp.foreignKey_congr tags hroute]
  exact Plugin.bubble_fst_congr .tags "route" _
    (own_congr ctx given ctx.options.skipId hstamp base hroute h)

/-- The plugins that leave a service agree. -/
theorem Made.moved_congr {made made' : Made}
    (hmade : View.tagless.made made = View.tagless.made made')
    (hplugins : plugins.map (Members.hide ["tags"]) = plugins'.map (Members.hide ["tags"])) :
    (made.moved ctx plugins).map (Members.hide ["tags"]) =
      (made'.moved (ctx.retag given tags) plugins').map (Members.hide ["tags"]) := by
  have hservice : made.service.hide ["tags"] = made'.service.hide ["tags"] :=
    congrArg Made.service hmade
  rw [moved, moved, Context.stamp_retag, ← ctx.stamp.foreignKey_congr tags hservice]
  exact Plugin.bubble_fst_congr .tags "service" _ hplugins

/-- The plugins that leave a service that may not be made agree. -/
theorem Made.map_moved_congr {made made' : Option Made}
    (hmade : made.map View.tagless.made = made'.map View.tagless.made)
    (hplugins : plugins.map (Members.hide ["tags"]) = plugins'.map (Members.hide ["tags"])) :
    ((made.map (moved ctx plugins)).getD []).map (Members.hide ["tags"]) =
      ((made'.map (moved (ctx.retag given tags) plugins')).getD []).map
        (Members.hide ["tags"]) := by
  obtain ⟨rfl, rfl⟩ | ⟨m, m', rfl, rfl, heq⟩ := cases_of_map_eq hmade
  · rfl
  · exact moved_congr ctx given tags heq hplugins

/-- The plugins that an operation gives to the top level agree. -/
theorem OperationPlan.shared_congr {op op' : OperationPlan}
    (h : View.tagless.operation op = View.tagless.operation op') :
    (op.shared ctx).map (Members.hide ["tags"]) =
      (op'.shared (ctx.retag given tags)).map (Members.hide ["tags"]) := by
  obtain ⟨hbase, hcarried, hmade, hplugins, hroutes⟩ := View.operation_without h
  rw [shared, shared, List.map_append, List.map_append, List.map_flatMap, List.map_flatMap, hbase,
    flatMap_congr_of_map_eq hroutes
      fun r r' hr => Route.moved_congr ctx given tags op'.cascade.base hr hplugins]
  congr 1
  exact Made.map_moved_congr ctx given tags hmade hcarried

/-- The plugins that a path and its operations give to the top level agree. -/
theorem PathPlan.shared_congr {p p' : PathPlan} (h : View.tagless.path p = View.tagless.path p') :
    (p.shared ctx).map (Members.hide ["tags"]) =
      (p'.shared (ctx.retag given tags)).map (Members.hide ["tags"]) := by
  obtain ⟨hplugins, hmade, hoperations⟩ := View.path_without h
  rw [shared, shared, List.map_append, List.map_append, List.map_flatMap, List.map_flatMap,
    flatMap_congr_of_map_eq hoperations fun op op' => OperationPlan.shared_congr ctx given tags]
  congr 1
  exact Made.map_moved_congr ctx given tags hmade hplugins

/-- All plugins of the top level agree. -/
theorem Plan.shared_congr {plan plan' : Plan}
    (h : View.tagless.plan plan = View.tagless.plan plan') :
    (plan.shared ctx).map (Members.hide ["tags"]) =
      (plan'.shared (ctx.retag given tags)).map (Members.hide ["tags"]) := by
  have hplugins : plan.root.plugins.map (Members.hide ["tags"]) =
      plan'.root.plugins.map (Members.hide ["tags"]) := congrArg (·.root.plugins) h
  rw [shared, shared, List.map_append, List.map_append, List.map_flatMap, List.map_flatMap,
    flatMap_congr_of_map_eq (congrArg Plan.paths h)
      fun p p' => PathPlan.shared_congr ctx given tags]
  congr 1
  exact Made.moved_congr ctx given tags (congrArg Plan.made h) hplugins

end Layout

/-! ## Finishing -/

/-- Services that agree but for tags are referred to alike. -/
theorem Slot.foreignKey_congr (stamp : Stamp) (tags : List String) {slot slot' : Slot}
    (h : slot.strip .tags = slot'.strip .tags) :
    stamp.foreignKey slot.service = (stamp.retag tags).foreignKey slot'.service := by
  have hkey : stamp.keyField ∉ ["tags"] ∧ Service.stripNested .tags stamp.keyField = id := by
    unfold Stamp.keyField
    split <;> exact ⟨by simp, funext fun value => by simp [Service.stripNested]⟩
  have hget := Members.get?_eq_of_hide hkey.1 (congrArg Slot.service h)
  rw [Members.get?_mapValues, Members.get?_mapValues, hkey.2, Option.map_id, id, id] at hget
  rw [Stamp.foreignKey, hget]
  rfl

/-- Plugins of one owner are told apart alike. -/
theorem filter_shared_congr (owner : Json) {shared shared' : List Members}
    (h : shared.map (Members.hide ["tags"]) = shared'.map (Members.hide ["tags"])) :
    (shared.filter fun plugin => !((plugin.get? "service").map owner.sameValue).getD false).map
        (Members.hide ["tags"]) =
      (shared'.filter fun plugin => !((plugin.get? "service").map owner.sameValue).getD false).map
        (Members.hide ["tags"]) :=
  filter_congr_of_map_eq h fun p p' hp => by rw [Members.get?_eq_of_hide (by simp) hp]

/-- The plugins of the service of the document go with it alike. -/
theorem Build.shared_dropUnused_congr (stamp : Stamp) (tags : List String) (hasServers : Bool)
    (build build' : Build)
    (hslots : build.slots.map (Slot.strip .tags) = build'.slots.map (Slot.strip .tags))
    (hshared : build.shared.map (Members.hide ["tags"]) =
      build'.shared.map (Members.hide ["tags"])) :
    (build.dropUnused stamp hasServers).shared.map (Members.hide ["tags"]) =
      (build'.dropUnused (stamp.retag tags) hasServers).shared.map (Members.hide ["tags"]) := by
  obtain ⟨slots, shared⟩ := build
  obtain ⟨slots', shared'⟩ := build'
  cases slots with
  | nil =>
    obtain rfl : slots' = [] := by simpa using hslots.symm
    exact hshared
  | cons first rest =>
    obtain ⟨first', rest', rfl, hfirst, hrest⟩ := List.map_eq_cons_iff.1 hslots.symm
    cases rest with
    | nil =>
      obtain rfl : rest' = [] := by simpa using hrest
      exact hshared
    | cons second rest =>
      obtain ⟨second', rest', rfl, -, -⟩ := List.map_eq_cons_iff.1 hrest
      have hempty := Slot.isEmpty_routes_congr hfirst.symm
      have howner := Slot.foreignKey_congr stamp tags hfirst.symm
      simp only [dropUnused, hempty, ← howner]
      split
      · exact filter_shared_congr _ hshared
      · exact hshared

namespace Plugin

theorem sortKey_untag (plugin : Members) : sortKey (untag plugin) = sortKey plugin := by
  simp [sortKey, sortText, untag, Members.get?_erase]

/-- Plugins of the top level that agree but for tags are sorted alike. -/
theorem untag_sortShared_congr {shared shared' : List Members}
    (h : shared.map (Members.hide ["tags"]) = shared'.map (Members.hide ["tags"])) :
    (sortShared shared).map untag = (sortShared shared').map untag := by
  have hsort : ∀ ps, (sortShared ps).map untag = sortShared (ps.map untag) := by
    intro ps
    refine List.map_mergeSort fun a _ b _ => ?_
    rw [sortKey_untag, sortKey_untag]
  rw [hsort, hsort]
  exact congrArg sortShared (map_congr_of_map_eq h fun p p' => strip_congr .tags)

end Plugin

/-- Plans that agree but for tags are laid out alike. -/
theorem View.configuration_congr (ctx : Context) (given : Option (List String)) (tags : List String)
    {plan plan' : Plan} (h : View.tagless.plan plan = View.tagless.plan plan') :
    (plan.configuration ctx).untag = (plan'.configuration (ctx.retag given tags)).untag := by
  have hstamp : Mark.tags.Alike ctx.stamp (ctx.stamp.retag tags) := ⟨tags, rfl⟩
  obtain ⟨hservices, hupstreams⟩ :=
    strip_configuration_congr ctx given ctx.options.skipId hstamp h
  have hshared := Build.shared_dropUnused_congr ctx.stamp tags (!ctx.doc.servers.isEmpty)
    ⟨plan.slots ctx, plan.shared ctx⟩
    ⟨plan'.slots (ctx.retag given tags), plan'.shared (ctx.retag given tags)⟩
    (Plan.strip_slots_congr ctx given ctx.options.skipId hstamp h)
    (Plan.shared_congr ctx given tags h)
  have huntagged : ∀ c : Configuration, c.untag =
      ⟨c.formatVersion, c.services.map (Service.strip .tags),
        c.upstreams.map (Upstream.strip .tags), c.plugins.map Plugin.untag⟩ := fun _ => rfl
  rw [huntagged, huntagged, hservices, hupstreams]
  exact congrArg (Configuration.mk _ _ _) (Plugin.untag_sortShared_congr hshared)

/-! ## Two runs -/

/-- The walk of two runs with different marks, and maybe different base names, succeeds alike. -/
theorem map_walk_vary (ctx : Context) (given : Option (List String)) (skipId : Bool) (stamp : Stamp)
    (base base' : String) :
    (((Plan.of ctx base).map (Plan.configuration ctx)).map fun _ => ()) =
      ((Plan.of (ctx.vary given skipId stamp) base').map
        (Plan.configuration (ctx.vary given skipId stamp))).map fun _ => () := by
  have hstamp : View.nameless.Alike ctx.stamp stamp := trivial
  have hplan : (Plan.of ctx base).map View.nameless.plan =
      (Plan.of (ctx.vary given skipId stamp) base').map View.nameless.plan :=
    View.map_plan_vary hstamp rfl
  cases hp : Plan.of ctx base with
  | error e =>
    cases hp' : Plan.of (ctx.vary given skipId stamp) base' with
    | error e' => simpa [hp, hp'] using hplan
    | ok plan' => simp [hp, hp'] at hplan
  | ok plan =>
    cases hp' : Plan.of (ctx.vary given skipId stamp) base' with
    | error e' => simp [hp, hp'] at hplan
    | ok plan' => simp only [map_ok]

/-- The walk of two runs with different tags, and maybe different base names, succeeds alike. -/
theorem map_walk_retag (ctx : Context) (given : Option (List String)) (tags : List String)
    (base base' : String) :
    (((Plan.of ctx base).map (Plan.configuration ctx)).map fun _ => ()) =
      ((Plan.of (ctx.retag given tags) base').map
        (Plan.configuration (ctx.retag given tags))).map fun _ => () :=
  map_walk_vary ctx given ctx.options.skipId (ctx.stamp.retag tags) base base'

/-- Whether a document compiles does not depend on the fresh identifier, nor does its error. -/
theorem map_compile_fresh (fresh fresh' : Uuid) (options : Options) (doc : Document) :
    ((compile fresh options doc).map fun _ => ()) =
      (compile fresh' options doc).map fun _ => () := by
  rw [compile_eq, compile_eq, Context.ofRun, Context.ofRun]
  simp only [bind_assoc]
  refine map_bind_congr_right _ fun _ => map_bind_congr_right _ fun tags => ?_
  refine map_bind_congr (doc.map_baseName options fresh fresh') fun base base' _ => ?_
  exact map_walk_retag ⟨doc, options, options.stamp tags⟩ options.tags tags base base'

/-- Runs that name the document alike are the same. -/
theorem Document.NamedAlike.compile_eq {fresh fresh' : Uuid} {options : Options} {doc : Document}
    (h : doc.NamedAlike options fresh fresh') :
    compile fresh options doc = compile fresh' options doc := by
  rw [ApiGateway.compile_eq, ApiGateway.compile_eq, Context.ofRun, Context.ofRun, h.baseName_eq]

/-- A run that succeeds does so with any fresh identifier, with the same configuration when the
document is named alike. -/
theorem exists_compile_fresh {fresh : Uuid} {options : Options} {doc : Document}
    {c : Configuration} (h : compile fresh options doc = .ok c) (fresh' : Uuid) :
    ∃ c', compile fresh' options doc = .ok c' ∧
      (doc.NamedAlike options fresh fresh' → c' = c) := by
  have houtcome := map_compile_fresh fresh fresh' options doc
  rw [h, map_ok] at houtcome
  obtain ⟨c', hc', -⟩ := map_eq_ok_iff.1 houtcome.symm
  refine ⟨c', hc', fun hnamed => ?_⟩
  rw [← hnamed.compile_eq, h] at hc'
  exact (Except.ok.inj hc').symm

/-- A run that fails does so with any fresh identifier. -/
theorem compile_fresh_eq_error {fresh : Uuid} {options : Options} {doc : Document} {e : Error}
    (h : compile fresh options doc = .error e) (fresh' : Uuid) :
    compile fresh' options doc = .error e := by
  have houtcome := map_compile_fresh fresh fresh' options doc
  rw [h, map_error] at houtcome
  cases hc' : compile fresh' options doc with
  | error e' =>
    rw [hc', map_error] at houtcome
    rw [Except.error.inj houtcome]
  | ok c' =>
    rw [hc', map_ok] at houtcome
    cases houtcome

/-- Two runs of one document with different tags. Tags that both options give have no influence on
whether a run succeeds, nor on its error. When both runs succeed, with the same base name if the
document has no name, their configurations are the same without the tags of services, routes,
upstreams, targets and plugins. -/
theorem compile_retag (fresh fresh' : Uuid) (options : Options) (doc : Document)
    (tags tags' : Option (List String)) :
    (tags.isSome → tags'.isSome →
      ((compile fresh { options with tags := tags } doc).map fun _ => ()) =
        (compile fresh' { options with tags := tags' } doc).map fun _ => ()) ∧
    ((doc.givenName? options = none →
        doc.baseName options fresh = doc.baseName options fresh') →
      ∀ c c', compile fresh { options with tags := tags } doc = .ok c →
        compile fresh' { options with tags := tags' } doc = .ok c' → c.untag = c'.untag) := by
  constructor
  · intro htags htags'
    obtain ⟨given, rfl⟩ := Option.isSome_iff_exists.1 htags
    obtain ⟨given', rfl⟩ := Option.isSome_iff_exists.1 htags'
    rw [compile_eq, compile_eq, Context.ofRun, Context.ofRun]
    simp only [Document.runTags, ok_bind, bind_assoc]
    refine map_bind_congr_right _ fun _ => ?_
    refine map_bind_congr (doc.map_baseName options fresh fresh') fun base base' _ => ?_
    exact map_walk_retag ⟨doc, _, options.stamp given⟩ (some given') given' base base'
  · intro hbase c c' hc hc'
    obtain ⟨ctx, root, plan, hrun, hplan, rfl⟩ := exists_plan_of_compile hc
    obtain ⟨ctx', root', plan', hrun', hplan', rfl⟩ := exists_plan_of_compile hc'
    obtain ⟨hdoc, hoptions, ⟨given, hstamp⟩, hroot⟩ := Context.ofRun_cases hrun
    obtain ⟨hdoc', hoptions', ⟨given', hstamp'⟩, hroot'⟩ := Context.ofRun_cases hrun'
    have hretag : ctx' = ctx.retag tags' given' := by
      obtain ⟨d, o, s⟩ := ctx'
      simp only at hdoc' hoptions' hstamp'
      rw [hdoc', hoptions', hstamp', Context.retag, hdoc, hoptions, hstamp]
      rfl
    have hnames := Document.NamedAlike.baseName_eq hbase
    have heq : root = root' := Except.ok.inj (hroot.symm.trans (hnames.trans hroot'))
    subst hretag heq
    have hview : (Plan.of ctx root).map View.tagless.plan =
        (Plan.of (ctx.retag tags' given') root).map View.tagless.plan := View.map_plan rfl
    rw [hplan, hplan'] at hview
    exact View.configuration_congr ctx tags' given' (Except.ok.inj hview)

/-- The small document with tags of two colours: the services of the two runs have different tags and
are the same otherwise. -/
theorem compile_retag_members :
    ∃ c c', compile Uuid.dns { tags := some ["blue"] } memberDocument = .ok c ∧
      compile Uuid.dns { tags := some ["green"] } memberDocument = .ok c' ∧
      c.services.map (fun s => (s.list? "tags").map (List.map Json.asString?)) =
        [some [some "blue"]] ∧
      c'.services.map (fun s => (s.list? "tags").map (List.map Json.asString?)) =
        [some [some "green"]] ∧ c.untag = c'.untag := by
  have hblue : ((compile Uuid.dns { tags := some ["blue"] } memberDocument).toOption.map fun c =>
      c.services.map fun s => (s.list? "tags").map (List.map Json.asString?)) =
        some [some [some "blue"]] := by
    decide +kernel
  have hgreen : ((compile Uuid.dns { tags := some ["green"] } memberDocument).toOption.map fun c =>
      c.services.map fun s => (s.list? "tags").map (List.map Json.asString?)) =
        some [some [some "green"]] := by
    decide +kernel
  obtain ⟨c, hc, hblue⟩ := Option.map_eq_some_iff.1 hblue
  rw [toOption_eq_some_iff] at hc
  obtain ⟨houtcome, hsame⟩ := compile_retag Uuid.dns Uuid.dns {} memberDocument (some ["blue"])
    (some ["green"])
  -- the second run succeeds because the first does
  have hsuccess := houtcome rfl rfl
  rw [hc, map_ok] at hsuccess
  obtain ⟨c', hc', -⟩ := map_eq_ok_iff.1 hsuccess.symm
  rw [hc'] at hgreen
  exact ⟨c, c', hc, hc', hblue, Option.some.inj hgreen, hsame (by decide +kernel) c c' hc hc'⟩

end ApiGateway
