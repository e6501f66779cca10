import ApiGateway.Proofs.Compilation.Consumers
import ApiGateway.Proofs.Compilation.Untagged

/-!
# Configurations without their identifiers

A run that leaves identifiers out walks the document as one that writes them. Services, upstreams and
routes come in the same order with the same plugins. Plugins of the top level refer to their owner by
its name and not by its identifier, and the plugins of a service that is left out are told by this
key; with different identifiers for different texts, both keys tell owners apart alike. So the two
configurations are the same without identifiers, once references by identifier are made references by
name, but for the order of the top level, which the references decide.

## Main definitions

* `Plugin.byName`: a plugin of the top level that refers to owners by name.
* `Creation.anonymous`: a creation as plugins of the top level see it, without identifiers.
* `ownerTexts`: the texts that the identifiers of the services and routes of a run are derived from.

## Main results

* `compile_skipId`: a run with identifiers and one without them.
-/
namespace ApiGateway

/-! ## References by name -/

/-- The name of the entity with an identifier. -/
def nameOf? (entities : List Members) (id : String) : Option String :=
  (entities.find? fun e => e.string? "id" == some id).bind fun e => e.string? "name"

/-- A plugin that refers to an owner by its name, where it did by its identifier. -/
def Plugin.nameOwner (field : String) (owners : List Members) (plugin : Members) : Members :=
  match (plugin.string? field).bind (nameOf? owners) with
  | some name => plugin.insert field (.str name)
  | none => plugin

/-- A plugin of the top level that refers to its service or route by name. -/
def Plugin.byName (c : Configuration) (plugin : Members) : Members :=
  nameOwner "route" c.routes (nameOwner "service" c.services plugin)

/-- The name of the entities that have an identifier, when they have one name. -/
theorem nameOf?_eq_some {entities : List Members} {id name : String}
    (hmem : ∃ e ∈ entities, e.string? "id" = some id)
    (hname : ∀ e ∈ entities, e.string? "id" = some id → e.string? "name" = some name) :
    nameOf? entities id = some name := by
  obtain ⟨e, he, hid⟩ := hmem
  obtain ⟨found, hfound⟩ : ∃ found, entities.find? (fun e => e.string? "id" == some id) =
      some found := Option.isSome_iff_exists.1 (List.find?_isSome.2 ⟨e, he, by simp [hid]⟩)
  rw [nameOf?, hfound]
  exact hname found (List.mem_of_find?_eq_some hfound) (by simpa using List.find?_some hfound)

/-- A plugin without a reference is not changed. -/
theorem Plugin.nameOwner_of_get?_eq_none {field : String} {plugin : Members}
    (h : plugin.get? field = none) (owners : List Members) :
    nameOwner field owners plugin = plugin := by
  simp [nameOwner, Members.string?, h]

/-- A reference by identifier becomes one by name. -/
theorem Plugin.nameOwner_insert {owners : List Members} {id name : String}
    (h : nameOf? owners id = some name) (field : String) (plugin : Members) :
    nameOwner field owners (plugin.insert field (.str id)) = plugin.insert field (.str name) := by
  rw [nameOwner, Members.string?_eq_some_iff.2 (Members.get?_insert_self ..), Option.bind_some, h]
  exact Members.insert_insert_self ..

/-! ## Creations without identifiers -/

namespace Creation
variable {x y : Creation}

/-- A creation as plugins of the top level see it, without identifiers. -/
def anonymous (x : Creation) : Holder × String × List Members :=
  (x.holder, x.name, x.plugins.map (Members.hide ["id"]))

/-- The plugins that leave an owner, referring to it by name and without identifiers. -/
def named (x : Creation) : List Members :=
  (x.plugins.filter Plugin.hasConsumer).map fun p =>
    Plugin.strip .id (p.insert x.holder.label (.str x.name))

theorem named_congr (h : x.anonymous = y.anonymous) : x.named = y.named := by
  obtain ⟨hholder, hrest⟩ := Prod.mk.inj h
  obtain ⟨hname, hplugins⟩ := Prod.mk.inj hrest
  rw [named, named, hholder, hname]
  exact map_congr_of_map_eq (Plugin.filter_hasConsumer_congr .id id hplugins)
    fun p q hp => Plugin.strip_congr .id (Members.hide_insert_congr hp fun _ => rfl)

end Creation

section Congruence
variable {ctx : Context} {given : Option (List String)} {skipId : Bool} {stamp : Stamp}

/-- Services of scopes that agree are the same without identifiers. -/
theorem Creation.anonymous_ofService {scope scope' : Cascade}
    (h : View.anonymous.cascade scope = View.anonymous.cascade scope') (site site' : Site)
    (made made' : Made) :
    (ofService site scope made).anonymous = (ofService site' scope' made').anonymous := by
  obtain ⟨hbase, -, -, hplugins, -⟩ := View.cascade_eq_iff.1 h
  exact Prod.ext rfl (Prod.ext hbase hplugins)

theorem OperationPlan.anonymous_services {op op' : OperationPlan}
    (h : View.anonymous.operation op = View.anonymous.operation op') (site site' : Site) :
    (op.services site).map Creation.anonymous = (op'.services site').map Creation.anonymous := by
  have hmade : op.made.map View.anonymous.made = op'.made.map View.anonymous.made :=
    congrArg (·.made) h
  unfold services
  obtain ⟨hm, hm'⟩ | ⟨m, m', hm, hm', -⟩ := cases_of_map_eq hmade
  · rw [hm, hm']
    rfl
  · rw [hm, hm']
    exact congrArg (fun x => [x])
      (Creation.anonymous_ofService (congrArg (·.cascade) h) site site' m m')

theorem PathPlan.anonymous_services {p p' : PathPlan}
    (h : View.anonymous.path p = View.anonymous.path p') (doc doc' : Document) :
    (p.services doc).map Creation.anonymous = (p'.services doc').map Creation.anonymous := by
  obtain ⟨-, hmade, hoperations⟩ := View.path_without h
  rw [services, services, List.map_append, List.map_append, List.map_flatMap, List.map_flatMap,
    flatMap_congr_of_map_eq hoperations
      fun op op' hop => OperationPlan.anonymous_services hop _ (p'.endpoint doc' op').site]
  congr 1
  obtain ⟨hm, hm'⟩ | ⟨m, m', hm, hm', -⟩ := cases_of_map_eq hmade
  · rw [hm, hm']
    rfl
  · rw [hm, hm']
    exact congrArg (fun x => [x]) (Creation.anonymous_ofService (congrArg (·.cascade) h) _ _ m m')

/-- The services of plans that agree are the same without identifiers. -/
theorem Plan.anonymous_services {plan plan' : Plan}
    (h : View.anonymous.plan plan = View.anonymous.plan plan') (ctx' : Context) :
    (plan.services ctx).map Creation.anonymous =
      (plan'.services ctx').map Creation.anonymous := by
  have hpaths : plan.paths.map View.anonymous.path = plan'.paths.map View.anonymous.path :=
    congrArg Plan.paths h
  rw [services, services, List.map_cons, List.map_cons, List.map_flatMap, List.map_flatMap,
    flatMap_congr_of_map_eq hpaths
      fun p p' hp => PathPlan.anonymous_services hp ctx.doc ctx'.doc]
  exact congrArg (· :: _) (Creation.anonymous_ofService (congrArg Plan.root h) _ _ _ _)

variable (ctx given skipId) (hstamp : Mark.id.Alike ctx.stamp stamp)
include hstamp

theorem OperationPlan.anonymous_created {op op' : OperationPlan}
    (h : View.anonymous.operation op = View.anonymous.operation op') (site site' : Site) :
    (op.created ctx site).map Creation.anonymous =
      (op'.created (ctx.vary given skipId stamp) site').map Creation.anonymous := by
  obtain ⟨hbase, -, -, hplugins, hroutes⟩ := View.operation_without h
  rw [created, created, List.map_map, List.map_map, hbase]
  refine map_congr_of_map_eq hroutes fun route route' hroute => ?_
  have hname : route.string? "name" = route'.string? "name" :=
    Members.string?_eq_of_hide (Mark.notMem_key (by decide) (by decide)) hroute
  refine Prod.ext rfl (Prod.ext ?_ (Route.own_congr ctx given skipId hstamp _ hroute hplugins))
  simp only [Function.comp_apply, Creation.anonymous, Creation.ofRoute, hname]

/-- The routes of plans that agree are the same without identifiers. -/
theorem Plan.anonymous_routes {plan plan' : Plan}
    (h : View.anonymous.plan plan = View.anonymous.plan plan') :
    (plan.routes ctx).map Creation.anonymous =
      (plan'.routes (ctx.vary given skipId stamp)).map Creation.anonymous := by
  rw [routes, routes, List.map_flatMap, List.map_flatMap]
  refine flatMap_congr_of_map_eq (congrArg Plan.paths h) fun p p' hp => ?_
  rw [PathPlan.created, PathPlan.created, List.map_flatMap, List.map_flatMap]
  exact flatMap_congr_of_map_eq (View.path_without hp).2.2
    fun op op' hop => OperationPlan.anonymous_created ctx given skipId hstamp hop _ _

end Congruence

/-! ## The plugins that stay at the top level -/

namespace Plan
variable {ctx : Context} {root : String} {plan : Plan}

/-- Whether the plugins that leave an owner stay at the top level: the owner is a route, or a service
of another name than that of the document, or the service of the document is not left out. -/
def keeps (ctx : Context) (plan : Plan) (x : Creation) : Bool :=
  !(plan.dropped ctx && x.holder == .service && x.name == (plan.document ctx).name)

/-- Plans that agree but for identifiers keep the plugins of the same owners. -/
theorem keeps_congr (given : Option (List String)) (skipId : Bool) {stamp : Stamp}
    (hstamp : Mark.id.Alike ctx.stamp stamp) {plan' : Plan}
    (h : View.anonymous.plan plan = View.anonymous.plan plan') {x x' : Creation}
    (hx : x.anonymous = x'.anonymous) :
    plan.keeps ctx x = plan'.keeps (ctx.vary given skipId stamp) x' := by
  obtain ⟨hholder, hrest⟩ := Prod.mk.inj hx
  have hslots : plan.ownSlot ctx :: plan.paths.flatMap (PathPlan.slots ctx) = plan.slots ctx := rfl
  have hslots' : plan'.ownSlot (ctx.vary given skipId stamp) ::
      plan'.paths.flatMap (PathPlan.slots (ctx.vary given skipId stamp)) =
        plan'.slots (ctx.vary given skipId stamp) := rfl
  have hlaid := strip_slots_congr ctx given skipId hstamp h
  rw [← hslots, ← hslots', List.map_cons, List.map_cons] at hlaid
  obtain ⟨hown, hpaths⟩ := List.cons.inj hlaid
  have hdropped : plan.dropped ctx = plan'.dropped (ctx.vary given skipId stamp) := by
    have hempty := congrArg List.isEmpty hpaths
    rw [List.isEmpty_map, List.isEmpty_map] at hempty
    rw [dropped, dropped, Slot.isEmpty_routes_congr hown, hempty, Context.doc_vary]
  have hname : (plan.document ctx).name = (plan'.document (ctx.vary given skipId stamp)).name :=
    congrArg (·.root.base) h
  rw [keeps, keeps, hdropped, hholder, (Prod.mk.inj hrest).1, hname]

/-- Keys tell services apart as their names do, and so with routes. -/
def Separates (ctx : Context) (plan : Plan) : Prop :=
  ∀ x ∈ plan.services ctx ++ plan.routes ctx, ∀ y ∈ plan.services ctx ++ plan.routes ctx,
    x.holder = y.holder → x.key ctx.stamp = y.key ctx.stamp → x.name = y.name

variable (h : plan.Planned ctx root) (hopenId : ctx.options.openId = false)
variable (hseparates : plan.Separates ctx)
include h hopenId hseparates

/-- A plugin that has left an owner stays when its owner's plugins do. -/
theorem Planned.survives_share {x : Creation} (hx : x ∈ plan.services ctx ++ plan.routes ctx)
    {p : Members} (hp : p ∈ x.plugins) :
    plan.survives ctx (x.share ctx p) = plan.keeps ctx x := by
  have hsound := h.sound_creations x hx
  have hdocument : plan.document ctx ∈ plan.services ctx ++ plan.routes ctx := by simp [services]
  rw [Bool.eq_iff_iff, h.survives_iff, keeps, hsound.get?_share]
  cases hholder : x.holder with
  | route =>
    -- a plugin without references refers to a route alone
    have hunbound := hsound.unbound_of_openId_eq_false hopenId p hp
    simp [Holder.label, hunbound.1]
  | service =>
    have hkey : x.key ctx.stamp = (plan.document ctx).key ctx.stamp ↔
        x.name = (plan.document ctx).name := by
      constructor
      · exact hseparates x hx _ hdocument hholder
      · intro hname
        rw [Creation.key, Creation.key, hname, hholder]
        rfl
    cases plan.dropped ctx <;> simp [Holder.label, hkey]

/-- The plugins of the top level are those that leave the owners whose plugins stay. -/
theorem Planned.plugins_perm_keeps : (plan.configuration ctx).plugins.Perm
    (((plan.services ctx ++ plan.routes ctx).filter (plan.keeps ctx)).flatMap
      (Creation.moved ctx)) := by
  have hfilter : ∀ creations ⊆ plan.services ctx ++ plan.routes ctx,
      (creations.flatMap (Creation.moved ctx)).filter (plan.survives ctx) =
        (creations.filter (plan.keeps ctx)).flatMap (Creation.moved ctx) := by
    intro creations hsubset
    induction creations with
    | nil => rfl
    | cons x rest ih =>
      obtain ⟨hx, hrest⟩ := List.cons_subset.1 hsubset
      have hmoved : ∀ p ∈ x.moved ctx, plan.survives ctx p = plan.keeps ctx x := by
        intro p hp
        obtain ⟨q, hq, -, rfl⟩ := Creation.mem_moved_iff.1 hp
        exact h.survives_share hopenId hseparates hx hq
      rw [List.flatMap_cons, List.filter_append, ih hrest, List.filter_cons]
      cases hkeeps : plan.keeps ctx x with
      | true =>
        rw [if_pos rfl, List.flatMap_cons, List.filter_eq_self.2 fun p hp =>
          (hmoved p hp).trans hkeeps]
      | false =>
        rw [if_neg (by decide), List.filter_eq_nil_iff.2 fun p hp => by
          rw [hmoved p hp, hkeeps]
          decide, List.nil_append]
  refine plugins_perm.trans ?_
  rw [← hfilter _ (List.Subset.refl _)]
  exact plan.shared_perm.filter _

/-- The plugins of the top level without identifiers are those that owners give to it, when every
reference is changed to one by name. -/
theorem Planned.map_plugins_perm {f : Members → Members}
    (hf : ∀ x ∈ plan.services ctx ++ plan.routes ctx, plan.keeps ctx x = true → ∀ p ∈ x.plugins,
      f (x.share ctx p) = Plugin.strip .id (p.insert x.holder.label (.str x.name))) :
    ((plan.configuration ctx).plugins.map f).Perm
      (((plan.services ctx ++ plan.routes ctx).filter (plan.keeps ctx)).flatMap
        Creation.named) := by
  refine ((h.plugins_perm_keeps hopenId hseparates).map f).trans ?_
  rw [List.map_flatMap]
  refine List.Perm.of_eq (List.flatMap_congr fun x hx => ?_)
  obtain ⟨hmem, hkeeps⟩ := List.mem_filter.1 hx
  rw [Creation.moved, Creation.named, Plugin.bubble, List.map_map]
  exact List.map_congr_left fun p hp => hf x hmem hkeeps p (List.mem_of_mem_filter hp)

end Plan

/-! ## References by identifier are references by name -/

/-- The services or the routes of a configuration. -/
def Configuration.owners (c : Configuration) : Holder → List Members
  | .service => c.services
  | .route => c.routes

namespace Plan
variable {ctx : Context} {root : String} {plan : Plan}

/-- An owner whose plugins stay is in the output. -/
theorem exists_mem_owners {x : Creation} (hx : x ∈ plan.services ctx ++ plan.routes ctx)
    (hkeeps : plan.keeps ctx x = true) :
    ∃ e ∈ (plan.configuration ctx).owners x.holder,
      ∀ key ≠ "routes", e.get? key = (x.complete ctx).get? key := by
  rcases List.mem_append.1 hx with hservice | hroute
  · have hholder := holder_of_mem_services hservice
    rw [hholder]
    obtain hkept | ⟨hdropped, rfl⟩ := mem_kept_or_eq hservice
    · obtain ⟨s, hs, herase⟩ := exists_mem_services_of_kept hkept
      exact ⟨s, hs, fun key hne => Members.get?_eq_of_erase_eq herase hne⟩
    · simp [keeps, hdropped, hholder] at hkeeps
  · rw [holder_of_mem_routes hroute]
    exact ⟨x.complete ctx, mem_routes_iff.2 ⟨x, hroute, rfl⟩, fun key _ => rfl⟩

/-- An owner in the output has been made. -/
theorem exists_of_mem_owners {holder : Holder} {e : Members}
    (he : e ∈ (plan.configuration ctx).owners holder) :
    ∃ x ∈ plan.services ctx ++ plan.routes ctx, x.holder = holder ∧
      ∀ key ≠ "routes", e.get? key = (x.complete ctx).get? key := by
  cases holder with
  | service =>
    obtain ⟨x, hx, herase⟩ := exists_kept_of_mem_services he
    have hservice := plan.kept_subset_services hx
    exact ⟨x, List.mem_append_left _ hservice, holder_of_mem_services hservice,
      fun key hne => Members.get?_eq_of_erase_eq herase hne⟩
  | route =>
    obtain ⟨x, hx, rfl⟩ := mem_routes_iff.1 he
    exact ⟨x, List.mem_append_right _ hx, holder_of_mem_routes hx, fun key _ => rfl⟩

variable (h : plan.Planned ctx root) (hids : ctx.stamp.skipId = false)
variable (hseparates : plan.Separates ctx)
include h hids hseparates

/-- The identifier of an owner leads to its name. -/
theorem Planned.nameOf?_key {x : Creation} (hx : x ∈ plan.services ctx ++ plan.routes ctx)
    (hkeeps : plan.keeps ctx x = true) :
    nameOf? ((plan.configuration ctx).owners x.holder) (x.key ctx.stamp) = some x.name := by
  have hfields : ∀ y ∈ plan.services ctx ++ plan.routes ctx, ∀ e : Members,
      (∀ key ≠ "routes", e.get? key = (y.complete ctx).get? key) →
        e.string? "id" = some (y.key ctx.stamp) ∧ e.string? "name" = some y.name := by
    intro y hy e hget
    have hsound := h.sound_creations y hy
    have hid := hsound.get?_keyField
    rw [Stamp.keyField, hids, if_neg (by decide)] at hid
    rw [Members.string?_eq_some_iff, Members.string?_eq_some_iff, hget _ (by decide),
      hget _ (by decide), y.get?_complete ctx (by decide), y.get?_complete ctx (by decide)]
    exact ⟨hid, hsound.named⟩
  refine nameOf?_eq_some ?_ ?_
  · obtain ⟨e, he, hget⟩ := exists_mem_owners hx hkeeps
    exact ⟨e, he, (hfields x hx e hget).1⟩
  · intro e he hid
    obtain ⟨y, hy, hholder, hget⟩ := exists_of_mem_owners he
    obtain ⟨hid', hname⟩ := hfields y hy e hget
    rw [hname, hseparates y hy x hx hholder (Option.some.inj (hid'.symm.trans hid))]

/-- A plugin that has left its owner refers to it by name when its reference is changed to one by
name. -/
theorem Planned.byName_share {x : Creation} (hx : x ∈ plan.services ctx ++ plan.routes ctx)
    (hkeeps : plan.keeps ctx x = true) {p : Members} (hunbound : Plugin.Unbound p) :
    Plugin.byName (plan.configuration ctx) (x.share ctx p) =
      p.insert x.holder.label (.str x.name) := by
  have hname := h.nameOf?_key hids hseparates hx hkeeps
  have hshare : x.share ctx p = p.insert x.holder.label (.str (x.key ctx.stamp)) := by
    rw [Creation.share, (h.sound_creations x hx).foreignKey_eq]
  rw [hshare, Plugin.byName]
  cases hholder : x.holder with
  | service =>
    rw [hholder, Configuration.owners] at hname
    have hroute : (p.insert "service" (.str x.name)).get? "route" = none := by
      rw [Members.get?_insert, if_neg (by decide), hunbound.2]
    rw [Holder.label, Plugin.nameOwner_insert hname,
      Plugin.nameOwner_of_get?_eq_none hroute]
  | route =>
    rw [hholder, Configuration.owners] at hname
    have hservice : (p.insert "route" (.str (x.key ctx.stamp))).get? "service" = none := by
      rw [Members.get?_insert, if_neg (by decide), hunbound.1]
    rw [Holder.label, Plugin.nameOwner_of_get?_eq_none hservice, Plugin.nameOwner_insert hname]

end Plan

/-! ## The top level of a run -/

namespace Plan
variable {ctx : Context} {root : String} {plan : Plan}

/-- Without identifiers keys are names, and tell owners apart. -/
theorem separates_of_skipId (plan : Plan) (hskip : ctx.stamp.skipId = true) :
    plan.Separates ctx := by
  intro x hx y hy hholder hkey
  exact Creation.name_eq_of_key_eq hx hy hholder (Or.inl hskip) hkey

/-- With identifiers keys tell owners apart when different texts have different ones. -/
theorem separates_of_injOn (hinj : Set.InjOn (ctx.stamp.nameId ctx.stamp.space)
    {t | t ∈ (plan.services ctx ++ plan.routes ctx).map Creation.text}) : plan.Separates ctx := by
  intro x hx y hy hholder hkey
  refine Creation.name_eq_of_key_eq hx hy hholder (Or.inr ?_) hkey
  have htexts : {t | ∃ x ∈ plan.services ctx ++ plan.routes ctx, t = x.text} =
      {t | t ∈ (plan.services ctx ++ plan.routes ctx).map Creation.text} := by
    simp only [List.mem_map, @eq_comm _ _ (Creation.text _)]
  rw [htexts]
  exact hinj

/-- The plugins of the top level of a run with identifiers, with references by name. -/
theorem Planned.map_byName_perm (h : plan.Planned ctx root) (hids : ctx.stamp.skipId = false)
    (hopenId : ctx.options.openId = false) (hseparates : plan.Separates ctx) :
    ((plan.configuration ctx).plugins.map fun p =>
        Plugin.strip .id (Plugin.byName (plan.configuration ctx) p)).Perm
      (((plan.services ctx ++ plan.routes ctx).filter (plan.keeps ctx)).flatMap
        Creation.named) := by
  refine h.map_plugins_perm hopenId hseparates fun x hx hkeeps p hp => ?_
  rw [h.byName_share hids hseparates hx hkeeps
    ((h.sound_creations x hx).unbound_of_openId_eq_false hopenId p hp)]

/-- The plugins of the top level of a run without identifiers. -/
theorem Planned.map_strip_perm (h : plan.Planned ctx root) (hskip : ctx.stamp.skipId = true)
    (hopenId : ctx.options.openId = false) :
    ((plan.configuration ctx).plugins.map (Plugin.strip .id)).Perm
      (((plan.services ctx ++ plan.routes ctx).filter (plan.keeps ctx)).flatMap
        Creation.named) := by
  refine h.map_plugins_perm hopenId (plan.separates_of_skipId hskip) fun x hx _ p _ => ?_
  have hkey : x.key ctx.stamp = x.name := by rw [Creation.key, hskip]; rfl
  rw [Creation.share, (h.sound_creations x hx).foreignKey_eq, hkey]

end Plan

/-- Plans that agree but for identifiers keep the same plugins of the same owners. -/
theorem Plan.flatMap_named_congr (ctx : Context) (given : Option (List String)) (skipId : Bool)
    {stamp : Stamp} (hstamp : Mark.id.Alike ctx.stamp stamp) {plan plan' : Plan}
    (h : View.anonymous.plan plan = View.anonymous.plan plan') :
    let ctx' := ctx.vary given skipId stamp
    ((plan.services ctx ++ plan.routes ctx).filter (plan.keeps ctx)).flatMap Creation.named =
      ((plan'.services ctx' ++ plan'.routes ctx').filter (plan'.keeps ctx')).flatMap
        Creation.named := by
  intro ctx'
  have hcreations : (plan.services ctx ++ plan.routes ctx).map Creation.anonymous =
      (plan'.services ctx' ++ plan'.routes ctx').map Creation.anonymous := by
    rw [List.map_append, List.map_append, Plan.anonymous_services h ctx',
      Plan.anonymous_routes ctx given skipId hstamp h]
  have hkept := filter_congr_of_map_eq hcreations fun x x' hx =>
    Plan.keeps_congr given skipId hstamp h hx
  exact flatMap_congr_of_map_eq hkept fun x x' => Creation.named_congr

/-! ## Two runs -/

/-- The texts that the identifiers of the services and routes of a run are derived from, that of a
service that is left out among them. -/
def ownerTexts (fresh : Uuid) (options : Options) (doc : Document) :
    Except Error (List String) := do
  let (ctx, root) ← Context.ofRun fresh options doc
  let plan ← Plan.of ctx root
  return (plan.services ctx ++ plan.routes ctx).map Creation.text

theorem ownerTexts_eq {fresh : Uuid} {options : Options} {doc : Document} {ctx : Context}
    {root : String} {plan : Plan} (hrun : Context.ofRun fresh options doc = .ok (ctx, root))
    (hplan : Plan.of ctx root = .ok plan) : ownerTexts fresh options doc =
      .ok ((plan.services ctx ++ plan.routes ctx).map Creation.text) := by
  simp only [ownerTexts, hrun, ok_bind, hplan]
  rfl

/-- The run without identifiers of a context with them. -/
theorem Context.eq_vary {fresh fresh' : Uuid} {options : Options} {doc : Document}
    {ctx ctx' : Context} {root root' : String}
    (hrun : Context.ofRun fresh { options with skipId := false } doc = .ok (ctx, root))
    (hrun' : Context.ofRun fresh' { options with skipId := true } doc = .ok (ctx', root'))
    (hnamed : doc.NamedAlike options fresh fresh') :
    root = root' ∧ Mark.id.Alike ctx.stamp ctx'.stamp ∧
      ctx' = ctx.vary options.tags true ctx'.stamp := by
  obtain ⟨hdoc, hoptions, -, hbase⟩ := Context.ofRun_cases hrun
  obtain ⟨hdoc', hoptions', -, hbase'⟩ := Context.ofRun_cases hrun'
  obtain ⟨tags, htags, hstamp⟩ := Context.exists_runTags_of_ofRun hrun
  obtain ⟨tags', htags', hstamp'⟩ := Context.exists_runTags_of_ofRun hrun'
  obtain rfl : tags = tags' := Except.ok.inj (htags.symm.trans htags')
  refine ⟨Except.ok.inj (hbase.symm.trans (hnamed.baseName_eq.trans hbase')), ?_, ?_⟩
  · rw [hstamp, hstamp']
    rfl
  · obtain ⟨d, o, s⟩ := ctx'
    simp only at hdoc' hoptions'
    rw [hdoc', hoptions', Context.vary, hdoc, hoptions]

/-- The runs with and without identifiers both succeed, or fail with one error. -/
theorem map_compile_skipId (fresh fresh' : Uuid) (options : Options) (doc : Document) :
    ((compile fresh { options with skipId := false } doc).map fun _ => ()) =
      (compile fresh' { options with skipId := true } doc).map fun _ => () := by
  rw [compile_eq, compile_eq, Context.ofRun, Context.ofRun]
  simp only [bind_assoc]
  refine map_bind_congr_right _ fun _ => map_bind_congr_right _ fun tags => ?_
  refine map_bind_congr (doc.map_baseName options fresh fresh') fun base base' _ => ?_
  exact map_walk_vary ⟨doc, _, Options.stamp { options with skipId := false } tags⟩ options.tags
    true (Options.stamp { options with skipId := true } tags) base base'

/-- Leaving identifiers out only erases them. Without OpenID Connect plugins, two runs of one document
of which one writes identifiers and the other does not both succeed or fail with one error. When they
succeed, with the same base name if the document has no name, their configurations have the same
services with their routes and plugins, and the same upstreams, once identifiers are erased. When
different texts of services and routes have different identifiers, they also have the same plugins at
the top level, up to their order, once those of the run with identifiers refer to owners by name. -/
theorem compile_skipId (fresh fresh' : Uuid) (options : Options) (doc : Document)
    (hopenId : options.openId = false) :
    ((compile fresh { options with skipId := false } doc).map fun _ => ()) =
        (compile fresh' { options with skipId := true } doc).map (fun _ => ()) ∧
      ∀ c c', compile fresh { options with skipId := false } doc = .ok c →
        compile fresh' { options with skipId := true } doc = .ok c' →
        doc.NamedAlike options fresh fresh' →
        ∃ texts, ownerTexts fresh { options with skipId := false } doc = .ok texts ∧
          c.formatVersion = c'.formatVersion ∧
          c.services.map (Service.strip .id) = c'.services.map (Service.strip .id) ∧
          c.upstreams.map (Upstream.strip .id) = c'.upstreams.map (Upstream.strip .id) ∧
          (Set.InjOn (options.nameId options.space) {t | t ∈ texts} →
            (c.plugins.map fun p => Plugin.strip .id (Plugin.byName c p)).Perm
              (c'.plugins.map (Plugin.strip .id))) := by
  refine ⟨map_compile_skipId fresh fresh' options doc, ?_⟩
  intro c c' hc hc' hnamed
  obtain ⟨ctx, root, plan, hrun, hplan, rfl⟩ := exists_plan_of_compile hc
  obtain ⟨ctx', root', plan', hrun', hplan', rfl⟩ := exists_plan_of_compile hc'
  obtain ⟨-, hoptions, ⟨tags, hids⟩, -⟩ := Context.ofRun_cases hrun
  obtain ⟨-, hoptions', ⟨tags', hskip⟩, -⟩ := Context.ofRun_cases hrun'
  obtain ⟨rfl, hstamp, hvary⟩ := Context.eq_vary hrun hrun' hnamed
  have planned := Plan.planned_of_of hplan
  have planned' := Plan.planned_of_of hplan'
  -- both walks plan the same but for identifiers
  have hview : View.anonymous.plan plan = View.anonymous.plan plan' := by
    have halike : View.anonymous.Alike ctx.stamp ctx'.stamp := hstamp
    have hwalk : (Plan.of ctx root).map View.anonymous.plan =
        (Plan.of (ctx.vary options.tags true ctx'.stamp) root).map View.anonymous.plan :=
      View.map_plan_vary halike rfl
    rw [← hvary, hplan, hplan'] at hwalk
    exact Except.ok.inj hwalk
  obtain ⟨hservices, hupstreams⟩ :=
    View.strip_configuration_congr ctx options.tags true hstamp hview
  have hnamed := Plan.flatMap_named_congr ctx options.tags true hstamp hview
  rw [← hvary] at hservices hupstreams hnamed
  refine ⟨_, ownerTexts_eq hrun hplan, rfl, hservices, hupstreams, fun hinj => ?_⟩
  have hseparates : plan.Separates ctx := Plan.separates_of_injOn (by rw [hids]; exact hinj)
  refine (planned.map_byName_perm (by rw [hids]; rfl) (by rw [hoptions, hopenId])
    hseparates).trans ?_
  rw [hnamed]
  exact (planned'.map_strip_perm (by rw [hskip]; rfl) (by rw [hoptions', hopenId])).symm

/-- The small document with and without identifiers: the one plugin of the top level refers to the
service by its name when it is left without identifiers, and is otherwise the same. -/
theorem compile_skipId_members :
    ∃ c c', compile Uuid.dns {} memberDocument = .ok c ∧
      compile Uuid.dns { skipId := true } memberDocument = .ok c' ∧
      (c'.plugins.map fun p => p.string? "service") = [some "members"] ∧
      c.services.map (Service.strip .id) = c'.services.map (Service.strip .id) ∧
      (c.plugins.map fun p => Plugin.strip .id (Plugin.byName c p)).Perm
        (c'.plugins.map (Plugin.strip .id)) := by
  have hservice : ((compile Uuid.dns { skipId := true } memberDocument).toOption.map fun c =>
      c.plugins.map fun p => p.string? "service") = some [some "members"] := by
    decide +kernel
  obtain ⟨c', hc', hservice⟩ := Option.map_eq_some_iff.1 hservice
  rw [toOption_eq_some_iff] at hc'
  obtain ⟨houtcome, hsame⟩ := compile_skipId Uuid.dns Uuid.dns {} memberDocument rfl
  -- the run with identifiers succeeds because the other does
  rw [hc', map_ok] at houtcome
  obtain ⟨c, hc, -⟩ := map_eq_ok_iff.1 houtcome
  obtain ⟨texts, htexts, -, hservices, -, hplugins⟩ := hsame c c' hc hc' fun _ => rfl
  have hrun : (ownerTexts Uuid.dns {} memberDocument).toOption =
      some ["members.service", "members_lounge_get.route"] := by
    decide +kernel
  rw [toOption_eq_some_iff] at hrun
  obtain rfl := Except.ok.inj (htexts.symm.trans hrun)
  have hnodup : ((["members.service", "members_lounge_get.route"] : List String).map
      (Uuid.named Uuid.dns)).Nodup := by
    decide +kernel
  exact ⟨c, c', hc, hc', hservice, hservices, hplugins fun t ht t' ht' heq =>
    List.inj_on_of_nodup_map hnodup ht ht' heq⟩

end ApiGateway
