import ApiGateway.Proofs.Compilation.Entities
import ApiGateway.Proofs.Compilation.Stamped
import ApiGateway.Proofs.Entity.Stamp
import ApiGateway.Proofs.Naming.BaseName
import ApiGateway.Proofs.Uuid.Text
import Mathlib

/-!
# Identifiers

The identifier of an entity is derived from one text: the name of its owner, a dot and the suffix
of its kind. Both can be read back from the text, and the slugs can be read back from the name.
So with nested names two entities share an identifier only when they are of one kind and their
owners have the same slugs.

## Main definitions

* `Owned.text`: the text that an identifier is derived from.
* `Owner.Decodes`: an owner whose slugs are read back from its name.
* `Owned.Identified`: an entity with the identifier of its text.
-/
namespace ApiGateway

/-- The text that the identifier of an entity is derived from. -/
def Owned.text (o : Owned) : String := o.owner.name ++ "." ++ o.kind.suffix

/-- An owner whose slugs are the parts of its name. -/
structure Owner.Decodes (owner : Owner) : Prop where
  parts_eq : Naming.parts owner.name = owner.sequence
  dotFree : Naming.DotFree owner.name

/-- An entity with the identifier of its text. -/
def Owned.Identified (stamp : Stamp) (o : Owned) : Prop :=
  o.entity.get? "id" = some (.str (stamp.nameId stamp.space o.text).text)

/-- Entities of the same text are of one kind, and their owners have the same slugs. -/
theorem kind_and_sequence_of_text_eq {o o' : Owned} (ho : o.owner.Decodes)
    (ho' : o'.owner.Decodes) (h : o.text = o'.text) :
    o.kind = o'.kind ∧ o.owner.sequence = o'.owner.sequence := by
  obtain ⟨hname, hsuffix⟩ := ho.dotFree.append_inj ho'.dotFree h
  exact ⟨Kind.suffix_injective hsuffix, by rw [← ho.parts_eq, ← ho'.parts_eq, hname]⟩

/-! ## Owners decode -/

section Owners
variable {naming : Naming} {root : String}

/-- The slugs of a site inside another. -/
theorem Site.sequence_enter (naming : Naming) (root : String) (site : Site) (name : String)
    (object : Members) : (site.enter name object).sequence naming root =
      site.sequence naming root ++ [naming.slug name].filter (· ≠ "") := by
  simp [Site.sequence, Site.enter, ← List.filter_append]

/-- The service of a site decodes. -/
theorem Site.decodes_owner (hnested : naming.flat = false) {text : String}
    (hroot : root = naming.slug text) (site : Site) : (site.owner naming root).Decodes := by
  obtain ⟨names, objects⟩ := site
  induction names with
  | nil =>
    refine ⟨?_, hroot ▸ Naming.dotFree_slug naming text⟩
    simp only [Site.owner, Site.base, Site.sequence, List.foldr_nil, List.reverse_nil, List.map_nil]
    by_cases hempty : root = ""
    · simp [hempty]
    · rw [Naming.parts_of_forall (hroot ▸ Naming.ne_separator_of_mem_slug) hempty]
      simp [hempty]
  | cons name names ih =>
    have hsite : (⟨name :: names, objects⟩ : Site).sequence naming root =
        (⟨names, objects⟩ : Site).sequence naming root ++
          [naming.slug name].filter (· ≠ "") :=
      Site.sequence_enter naming root ⟨names, objects⟩ name []
    have hbase : (⟨name :: names, objects⟩ : Site).base naming root =
        naming.extend ((⟨names, objects⟩ : Site).base naming root) name := Site.base_cons ..
    refine ⟨?_, ?_⟩
    · simp only [Site.owner, hsite, hbase]
      rw [Naming.parts_extend hnested]
      exact congrArg (· ++ _) ih.parts_eq
    · simp only [Site.owner, hbase]
      exact ih.dotFree.extend naming name

/-- The routes of an operation decode. -/
theorem Endpoint.decodes_owners (hnested : naming.flat = false) {text : String}
    (hroot : root = naming.slug text) (doc : Document) (e : Endpoint) :
    ∀ owner ∈ e.owners naming root doc, owner.Decodes := by
  have hsite := e.site.decodes_owner hnested hroot
  intro owner howner
  unfold Endpoint.owners at howner
  split at howner
  · obtain rfl := List.mem_singleton.1 howner
    exact ⟨hsite.parts_eq, hsite.dotFree⟩
  · obtain ⟨i, -, rfl⟩ := List.mem_map.1 howner
    refine ⟨?_, hsite.dotFree.numbered naming (i + 1)⟩
    rw [Naming.parts_numbered hnested]
    exact congrArg (· ++ [toString (i + 1)]) hsite.parts_eq

end Owners

/-! ## Entities are identified -/

section Entities
variable {ctx : Context}

/-- A plugin stamped for its owner is identified, also when it refers to its owner. -/
theorem identified_ofPlugin (hids : ctx.stamp.skipId = false) {owner : Owner} {base : String}
    (hname : owner.name = base) (q : Members) :
    (Owned.ofPlugin owner (Plugin.restamp ctx.stamp base q)).Identified ctx.stamp := by
  rw [Owned.Identified, Owned.ofPlugin, (bears_restamp ctx.stamp base q).id_eq hids, Owned.text,
    hname, Plugin.name_restamp]
  rfl

/-- A plugin that refers to its owner by a field is identified as without it. -/
theorem identified_insert {owner : Owner} {key : String} (hid : "id" ≠ key)
    (hname : "name" ≠ key) {plugin : Members} (value : Json)
    (h : (Owned.ofPlugin owner plugin).Identified ctx.stamp) :
    (Owned.ofPlugin owner (plugin.insert key value)).Identified ctx.stamp := by
  rw [Owned.Identified, Owned.ofPlugin, Members.get?_insert, if_neg hid, Owned.text,
    Plugin.name_insert_of_ne hname]
  exact h

/-- The plugins that stay with an owner and those that leave it are identified. -/
theorem identified_bubble {owner : Owner} (field : String) (hid : "id" ≠ field)
    (hname : "name" ≠ field) {plugins : List Members} (key : Json)
    (h : ∀ p ∈ plugins, (Owned.ofPlugin owner p).Identified ctx.stamp) :
    (∀ o ∈ (Plugin.bubble field key plugins).1.map (Owned.ofPlugin owner),
      o.Identified ctx.stamp) ∧
    ∀ o ∈ (Plugin.bubble field key plugins).2.map (Owned.ofPlugin owner),
      o.Identified ctx.stamp := by
  constructor
  · intro o ho
    simp only [Plugin.bubble, List.mem_map, List.mem_filter] at ho
    obtain ⟨_, ⟨p, ⟨hp, -⟩, rfl⟩, rfl⟩ := ho
    exact identified_insert hid hname key (h p hp)
  · intro o ho
    simp only [Plugin.bubble, List.mem_map, List.mem_filter] at ho
    obtain ⟨p, ⟨hp, -⟩, rfl⟩ := ho
    exact h p hp

/-- A service that a scope makes, with its upstream and its plugins, is identified. -/
theorem identified_of_mem_slot (hids : ctx.stamp.skipId = false) {scope : Cascade}
    (owner : Owner) {made : Made} (hscope : scope.Stamped ctx) (hname : owner.name = scope.base)
    (hmake : scope.make ctx = .ok made) (routes : List Members) :
    (∀ o ∈ (made.slot ctx scope.plugins routes).owned owner, o.Identified ctx.stamp) ∧
      ∀ o ∈ (made.moved ctx scope.plugins).map (Owned.ofPlugin owner),
        o.Identified ctx.stamp := by
  obtain ⟨-, hbears, hbacks⟩ := bears_of_make hmake
  have hservice := hbears.id_eq hids
  have hplugins : ∀ p ∈ scope.plugins, (Owned.ofPlugin owner p).Identified ctx.stamp := by
    intro p hp
    obtain ⟨q, rfl⟩ := hscope.restamped p hp
    exact identified_ofPlugin hids hname q
  obtain ⟨hmoved, hkept⟩ := identified_bubble "service" (by decide) (by decide)
    (ctx.stamp.foreignKey made.service) hplugins
  refine ⟨?_, hmoved⟩
  intro o ho
  rw [Slot.owned, pluginsOf_slot, List.cons_append, List.mem_cons, List.mem_append] at ho
  obtain rfl | ho | ho := ho
  · simpa [Owned.Identified, Owned.text, Kind.suffix, hname, Slot.complete, Made.slot,
      Members.get?_insert, Stamp.idText] using hservice
  · obtain ⟨up, hup, rfl⟩ := List.mem_map.1 ho
    have := (hbacks up (by simpa [Made.slot] using hup)).bears.id_eq hids
    simpa [Owned.Identified, Owned.text, Kind.suffix, hname, Stamp.idText] using this
  · exact hkept o ho

/-- A route with its name and its identifier. -/
def Named (stamp : Stamp) (route : Members) : Prop :=
  ∃ name, route.get? "name" = some (.str name) ∧
    route.get? "id" = some (.str (stamp.idText name "route"))

theorem BearsItsName.named {stamp : Stamp} {route : Members} (h : BearsItsName stamp route)
    (hids : stamp.skipId = false) : Named stamp route := by
  obtain ⟨name, hname, hbears⟩ := h
  exact ⟨name, hname, hbears.id_eq hids⟩

/-- A named route with its plugins is identified under its name, and so are the plugins that
leave it. -/
theorem identified_of_named (hids : ctx.stamp.skipId = false) {owner : Owner} {route : Members}
    (hroute : Named ctx.stamp route) (hname : owner.name = entityName route) (base : String)
    (plugins : List Members) :
    (∀ o ∈ Route.owned owner (Route.complete ctx base plugins route), o.Identified ctx.stamp) ∧
      ∀ o ∈ (Route.moved ctx base plugins route).map (Owned.ofPlugin owner),
        o.Identified ctx.stamp := by
  obtain ⟨name, hstr, hid⟩ := hroute
  have hentity : entityName route = name := by simp [entityName, Members.string?, hstr]
  have hown : ∀ p ∈ Route.own ctx base plugins route,
      (Owned.ofPlugin owner p).Identified ctx.stamp := by
    intro p hp
    obtain ⟨q, -, rfl⟩ := List.mem_map.1 hp
    refine identified_ofPlugin hids ?_ q
    simp [hname, hentity, Members.string?, hstr]
  obtain ⟨hmoved, hkept⟩ := identified_bubble "route" (by decide) (by decide)
    (ctx.stamp.foreignKey route) hown
  refine ⟨?_, hmoved⟩
  intro o ho
  rw [Route.owned, Route.pluginsOf_complete, List.mem_cons] at ho
  obtain rfl | ho := ho
  · simpa [Owned.Identified, Owned.text, Kind.suffix, hname, hentity, Route.complete,
      Members.get?_insert, Stamp.idText] using hid
  · exact hkept o ho

end Entities

/-- Lists with the same images agree pair by pair. -/
theorem eq_of_mem_zip {α β γ : Type} {f : α → γ} {g : β → γ} {as : List α} {bs : List β}
    (h : as.map f = bs.map g) : ∀ pair ∈ as.zip bs, f pair.1 = g pair.2 := by
  induction as generalizing bs with
  | nil => simp
  | cons a as ih =>
    cases bs with
    | nil => simp
    | cons b bs =>
      obtain ⟨hhead, htail⟩ := List.cons.inj h
      simp only [List.zip_cons_cons, List.forall_mem_cons]
      exact ⟨hhead, ih htail⟩

section Plans
variable {ctx : Context} {root : String}

/-- An entity with its identifier and an owner whose slugs are read back from its name. -/
def Owned.Sound (ctx : Context) (o : Owned) : Prop :=
  o.Identified ctx.stamp ∧ o.owner.Decodes

/-- The service that a scope makes is identified, if it makes one, together with the plugins that
leave it. -/
theorem identified_of_inside (hids : ctx.stamp.skipId = false) {site : Site}
    {parent scope : Cascade} {object : Members} {name : String} {made : Option Made}
    (hf : Follows ctx root site scope) (hscope : scope.Stamped ctx)
    (inside : Cascade.Inside ctx parent object name scope made) (routes : List Members) :
    (∀ o ∈ (made.toList.map (Made.slot ctx scope.plugins routes)).flatMap
        (Slot.owned (site.owner ctx.naming root)), o.Identified ctx.stamp) ∧
    ∀ o ∈ ((made.map (Made.moved ctx scope.plugins)).getD []).map
        (Owned.ofPlugin (site.owner ctx.naming root)), o.Identified ctx.stamp := by
  obtain ⟨-, made, rfl, hmake⟩ | ⟨-, rfl⟩ := inside.made_cases
  · simpa using identified_of_mem_slot hids (site.owner ctx.naming root) hscope hf.base_eq.symm
      hmake routes
  · simp

/-- Everything that belongs to an operation is identified. -/
theorem identified_of_operation (hids : ctx.stamp.skipId = false) {site : Site} {parent : Cascade}
    {path : String} {item : Members} {entry : String × Members} {op : OperationPlan}
    (hf : Follows ctx root site parent) (hparent : parent.Stamped ctx)
    (h : op.Planned ctx parent path item entry) :
    (∀ o ∈ op.nested ctx root (op.endpoint site item), o.Identified ctx.stamp) ∧
      ∀ o ∈ op.top ctx root (op.endpoint site item), o.Identified ctx.stamp := by
  have hsplits := splits_of_planned hf h
  obtain ⟨parameters, body, template, -, -, -, -, hexpand⟩ := operationRoutes_cases h.routed
  have hbears := bearsItsName_of_expandHeaders
    (bearsItsName_route ctx op.cascade op.method template) hexpand
  have hnames : ((op.endpoint site item).owners ctx.naming root ctx.doc).map Owner.name =
      op.routes.map entityName := by
    rw [Endpoint.map_name_owners, ← hsplits.names_eq, OperationPlan.complete, List.map_map]
    refine List.map_congr_left ?_
    intro route _
    simp [entityName, Route.complete, Members.string?, Members.get?_insert]
  have hpairs := eq_of_mem_zip hnames
  have hroutes : ∀ pair ∈ ((op.endpoint site item).owners ctx.naming root ctx.doc).zip op.routes,
      (∀ o ∈ Route.owned pair.1 (Route.complete ctx op.cascade.base op.plugins pair.2),
        o.Identified ctx.stamp) ∧
      ∀ o ∈ (Route.moved ctx op.cascade.base op.plugins pair.2).map (Owned.ofPlugin pair.1),
        o.Identified ctx.stamp := fun pair hpair =>
    identified_of_named hids ((hbears _ (List.of_mem_zip hpair).2).named hids) (hpairs pair hpair)
      op.cascade.base op.plugins
  have hservice := identified_of_inside hids (hf.enter h.inside) (hparent.enter h.inside) h.inside
    (op.complete ctx)
  constructor
  · intro o ho
    rw [OperationPlan.nested, List.mem_append, OperationPlan.slots_eq,
      OperationPlan.flatMap_zip_complete] at ho
    obtain ho | ho := ho
    · exact hservice.1 o ho
    · obtain ⟨pair, hpair, ho⟩ := List.mem_flatMap.1 ho
      exact (hroutes pair hpair).1 o ho
  · intro o ho
    rw [OperationPlan.top, List.mem_append] at ho
    obtain ho | ho := ho
    · exact hservice.2 o ho
    · obtain ⟨pair, hpair, ho⟩ := List.mem_flatMap.1 ho
      exact (hroutes pair hpair).2 o ho

/-- Everything that belongs to a path is identified. -/
theorem identified_of_path (hids : ctx.stamp.skipId = false) {scope : Cascade}
    {entry : String × Members} {p : PathPlan} (hf : Follows ctx root (Site.document ctx.doc) scope)
    (hscope : scope.Stamped ctx) (h : p.Planned ctx scope entry) :
    (∀ o ∈ p.nested ctx root, o.Identified ctx.stamp) ∧
      ∀ o ∈ p.top ctx root, o.Identified ctx.stamp := by
  have hown := hf.enter h.inside
  have hpath := hscope.enter h.inside
  obtain ⟨entries, -, hops⟩ := h.endpoints
  have hoperations : ∀ op ∈ p.endpoints,
      (∀ o ∈ op.nested ctx root (p.endpoint ctx.doc op), o.Identified ctx.stamp) ∧
        ∀ o ∈ op.top ctx root (p.endpoint ctx.doc op), o.Identified ctx.stamp := by
    intro op hop
    obtain ⟨_, -, planned⟩ := exists_of_mem_forall₂ hops op hop
    exact identified_of_operation hids hown hpath planned
  have hservice := identified_of_inside hids hown hpath h.inside
    (p.endpoints.flatMap (OperationPlan.hosted ctx))
  constructor
  · intro o ho
    rw [PathPlan.nested, List.mem_append, PathPlan.ownSlots_eq] at ho
    obtain ho | ho := ho
    · exact hservice.1 o ho
    · obtain ⟨op, hop, ho⟩ := List.mem_flatMap.1 ho
      exact (hoperations op hop).1 o ho
  · intro o ho
    rw [PathPlan.top, List.mem_append] at ho
    obtain ho | ho := ho
    · exact hservice.2 o ho
    · obtain ⟨op, hop, ho⟩ := List.mem_flatMap.1 ho
      exact (hoperations op hop).2 o ho

/-- Every entity of a plan is identified, in either naming. -/
theorem Plan.Planned.identified (hids : ctx.stamp.skipId = false) {plan : Plan}
    (h : plan.Planned ctx root) : ∀ o ∈ plan.entities ctx root, o.Identified ctx.stamp := by
  have hf := Follows.document h.top
  have hscope := Cascade.Stamped.top h.top
  obtain ⟨items, -, hpaths⟩ := h.paths
  have hpath : ∀ p ∈ plan.paths, (∀ o ∈ p.nested ctx root, o.Identified ctx.stamp) ∧
      ∀ o ∈ p.top ctx root, o.Identified ctx.stamp := by
    intro p hp
    obtain ⟨_, -, planned⟩ := exists_of_mem_forall₂ hpaths p hp
    exact identified_of_path hids hf hscope planned
  obtain ⟨hslot, hmoved⟩ := identified_of_mem_slot hids (Plan.owner ctx root) hscope
    hf.base_eq.symm h.top.make_eq (plan.paths.flatMap (PathPlan.hosted ctx))
  intro o ho
  simp only [Plan.entities, List.mem_append, List.mem_filter, Plan.top] at ho
  obtain (ho | ho) | ⟨ho | ho, -⟩ := ho
  · split at ho
    · simp at ho
    · exact hslot o ho
  · obtain ⟨p, hp, ho⟩ := List.mem_flatMap.1 ho
    exact (hpath p hp).1 o ho
  · exact hmoved o ho
  · obtain ⟨p, hp, ho⟩ := List.mem_flatMap.1 ho
    exact (hpath p hp).2 o ho

/-! ### What holds of all owners -/

theorem owner_of_mem_slot {owner : Owner} {slot : Slot} :
    ∀ o ∈ slot.owned owner, o.owner = owner := by
  intro o ho
  simp only [Slot.owned, List.cons_append, List.mem_cons, List.mem_append, List.mem_map] at ho
  obtain rfl | ⟨_, -, rfl⟩ | ⟨_, -, rfl⟩ := ho <;> rfl

theorem owner_of_mem_route {owner : Owner} {route : Members} :
    ∀ o ∈ Route.owned owner route, o.owner = owner := by
  intro o ho
  simp only [Route.owned, List.mem_cons, List.mem_map] at ho
  obtain rfl | ⟨_, -, rfl⟩ := ho <;> rfl

theorem owner_of_mem_plugins {owner : Owner} {plugins : List Members} :
    ∀ o ∈ plugins.map (Owned.ofPlugin owner), o.owner = owner := by
  intro o ho
  obtain ⟨_, -, rfl⟩ := List.mem_map.1 ho
  rfl

section Owners
variable {P : Owner → Prop} (hsite : ∀ site : Site, P (site.owner ctx.naming root))
  (hroute : ∀ e : Endpoint, ∀ owner ∈ e.owners ctx.naming root ctx.doc, P owner)
include hsite hroute

theorem OperationPlan.forall_owner (e : Endpoint) (op : OperationPlan) :
    ∀ o ∈ op.nested ctx root e ++ op.top ctx root e, P o.owner := by
  intro o ho
  simp only [nested, top, List.mem_append, List.mem_flatMap] at ho
  obtain (⟨slot, -, ho⟩ | ⟨pair, hpair, ho⟩) | ho | ⟨pair, hpair, ho⟩ := ho
  · exact owner_of_mem_slot o ho ▸ hsite _
  · exact owner_of_mem_route o ho ▸ hroute e _ (List.of_mem_zip hpair).1
  · exact owner_of_mem_plugins o ho ▸ hsite _
  · exact owner_of_mem_plugins o ho ▸ hroute e _ (List.of_mem_zip hpair).1

theorem PathPlan.forall_owner (p : PathPlan) :
    ∀ o ∈ p.nested ctx root ++ p.top ctx root, P o.owner := by
  have hoperations := fun op : OperationPlan => op.forall_owner hsite hroute (p.endpoint ctx.doc op)
  intro o ho
  simp only [nested, top, List.mem_append, List.mem_flatMap] at ho
  obtain (⟨slot, -, ho⟩ | ⟨op, -, ho⟩) | ho | ⟨op, -, ho⟩ := ho
  · exact owner_of_mem_slot o ho ▸ hsite _
  · exact hoperations op o (List.mem_append_left _ ho)
  · exact owner_of_mem_plugins o ho ▸ hsite _
  · exact hoperations op o (List.mem_append_right _ ho)

/-- What holds of the services of all sites and of the routes of all operations holds of the owners
of a plan. -/
theorem Plan.forall_owner (plan : Plan) : ∀ o ∈ plan.entities ctx root, P o.owner := by
  have hpaths := fun p : PathPlan => p.forall_owner hsite hroute
  intro o ho
  simp only [entities, top, List.mem_append, List.mem_filter, List.mem_flatMap] at ho
  obtain (ho | ⟨p, -, ho⟩) | ⟨ho | ⟨p, -, ho⟩, -⟩ := ho
  · split at ho
    · simp at ho
    · exact owner_of_mem_slot o ho ▸ hsite _
  · exact hpaths p o (List.mem_append_left _ ho)
  · exact owner_of_mem_plugins o ho ▸ hsite _
  · exact hpaths p o (List.mem_append_right _ ho)

end Owners

/-- Every entity of a plan is sound. -/
theorem Plan.Planned.sound (hids : ctx.stamp.skipId = false) (hnested : ctx.naming.flat = false)
    {text : String} (hroot : root = ctx.naming.slug text) {plan : Plan}
    (h : plan.Planned ctx root) : ∀ o ∈ plan.entities ctx root, o.Sound ctx :=
  fun o ho => ⟨h.identified hids o ho, plan.forall_owner
    (fun site => site.decodes_owner hnested hroot)
    (fun e => e.decodes_owners hnested hroot ctx.doc) o ho⟩

end Plans

/-- Identifiers collide only when slugs collide. In an output with identifiers and nested names,
the text of an identifier determines the kind of its entity and the slugs of the owner; so when
different texts of the run have different identifiers, entities with one identifier are of one
kind and belong to owners of the same slugs. -/
theorem same_slugs_of_same_id {fresh : Uuid} {options : Options} {doc : Document}
    {c : Configuration} (hnested : options.flatNames = false) (hids : options.skipId = false)
    (h : compile fresh options doc = .ok c) :
    ∃ ctx root plan, Context.ofRun fresh options doc = .ok (ctx, root) ∧
      Plan.of ctx root = .ok plan ∧
      c.entities.Perm ((plan.entities ctx root).map Owned.item) ∧
      (∀ o ∈ plan.entities ctx root, ∃ id, o.entity.get? "id" = some (.str id)) ∧
      (∀ o ∈ plan.entities ctx root, ∀ o' ∈ plan.entities ctx root, o.text = o'.text →
        o.kind = o'.kind ∧ o.owner.sequence = o'.owner.sequence) ∧
      (Set.InjOn (options.nameId options.space) {t | ∃ o ∈ plan.entities ctx root, t = o.text} →
        ∀ o ∈ plan.entities ctx root, ∀ o' ∈ plan.entities ctx root,
          o.entity.get? "id" = o'.entity.get? "id" →
            o.kind = o'.kind ∧ o.owner.sequence = o'.owner.sequence) := by
  obtain ⟨ctx, root, plan, hrun, hplan, rfl⟩ := exists_plan_of_compile h
  obtain ⟨-, hoptions, ⟨tags, hstamp⟩, hbase⟩ := Context.ofRun_cases hrun
  obtain ⟨text, hroot⟩ := Document.exists_slug_of_baseName hbase
  have planned := Plan.planned_of_of hplan
  have hsound := planned.sound (by simp [hstamp, Options.stamp, hids])
    (by simp [Context.naming, hoptions, Options.naming, hnested]) (by rw [hroot, ← hoptions]; rfl)
  have htext : ∀ o ∈ plan.entities ctx root, ∀ o' ∈ plan.entities ctx root, o.text = o'.text →
      o.kind = o'.kind ∧ o.owner.sequence = o'.owner.sequence :=
    fun o ho o' ho' heq => kind_and_sequence_of_text_eq (hsound o ho).2 (hsound o' ho').2 heq
  refine ⟨ctx, root, plan, hrun, hplan, Plan.entities_perm planned,
    fun o ho => ⟨_, (hsound o ho).1⟩, htext, fun hinj o ho o' ho' heq => ?_⟩
  rw [(hsound o ho).1, (hsound o' ho').1, Option.some.injEq, Json.str.injEq] at heq
  have hid := Uuid.text_injective heq
  simp only [hstamp, Options.stamp] at hid
  exact htext o ho o' ho' (hinj ⟨o, ho, rfl⟩ ⟨o', ho', rfl⟩ hid)

/-- The texts that the identifiers of a run are derived from. -/
def identifierTexts (fresh : Uuid) (options : Options) (doc : Document) :
    Except Error (List String) := do
  let (ctx, root) ← Context.ofRun fresh options doc
  let plan ← Plan.of ctx root
  return (plan.entities ctx root).map Owned.text

/-- Whether different texts of a run have different identifiers is seen from the texts. -/
theorem injOn_of_identifierTexts {fresh : Uuid} {options : Options} {doc : Document}
    {ctx : Context} {root : String} {plan : Plan} {texts : List String}
    (hrun : Context.ofRun fresh options doc = .ok (ctx, root)) (hplan : Plan.of ctx root = .ok plan)
    (htexts : (identifierTexts fresh options doc).toOption = some texts)
    (hnodup : (texts.dedup.map (options.nameId options.space)).Nodup) :
    Set.InjOn (options.nameId options.space) {t | ∃ o ∈ plan.entities ctx root, t = o.text} := by
  obtain rfl : (plan.entities ctx root).map Owned.text = texts := by
    rw [toOption_eq_some_iff] at htexts
    simp only [identifierTexts, hrun, ok_bind, hplan] at htexts
    exact Except.ok.inj htexts
  have hmem : ∀ o ∈ plan.entities ctx root,
      o.text ∈ ((plan.entities ctx root).map Owned.text).dedup :=
    fun o ho => List.mem_dedup.2 (List.mem_map_of_mem ho)
  rintro _ ⟨o, ho, rfl⟩ _ ⟨o', ho', rfl⟩ heq
  exact List.inj_on_of_nodup_map hnodup (hmem o ho) (hmem o' ho') heq

/-- Two entities of the small document with one identifier are of one kind. -/
theorem same_slugs_of_same_id_greetings :
    ∃ c, compile Uuid.dns {} greetingDocument = .ok c ∧
      ∀ x ∈ c.entities, ∀ y ∈ c.entities, x.2.get? "id" = y.2.get? "id" → x.1 = y.1 := by
  obtain ⟨c, hc⟩ : ∃ c, (compile Uuid.dns {} greetingDocument).toOption = some c :=
    Option.isSome_iff_exists.1 (by decide +kernel)
  rw [toOption_eq_some_iff] at hc
  obtain ⟨ctx, root, plan, hrun, hplan, hperm, -, -, hcollide⟩ := same_slugs_of_same_id rfl rfl hc
  have htexts : (identifierTexts Uuid.dns {} greetingDocument).toOption =
      some ["greetings.service", "greetings_hello_get_1.route", "greetings_hello_get_2.route"] := by
    decide +kernel
  have hinj := injOn_of_identifierTexts hrun hplan htexts (by decide +kernel)
  refine ⟨c, hc, ?_⟩
  intro x hx y hy hid
  obtain ⟨o, ho, rfl⟩ := List.mem_map.1 (hperm.mem_iff.1 hx)
  obtain ⟨o', ho', rfl⟩ := List.mem_map.1 (hperm.mem_iff.1 hy)
  exact (hcollide hinj o ho o' ho' hid).1

end ApiGateway
