import ApiGateway.Proofs.Compilation.Creation
import ApiGateway.Proofs.Compilation.PluginCascade
import ApiGateway.Proofs.Plugin.Insertion

/-!
# The order of plugin lists

Putting a plugin into a list is a halving search, which finds the place of a name only in a list in
strictly increasing order. All lists that are searched in a walk are of this kind: the inherited
plugins are sorted before the first directive, each directive keeps the order, and the lists of a
scope are what a scope around it has built. So are the lists of the output.

## Main definitions

* `Plugin.Declares`: a list and a plugin that a directive puts into it.
* `Insertion`: the lists and the plugins that a walk puts into them.
-/
namespace ApiGateway

open Plugin (Ordered)

namespace Plugin

/-- A list at the moment when a directive of a scope puts its plugin into it: the inherited plugins,
stamped and sorted, with the plugins of the directives before. -/
def Declares (doc : Document) (stamp : Stamp) (base : String) (object : Members)
    (inherited plugins : List Members) (plugin : Members) : Prop :=
  ∃ before key sought after, directives object = before ++ (key, sought) :: after ∧
    before.foldlM (addDirective doc stamp base object)
      (sortByName (inherited.map (restamp stamp base))) = .ok plugins ∧
    ofDirective doc stamp base object key sought = .ok (some plugin)

/-- Every directive meets a list in order. -/
theorem Declares.ordered {doc : Document} {stamp : Stamp} {base : String} {object : Members}
    {inherited plugins : List Members} {plugin : Members}
    (h : Declares doc stamp base object inherited plugins plugin) (hord : Ordered inherited) :
    Ordered plugins := by
  obtain ⟨before, key, sought, after, hkeys, hbefore, -⟩ := h
  have hnames : ((inherited.map (restamp stamp base)).map name).Nodup :=
    (hord.map (name_restamp stamp base)).nodup_names
  refine (foldlM_addDirective_spec ?_ (ordered_sortByName hnames) hbefore).1
  intro d hd
  have hmem : d ∈ directives object := by
    rw [hkeys]
    exact List.mem_append_left _ hd
  exact (mem_directives.1 hmem).2

end Plugin

open Plugin (ByteOrdered byteOrdered_iff)

/-- The lists and the plugins that a walk puts into them: directives of the document and the plugin
of its security requirements; directives of a scope inside another, over the plugins in effect there
and over those that wait there; the OpenID Connect plugin of an operation, and its validator. -/
inductive Insertion (ctx : Context) (base : String) : List Members → Members → Prop
  | document {plugins : List Members} {plugin : Members}
      (declares : Plugin.Declares ctx.doc ctx.stamp base ctx.doc.root [] plugins plugin) :
      Insertion ctx base plugins plugin
  | documentOpenId {declared : List Members} {plugin : Members}
      (built : Plugin.build ctx.doc ctx.stamp base ctx.doc.root [] = .ok declared)
      (required : Cascade.documentOpenId ctx = .ok (some plugin)) :
      Insertion ctx base (Plugin.extractValidator declared none).2
        (Plugin.restamp ctx.stamp base plugin)
  | inEffect {build : Build} {frame : Frame} {around : List Frame} {object plugin : Members}
      {name : String} {plugins : List Members} (walk : Walk ctx base build frame around)
      (declares : Plugin.Declares ctx.doc ctx.stamp (ctx.naming.extend frame.scope.base name) object
        frame.scope.plugins plugins plugin) :
      Insertion ctx base plugins plugin
  | waiting {build : Build} {frame : Frame} {around : List Frame} {object plugin : Members}
      {name : String} {plugins : List Members} (walk : Walk ctx base build frame around)
      (declares : Plugin.Declares ctx.doc ctx.stamp (ctx.naming.extend frame.scope.base name) object
        frame.scope.pending plugins plugin) :
      Insertion ctx base plugins plugin
  | openId {build : Build} {frame : Frame} {around : List Frame} {plugin : Members}
      (walk : Walk ctx base build frame around)
      (required : openIdConnect ctx.doc ctx.options.ignoreSecurityErrors
        (frame.object.get? "security") frame.scope.openId = .ok (some plugin)) :
      Insertion ctx base frame.scope.pending (Plugin.restamp ctx.stamp frame.scope.base plugin)
  | validator {build : Build} {frame : Frame} {around : List Frame} {own : List Members}
      {plugin : Members} {parameters : List Parameter} {body : Option RequestBody}
      (walk : Walk ctx base build frame around)
      (carried : frame.scope.withOpenId ctx frame.object = .ok own)
      (made : requestValidator ctx.doc ctx.naming ctx.stamp frame.scope.base parameters body
        frame.scope.validator = .ok (some plugin)) :
      Insertion ctx base own plugin

section Walks
variable {ctx : Context} {base : String} {build : Build} {frame : Frame} {around : List Frame}

/-- Both lists of every scope that the walk enters are in order. -/
theorem Walk.ordered (h : Walk ctx base build frame around) :
    Ordered frame.scope.plugins ∧ Ordered frame.scope.pending := by
  obtain ⟨-, hplugins, _, _, _, -, -, -, -, -, -, hpending⟩ := h.layered
  exact ⟨hplugins.1, hpending.1⟩

/-- Every list that a plugin is put into is in order. -/
theorem Insertion.ordered {plugins : List Members} {plugin : Members}
    (h : Insertion ctx base plugins plugin) : Ordered plugins := by
  cases h with
  | document declares => exact declares.ordered List.Pairwise.nil
  | documentOpenId built _ => exact (Plugin.build_spec (by simp) built).1.extractValidator none
  | inEffect walk declares => exact declares.ordered walk.ordered.1
  | waiting walk declares => exact declares.ordered walk.ordered.2
  | openId walk _ => exact walk.ordered.2
  | validator walk carried _ =>
    -- the plugin of the security requirements may already be among those that wait
    obtain rfl | ⟨plugin, -, -, rfl⟩ := Cascade.withOpenId_cases carried
    · exact walk.ordered.2
    · exact walk.ordered.2.insert _

end Walks

/-- Plugin lists are in order. The list of every service and every route of the output is in
strictly increasing order of the bytes of names, with no name twice; so are the two lists of every
scope that the walk enters, and every list that the walk puts a plugin into. -/
theorem order_of_compile {fresh : Uuid} {options : Options} {doc : Document} {c : Configuration}
    (h : compile fresh options doc = .ok c) :
    (∀ owner ∈ c.services ++ c.routes, ∃ plugins,
      owner.get? "plugins" = some (.ofObjects plugins) ∧ ByteOrdered plugins ∧
        (plugins.map Plugin.name).Nodup) ∧
    ∃ ctx base, Context.ofRun fresh options doc = .ok (ctx, base) ∧
      (∀ build frame around, Walk ctx base build frame around →
        ByteOrdered frame.scope.plugins ∧ ByteOrdered frame.scope.pending) ∧
      ∀ plugins plugin, Insertion ctx base plugins plugin → ByteOrdered plugins := by
  obtain ⟨ctx, base, plan, hrun, hplan, rfl⟩ := exists_plan_of_compile h
  have planned := Plan.planned_of_of hplan
  refine ⟨?_, ctx, base, hrun, ?_, ?_⟩
  · intro owner howner
    obtain ⟨x, hx, hget⟩ := Plan.exists_kept_of_mem_owners howner
    have hord := (planned.sound_kept x hx).ordered.filter fun p => !Plugin.hasConsumer p
    exact ⟨_, (hget "plugins" (by decide)).trans (x.get?_plugins_complete ctx),
      byteOrdered_iff.2 hord, hord.nodup_names⟩
  · intro build frame around walk
    exact ⟨byteOrdered_iff.2 walk.ordered.1, byteOrdered_iff.2 walk.ordered.2⟩
  · intro plugins plugin insertion
    exact byteOrdered_iff.2 insertion.ordered

/-- A small document whose path adds a plugin to that of the document. -/
def gateDocument : Document :=
  ⟨[("info", .obj [("title", .str "Gate")]),
    ("paths", .obj [("/ring", .obj [("x-kong-plugin-acl", .obj []),
      ("x-kong-service-defaults", .obj [])])]),
    ("x-kong-plugin-cors", .obj [])], "3.0.0"⟩

/-- The service of the path has its plugin before that of the document. -/
theorem order_of_compile_gate :
    ∃ c, compile Uuid.dns { skipId := true } gateDocument = .ok c ∧
      c.services.map (fun s => (Configuration.pluginsOf s).map Plugin.name) = [["acl", "cors"]] ∧
      ∀ s ∈ c.services, ByteOrdered (Configuration.pluginsOf s) := by
  have hnames : ((compile Uuid.dns { skipId := true } gateDocument).toOption.map fun c =>
      c.services.map fun s => (Configuration.pluginsOf s).map Plugin.name) =
      some [["acl", "cors"]] := by
    decide +kernel
  obtain ⟨c, hc, hnames⟩ := Option.map_eq_some_iff.1 hnames
  rw [toOption_eq_some_iff] at hc
  refine ⟨c, hc, hnames, ?_⟩
  intro s hs
  obtain ⟨plugins, hplugins, hord, -⟩ :=
    (order_of_compile hc).1 s (List.mem_append_left _ hs)
  rwa [Configuration.pluginsOf, hplugins, objectsIn_ofObjects]

end ApiGateway
