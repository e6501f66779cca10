import ApiGateway.Proofs.Compilation.Stamped

/-!
# Plugins without references to owners

A directive cannot say what its plugin belongs to: the fields that would are erased before the
plugin enters a list, and no later step sets them. So a plugin of a scope or a route refers to no
owner until it leaves the owner for the top level. The one exception is the OpenID Connect plugin
that is derived from a security scheme, whose fields come from the scheme as they are.

## Main definitions

* `Plugin.Unbound`: a plugin that refers to no owner.
* `Plugin.AllUnbound`: a list of such plugins, but for the one of OpenID Connect when it is derived.
* `Cascade.Unbound`: the invariant of scopes.
-/
namespace ApiGateway

open Plugin (Ordered validatorName)

namespace Plugin

/-- A plugin that refers to no owner. -/
def Unbound (plugin : Members) : Prop :=
  plugin.get? "service" = none ∧ plugin.get? "route" = none

/-- All plugins refer to no owner, but for the one of OpenID Connect when runs derive it. -/
def AllUnbound (openId : Bool) (plugins : List Members) : Prop :=
  ∀ p ∈ plugins, (openId = true → name p ≠ openIdName) → Unbound p

@[simp] theorem unbound_restamp (stamp : Stamp) (base : String) (plugin : Members) :
    Unbound (restamp stamp base plugin) ↔ Unbound plugin := by
  simp [Unbound, restamp, Stamp.get?_apply_of_ne]

/-- Other fields than the references may be set. -/
theorem Unbound.insert {plugin : Members} (h : Unbound plugin) {key : String} (value : Json)
    (hservice : "service" ≠ key) (hroute : "route" ≠ key) :
    Unbound (Members.insert plugin key value) := by
  constructor
  · simpa [Members.get?_insert, hservice] using h.1
  · simpa [Members.get?_insert, hroute] using h.2

/-- The references of a directive are erased. -/
theorem unbound_of_declared? {doc : Document} {object : Members} {sought : String} {p : Members}
    (h : declared? doc object sought = some p) : Unbound p := by
  unfold declared? at h
  split at h
  · obtain rfl := Option.some.inj h
    constructor
    · simp [Members.get?_insert, Members.get?_erase]
    · simp [Members.get?_insert]
  · cases h

theorem allUnbound_nil (openId : Bool) : AllUnbound openId [] := by
  intro p hp
  cases hp

section Lists
variable {openId : Bool} {plugins : List Members}

theorem AllUnbound.insert (h : AllUnbound openId plugins) (hord : Ordered plugins)
    {plugin : Members} (hplugin : (openId = true → name plugin ≠ openIdName) → Unbound plugin) :
    AllUnbound openId (Plugin.insert plugins plugin) := by
  intro p hp hname
  rw [mem_insert hord] at hp
  obtain rfl | ⟨hp, -⟩ := hp
  · exact hplugin hname
  · exact h p hp hname

/-- A new owner gives a plugin no reference. -/
theorem AllUnbound.map_restamp (h : AllUnbound openId plugins) (stamp : Stamp) (base : String) :
    AllUnbound openId (plugins.map (restamp stamp base)) := by
  intro p hp hname
  obtain ⟨q, hq, rfl⟩ := List.mem_map.1 hp
  rw [name_restamp] at hname
  rw [unbound_restamp]
  exact h q hq hname

theorem AllUnbound.extractValidator (h : AllUnbound openId plugins) (fallback : Option Members) :
    AllUnbound openId (Plugin.extractValidator plugins fallback).2 :=
  fun p hp => h p (List.mem_of_mem_filter hp)

/-- A validator taken out of a list, or standing in for one, refers to no owner. -/
theorem AllUnbound.validator (h : AllUnbound openId plugins) {fallback : Option Members}
    (hfallback : ∀ p, fallback = some p → Unbound p) {p : Members}
    (hp : (Plugin.extractValidator plugins fallback).1 = some p) : Unbound p := by
  simp only [Plugin.extractValidator] at hp
  cases hfound : plugins.find? isValidator with
  | none =>
    rw [hfound] at hp
    exact hfallback p hp
  | some q =>
    rw [hfound] at hp
    obtain rfl : q = p := Option.some.inj hp
    have hname : name q = validatorName := by
      simpa [isValidator] using List.find?_some hfound
    refine h q (List.mem_of_find?_eq_some hfound) fun _ => ?_
    rw [hname]
    decide

/-- Neither inherited plugins nor directives bring references into the list of a scope. -/
theorem AllUnbound.build (h : AllUnbound openId plugins) (hord : Ordered plugins) {doc : Document}
    {stamp : Stamp} {base : String} {object : Members} {result : List Members}
    (hbuild : Plugin.build doc stamp base object plugins = .ok result) :
    AllUnbound openId result := by
  intro p hp hname
  obtain ⟨q, rfl, hdeclared | hq⟩ := cases_of_mem_build hord.nodup_names hbuild p hp
  · rw [unbound_restamp]
    exact unbound_of_declared? hdeclared
  · rw [unbound_restamp]
    rw [name_restamp] at hname
    exact h q hq hname

end Lists

end Plugin

open Plugin (AllUnbound)

namespace Cascade

/-- A scope whose plugins refer to no owners. -/
structure Unbound (openId : Bool) (scope : Cascade) : Prop where
  plugins : AllUnbound openId scope.plugins
  pending : AllUnbound openId scope.pending
  validator : ∀ p, scope.validator = some p → Plugin.Unbound p

/-- The plugins of the document refer to no owners. -/
theorem Unbound.top {ctx : Context} {base : String} {root : Cascade} {made : Made}
    (top : Top ctx base root made) : Unbound ctx.options.openId root := by
  obtain ⟨declared, hdeclared, hvalidator, hplugins⟩ := top.lists
  have hord := (Plugin.build_spec (by simp) hdeclared).1
  have hdirectives := (Plugin.allUnbound_nil ctx.options.openId).build List.Pairwise.nil hdeclared
  refine ⟨?_, ?_, ?_⟩
  · rw [hplugins]
    split
    · rename_i plugin hopenId
      refine (hdirectives.extractValidator none).insert (hord.extractValidator none) ?_
      intro hname
      rw [Plugin.name_restamp] at hname
      have hderived : documentOpenId ctx = .ok (some plugin) := hopenId ▸ top.openId_eq
      exact absurd (name_of_documentOpenId hderived) (hname (openId_of_documentOpenId hderived))
    · exact hdirectives.extractValidator none
  · rw [top.pending_eq]
    exact Plugin.allUnbound_nil _
  · intro p hp
    rw [hvalidator] at hp
    exact hdirectives.validator (by simp) hp

/-- Inside a scope whose plugins refer to no owners they still do not. -/
theorem Unbound.enter {openId : Bool} {ctx : Context} {parent child : Cascade} {object : Members}
    {name : String} {made : Option Made} (h : Unbound openId parent) (hparent : Stamped ctx parent)
    (inside : Inside ctx parent object name child made) : Unbound openId child := by
  obtain ⟨declared, hdeclared, hlists⟩ := inside.lists
  have hdirectives := h.plugins.build hparent.plugins hdeclared
  refine ⟨?_, ?_, ?_⟩
  · rw [show child.plugins = _ from congrArg Prod.snd hlists]
    exact hdirectives.extractValidator _
  · obtain ⟨own, -, -, ⟨-, hnil, -⟩ | ⟨-, -, waiting, hwaiting, hpending⟩⟩ := inside.own
    · rw [hnil]
      exact Plugin.allUnbound_nil _
    · rw [hpending]
      exact (h.pending.build hparent.pending hwaiting).extractValidator none
  · intro p hp
    rw [show child.validator = _ from congrArg Prod.fst hlists] at hp
    exact hdirectives.validator h.validator hp

section Operations
variable {ctx : Context} {scope : Cascade} {operation : Members}
variable (h : Unbound ctx.options.openId scope)
include h

/-- The validator of an operation refers to no owner, as its template does not. -/
theorem Unbound.requestValidator {parameters : List Parameter}
    {body : Option RequestBody} {plugin : Members}
    (hvalidator : requestValidator ctx.doc ctx.naming ctx.stamp scope.base parameters body
      scope.validator = .ok (some plugin)) : Plugin.Unbound plugin := by
  obtain ⟨declared, config, htemplate, rfl⟩ := requestValidator_cases hvalidator
  refine Plugin.Unbound.insert ?_ config (by decide) (by decide)
  rw [Plugin.unbound_restamp]
  exact (h.validator declared htemplate).insert _ (by decide) (by decide)

theorem Unbound.withOpenId (hscope : Stamped ctx scope) {own : List Members}
    (hown : scope.withOpenId ctx operation = .ok own) : AllUnbound ctx.options.openId own := by
  obtain rfl | ⟨plugin, ⟨hderives, -⟩, hopenId, rfl⟩ := withOpenId_cases hown
  · exact h.pending
  · refine h.pending.insert hscope.pending ?_
    intro hname
    rw [Plugin.name_restamp] at hname
    exact absurd (hscope.name_of_openIdConnect hopenId) (hname hderives)

/-- The plugins that the routes of an operation are to carry refer to no owners. -/
theorem Unbound.operationPlugins (hscope : Stamped ctx scope)
    {parameters : List Parameter} {body : Option RequestBody} {plugins : List Members}
    (hplugins : scope.operationPlugins ctx operation parameters body = .ok plugins) :
    AllUnbound ctx.options.openId plugins := by
  obtain ⟨own, hown, rfl | ⟨plugin, hvalidator, rfl⟩⟩ := operationPlugins_cases hplugins
  · exact h.withOpenId hscope hown
  · exact (h.withOpenId hscope hown).insert (withOpenId_spec hscope hown).1
      fun _ => h.requestValidator hvalidator

end Operations

end Cascade

end ApiGateway
