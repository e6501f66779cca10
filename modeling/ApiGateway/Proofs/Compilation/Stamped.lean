import ApiGateway.Proofs.Compilation.Planned

/-!
# Stamped scopes

Every plugin of a scope is stamped with the base name of the scope, and both lists of a scope keep
the order of names. The plugins that the routes of an operation are to carry are the waiting ones,
with at most two more of fixed names.

## Main definitions

* `Cascade.Stamped`: the order of the two lists, with the stamps of the first one.
-/
namespace ApiGateway

open Plugin (Ordered find? validatorName)

namespace Cascade

/-- A scope whose lists are in order, whose plugins in effect are stamped for it, and whose
OpenID Connect plugin has the name of such plugins. -/
structure Stamped (ctx : Context) (scope : Cascade) : Prop where
  plugins : Ordered scope.plugins
  pending : Ordered scope.pending
  restamped : ∀ p ∈ scope.plugins, ∃ q, p = Plugin.restamp ctx.stamp scope.base q
  noValidator : ∀ p ∈ scope.plugins, Plugin.name p ≠ validatorName
  openId : ∀ p, scope.openId = some p → Plugin.name p = openIdName

theorem name_ne_of_mem_extractValidator {plugins : List Members} {fallback : Option Members}
    {p : Members} (h : p ∈ (Plugin.extractValidator plugins fallback).2) :
    Plugin.name p ≠ validatorName := by
  simpa [Plugin.isValidator] using Plugin.isValidator_of_mem_extractValidator h

theorem mem_of_mem_extractValidator {plugins : List Members} {fallback : Option Members}
    {p : Members} (h : p ∈ (Plugin.extractValidator plugins fallback).2) : p ∈ plugins :=
  List.mem_of_mem_filter h

/-- The cascade of the document is stamped. -/
theorem Stamped.top {ctx : Context} {base : String} {root : Cascade} {made : Made}
    (top : Top ctx base root made) : Stamped ctx root := by
  have hplugins : ∀ p ∈ root.plugins, Plugin.name p ≠ validatorName ∧
      ∃ q, p = Plugin.restamp ctx.stamp root.base q := by
    intro p hp
    have hfound := (Plugin.find?_eq_some_iff top.ordered.nodup_names).2 ⟨hp, rfl⟩
    rw [top.find?_plugins] at hfound
    split at hfound
    · cases hfound
    · rename_i hn
      obtain ⟨q, -, heq⟩ := Option.map_eq_some_iff.1 hfound
      exact ⟨hn, q, by rw [top.base_eq, heq]⟩
  exact ⟨top.ordered, top.pending_eq ▸ List.Pairwise.nil, fun p hp => (hplugins p hp).2,
    fun p hp => (hplugins p hp).1, fun p hp => name_of_documentOpenId (hp ▸ top.openId_eq)⟩

/-- A scope inside a stamped one is stamped. -/
theorem Stamped.enter {ctx : Context} {parent child : Cascade} {object : Members} {name : String}
    {made : Option Made} (h : Stamped ctx parent)
    (inside : Inside ctx parent object name child made) : Stamped ctx child := by
  obtain ⟨declared, hdeclared, hlists⟩ := inside.lists
  have hplugins : child.plugins = (Plugin.extractValidator declared parent.validator).2 :=
    congrArg Prod.snd hlists
  have hord := (Plugin.build_spec h.plugins.nodup_names hdeclared).1
  have hpending : Ordered child.pending := by
    obtain ⟨own, -, -, ⟨-, hnil, -⟩ | ⟨-, -, waiting, hwaiting, heq⟩⟩ := inside.own
    · exact hnil ▸ List.Pairwise.nil
    · rw [heq]
      exact (Plugin.build_spec h.pending.nodup_names hwaiting).1.extractValidator none
  refine ⟨hplugins ▸ hord.extractValidator _, hpending, ?_, ?_, ?_⟩
  · intro p hp
    rw [hplugins] at hp
    obtain ⟨q, hq, -⟩ := Plugin.cases_of_mem_build h.plugins.nodup_names hdeclared p
      (mem_of_mem_extractValidator hp)
    exact ⟨q, hq⟩
  · intro p hp
    rw [hplugins] at hp
    exact name_ne_of_mem_extractValidator hp
  · exact inside.openId_eq ▸ h.openId

/-- The validator of an operation is the template in effect, stamped for the operation, with a
configuration of its own. -/
theorem requestValidator_cases {doc : Document} {naming : Naming} {stamp : Stamp}
    {base : String} {parameters : List Parameter} {body : Option RequestBody}
    {template : Option Members} {plugin : Members}
    (h : requestValidator doc naming stamp base parameters body template = .ok (some plugin)) :
    ∃ declared config, template = some declared ∧ plugin = (Plugin.restamp stamp base
      (declared.insert "name" (.str validatorName))).insert "config" config := by
  unfold requestValidator at h
  cases template with
  | none => cases h
  | some declared =>
    obtain ⟨settings, -, h⟩ := bind_eq_ok_iff.1 h
    obtain ⟨settings', -, h⟩ := bind_eq_ok_iff.1 h
    obtain ⟨active, -, rfl⟩ := Option.map_eq_some_iff.1 (Except.ok.inj h)
    exact ⟨declared, _, rfl, rfl⟩

/-- The validator of an operation has the name of validators. -/
theorem name_of_requestValidator {doc : Document} {naming : Naming} {stamp : Stamp}
    {base : String} {parameters : List Parameter} {body : Option RequestBody}
    {template : Option Members} {plugin : Members}
    (h : requestValidator doc naming stamp base parameters body template = .ok (some plugin)) :
    Plugin.name plugin = validatorName := by
  obtain ⟨declared, config, -, rfl⟩ := requestValidator_cases h
  have hname := Plugin.name_restamp stamp base (declared.insert "name" (.str validatorName))
  simp only [Plugin.name, Members.string?, Members.get?_insert] at hname ⊢
  simpa using hname

section Operations
variable {ctx : Context} {scope : Cascade} {operation : Members}

/-- A plugin that the security requirements of an operation stand for has the name of such
plugins. -/
theorem Stamped.name_of_openIdConnect (hscope : Stamped ctx scope) {plugin : Members}
    (h : openIdConnect ctx.doc ctx.options.ignoreSecurityErrors (operation.get? "security")
      scope.openId = .ok (some plugin)) : Plugin.name plugin = openIdName := by
  obtain hinherited | hname := eq_or_name_of_openIdConnect h
  · exact hscope.openId plugin hinherited
  · exact hname

/-- Before the validator the plugins of routes are in order. The one that does not wait for them is
the OpenID Connect plugin of an operation with security requirements of its own. -/
theorem withOpenId_spec {own : List Members} (hscope : Stamped ctx scope)
    (h : scope.withOpenId ctx operation = .ok own) :
    Ordered own ∧ ∀ p ∈ own, p ∈ scope.pending ∨
      (Plugin.name p = openIdName ∧ ctx.options.openId = true ∧
        operation.has "security" = true) := by
  obtain rfl | ⟨plugin, hasked, hopenId, rfl⟩ := withOpenId_cases h
  · exact ⟨hscope.pending, fun p hp => Or.inl hp⟩
  · refine ⟨hscope.pending.insert _, ?_⟩
    intro p hp
    rw [Plugin.mem_insert hscope.pending] at hp
    obtain rfl | ⟨hp, -⟩ := hp
    · rw [Plugin.name_restamp]
      exact Or.inr ⟨hscope.name_of_openIdConnect hopenId, hasked⟩
    · exact Or.inl hp

/-- The plugins that the routes of an operation are to carry are in order. Those that do not wait
for them are the validator, and the OpenID Connect plugin of an operation with security
requirements of its own. -/
theorem operationPlugins_spec {parameters : List Parameter} {body : Option RequestBody}
    {plugins : List Members} (hscope : Stamped ctx scope)
    (h : scope.operationPlugins ctx operation parameters body = .ok plugins) :
    Ordered plugins ∧ ∀ p ∈ plugins, p ∈ scope.pending ∨
      (Plugin.name p = openIdName ∧ ctx.options.openId = true ∧ operation.has "security" = true) ∨
      Plugin.name p = validatorName := by
  obtain ⟨own, hown, rfl | ⟨plugin, hvalidator, rfl⟩⟩ := operationPlugins_cases h
  · obtain ⟨hord, hcases⟩ := withOpenId_spec hscope hown
    exact ⟨hord, fun p hp => (hcases p hp).imp_right Or.inl⟩
  · obtain ⟨hord, hcases⟩ := withOpenId_spec hscope hown
    refine ⟨hord.insert plugin, ?_⟩
    intro p hp
    rw [Plugin.mem_insert hord] at hp
    obtain rfl | ⟨hp, -⟩ := hp
    · exact Or.inr (Or.inr (name_of_requestValidator hvalidator))
    · exact (hcases p hp).imp_right Or.inl

end Operations

end Cascade

namespace Plan.Planned
variable {ctx : Context} {root : String} {plan : Plan} (h : plan.Planned ctx root)
include h

/-- A planned path of a plan, with a stamped scope. -/
theorem path_of_mem {p : PathPlan} (hp : p ∈ plan.paths) :
    (∃ entry, p.Planned ctx plan.root entry) ∧ p.cascade.Stamped ctx := by
  obtain ⟨entry, path⟩ := h.exists_path hp
  exact ⟨⟨entry, path⟩, (Cascade.Stamped.top h.top).enter path.inside⟩

/-- A planned operation of a plan, with a stamped scope. -/
theorem operation_of_mem {p : PathPlan} (hp : p ∈ plan.paths) {op : OperationPlan}
    (hop : op ∈ p.endpoints) :
    (∃ entry, op.Planned ctx p.cascade p.path p.object entry) ∧ op.cascade.Stamped ctx := by
  obtain ⟨⟨_, path⟩, hpath⟩ := h.path_of_mem hp
  obtain ⟨entry, planned⟩ := path.exists_operation hop
  exact ⟨⟨entry, planned⟩, hpath.enter planned.inside⟩

end Plan.Planned

end ApiGateway
