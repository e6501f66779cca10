import ApiGateway.Proofs.Compilation.Plan
import ApiGateway.Proofs.Plugin.Declared

/-!
# What a scope hands down

Entering a scope either makes a service, and then nothing waits for the routes, or it leaves the
routes to the service around it, and then the plugins declared since that service was made wait.
All other parts of the cascade are computed alike in both cases. The inversion lemmas of this file
say everything about a scope that was entered and about the plugins of its routes; later proofs use
them in place of the code.

## Main definitions

* `Defaults.over`: defaults that replace others kind by kind.
* `makesService`: whether a scope with given defaults and servers of its own makes a service.
* `Cascade.Inside`: the relation between a scope and the scope around it.
* `Cascade.Top`: what the cascade of the document is.
* `Cascade.withOpenId`: the plugins of the routes of an operation before its validator.
-/
namespace ApiGateway

/-- Defaults that replace others kind by kind. -/
def Defaults.over (own inherited : Defaults) : Defaults :=
  ⟨own.service <|> inherited.service, own.upstream <|> inherited.upstream,
    own.route <|> inherited.route⟩

/-- Whether a scope with these defaults and servers of its own makes a service. -/
def makesService (own : Defaults) (ownServers : List Json) : Bool :=
  own.service.isSome || own.upstream.isSome || !ownServers.isEmpty

/-- A plugin of security requirements has the name of such plugins. -/
theorem name_of_openIdPlugin {doc : Document} {scheme plugin : Members} {required : Json}
    (h : openIdPlugin doc scheme required = .ok plugin) : Plugin.name plugin = openIdName := by
  simp only [openIdPlugin] at h
  obtain ⟨declared, -, h⟩ := bind_eq_ok_iff.1 h
  obtain ⟨config, -, h⟩ := bind_eq_ok_iff.1 h
  obtain rfl := Except.ok.inj h
  simp [Plugin.name, Members.string?, Members.get?_insert]

/-- The plugin in effect is inherited or has the name of such plugins. -/
theorem eq_or_name_of_openIdConnect {doc : Document} {ignoreErrors : Bool}
    {requirements : Option Json} {inherited : Option Members} {plugin : Members}
    (h : openIdConnect doc ignoreErrors requirements inherited = .ok (some plugin)) :
    inherited = some plugin ∨ Plugin.name plugin = openIdName := by
  have hrefuse : ∀ fault,
      (if ignoreErrors then .ok inherited else .error (Error.security fault)) =
        Except.ok (some plugin) → inherited = some plugin := by
    intro fault hfault
    split at hfault
    · exact Except.ok.inj hfault
    · cases hfault
  simp only [openIdConnect] at h
  cases hdemand : SecurityDemand.ofRequirements requirements with
  | inherit =>
    simp only [hdemand] at h
    exact Or.inl (Except.ok.inj h)
  | unsupported fault =>
    simp only [hdemand] at h
    exact Or.inl (hrefuse fault h)
  | scheme name required =>
    simp only [hdemand] at h
    obtain ⟨scheme, -, h⟩ := bind_eq_ok_iff.1 h
    split at h
    · obtain ⟨p, hp, h⟩ := bind_eq_ok_iff.1 h
      obtain rfl := Option.some.inj (Except.ok.inj h)
      exact Or.inr (name_of_openIdPlugin hp)
    · exact Or.inl (hrefuse _ h)

namespace Cascade

/-- What a scope inside another hands down, and the service it makes. -/
structure Inside (ctx : Context) (parent : Cascade) (object : Members) (name : String)
    (child : Cascade) (made : Option Made) : Prop where
  base_eq : child.base = ctx.naming.extend parent.base name
  openId_eq : child.openId = parent.openId
  servers_eq : child.servers =
    if (serversOf object).isEmpty then parent.servers else serversOf object
  lists : ∃ declared, Plugin.build ctx.doc ctx.stamp child.base object parent.plugins =
      .ok declared ∧
    (child.validator, child.plugins) = Plugin.extractValidator declared parent.validator
  own : ∃ own, declaredDefaults ctx.doc object = .ok own ∧
    child.defaults = own.over parent.defaults ∧
    ((makesService own (serversOf object) = true ∧ child.pending = [] ∧
        ∃ m, made = some m ∧ child.make ctx = .ok m) ∨
      (makesService own (serversOf object) = false ∧ made = none ∧
        ∃ waiting, Plugin.build ctx.doc ctx.stamp child.base object parent.pending = .ok waiting ∧
          child.pending = (Plugin.extractValidator waiting none).2))

/-- A scope that was entered is related to the scope around it. -/
theorem inside_of_enter {ctx : Context} {parent child : Cascade} {object : Members}
    {name : String} {made : Option Made}
    (h : parent.enter ctx object name = .ok (child, made)) :
    Inside ctx parent object name child made := by
  simp only [enter] at h
  generalize hbase : ctx.naming.extend parent.base name = base at h
  obtain ⟨own, hown, h⟩ := bind_eq_ok_iff.1 h
  obtain ⟨declared, hdeclared, h⟩ := bind_eq_ok_iff.1 h
  by_cases hmakes : makesService own (serversOf object) = true
  · rw [if_pos (by simpa [makesService] using hmakes)] at h
    obtain ⟨m, hm, h⟩ := bind_eq_ok_iff.1 h
    simp only [pure, Except.pure, Except.ok.injEq, Prod.mk.injEq] at h
    obtain ⟨rfl, rfl⟩ := h
    exact ⟨hbase.symm, rfl, rfl, ⟨declared, hdeclared, rfl⟩,
      ⟨own, hown, rfl, Or.inl ⟨hmakes, rfl, m, rfl, hm⟩⟩⟩
  · rw [if_neg (by simpa [makesService] using hmakes)] at h
    obtain ⟨waiting, hwaiting, h⟩ := bind_eq_ok_iff.1 h
    simp only [pure, Except.pure, Except.ok.injEq, Prod.mk.injEq] at h
    obtain ⟨rfl, rfl⟩ := h
    exact ⟨hbase.symm, rfl, rfl, ⟨declared, hdeclared, rfl⟩,
      ⟨own, hown, rfl, Or.inr ⟨by simpa using hmakes, rfl, waiting, hwaiting, rfl⟩⟩⟩

/-- The plugin that the security requirements of the document stand for, when it is asked for. -/
def documentOpenId (ctx : Context) : Except Error (Option Members) :=
  if ctx.options.openId then
    openIdConnect ctx.doc ctx.options.ignoreSecurityErrors ctx.doc.security? none
  else .ok none

theorem name_of_documentOpenId {ctx : Context} {plugin : Members}
    (h : documentOpenId ctx = .ok (some plugin)) : Plugin.name plugin = openIdName := by
  unfold documentOpenId at h
  split at h
  · obtain hnone | hname := eq_or_name_of_openIdConnect h
    · cases hnone
    · exact hname
  · cases h

theorem openId_of_documentOpenId {ctx : Context} {plugin : Members}
    (h : documentOpenId ctx = .ok (some plugin)) : ctx.options.openId = true := by
  unfold documentOpenId at h
  split at h
  · assumption
  · cases h

/-- What the document hands down, and the service it makes. -/
structure Top (ctx : Context) (base : String) (root : Cascade) (made : Made) : Prop where
  base_eq : root.base = base
  openId_eq : documentOpenId ctx = .ok root.openId
  servers_eq : root.servers = ctx.doc.servers
  defaults_eq : declaredDefaults ctx.doc ctx.doc.root = .ok root.defaults
  pending_eq : root.pending = []
  make_eq : root.make ctx = .ok made
  lists : ∃ declared, Plugin.build ctx.doc ctx.stamp base ctx.doc.root [] = .ok declared ∧
    root.validator = (Plugin.extractValidator declared none).1 ∧
    root.plugins = match root.openId with
      | some plugin => Plugin.insert (Plugin.extractValidator declared none).2
          (Plugin.restamp ctx.stamp base plugin)
      | none => (Plugin.extractValidator declared none).2

/-- The cascade of a document is what the document hands down. -/
theorem top_of_ofDocument {ctx : Context} {base : String} {root : Cascade} {made : Made}
    (h : ofDocument ctx base = .ok (root, made)) : Top ctx base root made := by
  simp only [ofDocument] at h
  obtain ⟨defaults, hdefaults, h⟩ := bind_eq_ok_iff.1 h
  obtain ⟨declared, hdeclared, h⟩ := bind_eq_ok_iff.1 h
  have hrest : ∃ openId, documentOpenId ctx = .ok openId ∧ (do
      let plugins := match openId with
        | some plugin => Plugin.insert (Plugin.extractValidator declared none).2
            (Plugin.restamp ctx.stamp base plugin)
        | none => (Plugin.extractValidator declared none).2
      let cascade : Cascade := ⟨base, defaults, ctx.doc.servers, plugins, [],
        (Plugin.extractValidator declared none).1, openId⟩
      return (cascade, ← cascade.make ctx)) = Except.ok (root, made) := by
    simp only [documentOpenId]
    by_cases hopen : ctx.options.openId = true
    · rw [if_pos hopen] at h ⊢
      exact bind_eq_ok_iff.1 h
    · rw [if_neg hopen] at h ⊢
      exact ⟨none, rfl, h⟩
  obtain ⟨openId, hopenId, h⟩ := hrest
  obtain ⟨m, hm, h⟩ := bind_eq_ok_iff.1 h
  simp only [pure, Except.pure, Except.ok.injEq, Prod.mk.injEq] at h
  obtain ⟨rfl, rfl⟩ := h
  exact ⟨rfl, hopenId, rfl, hdefaults, rfl, hm, ⟨declared, hdeclared, rfl, rfl⟩⟩

/-- The plugins of the document are in the order of their names. -/
theorem Top.ordered {ctx : Context} {base : String} {root : Cascade} {made : Made}
    (top : Top ctx base root made) : Plugin.Ordered root.plugins := by
  obtain ⟨declared, hdeclared, -, hplugins⟩ := top.lists
  have hextract := (Plugin.build_spec (by simp) hdeclared).1.extractValidator none
  rw [hplugins]
  split
  · exact hextract.insert _
  · exact hextract

/-- In effect for the document are the plugin of its security requirements and those it declares
under other names, without the validator. -/
theorem Top.find?_plugins {ctx : Context} {base : String} {root : Cascade} {made : Made}
    (top : Top ctx base root made) (n : String) :
    Plugin.find? root.plugins n = if n = Plugin.validatorName then none else
      ((root.openId.filter fun _ => n = openIdName) <|>
        Plugin.declared? ctx.doc ctx.doc.root n).map (Plugin.restamp ctx.stamp base) := by
  obtain ⟨declared, hdeclared, -, hplugins⟩ := top.lists
  obtain ⟨hord, hfind⟩ := Plugin.build_spec (by simp) hdeclared
  have hdirectives : Plugin.find? (Plugin.extractValidator declared none).2 n =
      if n = Plugin.validatorName then none else
        (Plugin.declared? ctx.doc ctx.doc.root n).map (Plugin.restamp ctx.stamp base) := by
    rw [Plugin.find?_extractValidator, hfind]
    simp [Plugin.find?]
  cases hopenId : root.openId with
  | none =>
    simp only [hopenId] at hplugins
    rw [hplugins, hdirectives]
    rfl
  | some plugin =>
    have hname : Plugin.name plugin = openIdName :=
      name_of_documentOpenId (hopenId ▸ top.openId_eq)
    simp only [hopenId] at hplugins
    rw [hplugins, Plugin.find?_insert (hord.extractValidator none), Plugin.name_restamp, hname,
      hdirectives]
    by_cases hn : n = openIdName
    · -- the plugin of the security requirements is not the validator
      have hne : openIdName ≠ Plugin.validatorName := by decide
      simp [hn, hne]
    · simp [hn]

/-! ## The plugins of routes -/

/-- The plugins of the routes of an operation before its validator: those that wait for them, with
its own OpenID Connect plugin when that differs from the one in effect. -/
def withOpenId (ctx : Context) (scope : Cascade) (operation : Members) :
    Except Error (List Members) :=
  if ctx.options.openId && operation.has "security" then do
    match ← openIdConnect ctx.doc ctx.options.ignoreSecurityErrors (operation.get? "security")
        scope.openId with
    | none => return scope.pending
    | some plugin =>
      if (scope.openId.map fun other => Json.sameMembers plugin other).getD false then
        return scope.pending
      else return Plugin.insert scope.pending (Plugin.restamp ctx.stamp scope.base plugin)
  else .ok scope.pending

/-- The validator of an operation comes last. -/
theorem operationPlugins_eq (ctx : Context) (scope : Cascade) (operation : Members)
    (parameters : List Parameter) (body : Option RequestBody) :
    scope.operationPlugins ctx operation parameters body = (do
      let own ← scope.withOpenId ctx operation
      match ← requestValidator ctx.doc ctx.naming ctx.stamp scope.base parameters body
          scope.validator with
      | some plugin => return Plugin.insert own plugin
      | none => return own) := by
  simp only [operationPlugins, withOpenId]
  split
  · cases openIdConnect ctx.doc ctx.options.ignoreSecurityErrors (operation.get? "security")
        scope.openId with
    | error e => rfl
    | ok openId =>
      cases openId with
      | none => rfl
      | some plugin =>
        simp only [ok_bind]
        split <;> rfl
  · rfl

/-- The plugins of routes are those before the validator, with the validator put in if there is
one. -/
theorem operationPlugins_cases {ctx : Context} {scope : Cascade} {operation : Members}
    {parameters : List Parameter} {body : Option RequestBody} {plugins : List Members}
    (h : scope.operationPlugins ctx operation parameters body = .ok plugins) :
    ∃ own, scope.withOpenId ctx operation = .ok own ∧ (plugins = own ∨
      ∃ plugin, requestValidator ctx.doc ctx.naming ctx.stamp scope.base parameters body
          scope.validator = .ok (some plugin) ∧ plugins = Plugin.insert own plugin) := by
  rw [operationPlugins_eq] at h
  obtain ⟨own, hown, h⟩ := bind_eq_ok_iff.1 h
  obtain ⟨validator, hvalidator, h⟩ := bind_eq_ok_iff.1 h
  refine ⟨own, hown, ?_⟩
  cases validator with
  | none => exact Or.inl (Except.ok.inj h).symm
  | some plugin => exact Or.inr ⟨plugin, hvalidator, (Except.ok.inj h).symm⟩

/-- Before the validator the plugins of routes are the waiting ones, or these with the plugin of
the security requirements that the operation has itself. -/
theorem withOpenId_cases {ctx : Context} {scope : Cascade} {operation : Members}
    {own : List Members} (h : scope.withOpenId ctx operation = .ok own) :
    own = scope.pending ∨ ∃ plugin,
      (ctx.options.openId = true ∧ operation.has "security" = true) ∧
      openIdConnect ctx.doc ctx.options.ignoreSecurityErrors (operation.get? "security")
        scope.openId = .ok (some plugin) ∧
      own = Plugin.insert scope.pending (Plugin.restamp ctx.stamp scope.base plugin) := by
  unfold withOpenId at h
  split at h
  · rename_i hasked
    obtain ⟨openId, hopenId, h⟩ := bind_eq_ok_iff.1 h
    cases openId with
    | none => exact Or.inl (Except.ok.inj h).symm
    | some plugin =>
      simp only at h
      split at h
      · exact Or.inl (Except.ok.inj h).symm
      · exact Or.inr ⟨plugin, Bool.and_eq_true_iff.1 hasked, hopenId, (Except.ok.inj h).symm⟩
  · exact Or.inl (Except.ok.inj h).symm

end Cascade

end ApiGateway
