import ApiGateway.Directive
import ApiGateway.Entity.Stamp
import ApiGateway.Json.Print

/-!
# Plugin lists

Every scope has a list of plugins in the order of their names, at most one of a name. The list
of a scope starts from its parent's, and the directives of the scope replace plugins of the
same name. Plugins of a consumer leave their owner for the top level, where they refer back
to it.

## Main definitions

* `Plugin.restamp`: a plugin under a new owner.
* `Plugin.insert`: a plugin put into a sorted list, replacing one of its name.
* `Plugin.build`: the list of a scope.
* `Plugin.extractValidator`: the request validator taken out of a list.
* `Plugin.bubble`: the plugins of consumers taken out of a list.
* `Plugin.sortShared`: the order of the top level.
-/
namespace ApiGateway.Plugin

/-- The plugin that validates requests. -/
def validatorName : String := "request-validator"

/-- The name of a plugin, empty when it has none. -/
def name (plugin : Members) : String := (plugin.string? "name").getD ""

/-- A plugin with the identifier and the tags it has under an owner. -/
def restamp (stamp : Stamp) (base : String) (plugin : Members) : Members :=
  stamp.apply plugin base ("plugin." ++ name plugin)

/-- Halves a window of a list until one entry is left: the start of the window moves to its
middle unless the name there comes after the one sought. -/
def narrow (plugins : List Members) (sought : String) (start size : Nat) : Nat :=
  if h : 1 < size then
    let middle := start + size / 2
    let entry := name (plugins.getD middle [])
    narrow plugins sought (if sought < entry then start else middle) (size - size / 2)
  else start
termination_by size
decreasing_by omega

/-- Puts a plugin into a list in the order of names, replacing one of its name. -/
def insert (plugins : List Members) (plugin : Members) : List Members :=
  let sought := name plugin
  let i := narrow plugins sought 0 plugins.length
  match plugins[i]? with
  | none => [plugin]
  | some entry =>
    if name entry = sought then plugins.set i plugin
    else if name entry < sought then plugins.insertIdx (i + 1) plugin
    else plugins.insertIdx i plugin

/-- The plugins in the order of their names; plugins of one name keep their order. -/
def sortByName (plugins : List Members) : List Members :=
  plugins.mergeSort fun p q => !decide (name q < name p)

/-- The plugin that a directive of a scope declares, without references to owners. -/
def ofDirective (doc : Document) (stamp : Stamp) (base : String) (scope : Members)
    (key name : String) : Except Error (Option Members) := do
  if name = "" then .error (.extension key .missingPluginName)
  let declared ← Directive.object? doc scope key
  return declared.map fun plugin =>
    restamp stamp base (((plugin.erase "service").erase "route").insert "name" (.str name))

/-- The plugin directives of a scope in the order of their keys, with the plugin names. -/
def directives (scope : Members) : List (String × String) :=
  scope.keys.filterMap fun key =>
    (Text.after? Directive.pluginStart.toList key.toList).map fun name =>
      (key, String.ofList name)

/-- The list of a scope: the inherited plugins under the new owner, overridden and extended by
the directives of the scope. -/
def build (doc : Document) (stamp : Stamp) (base : String) (scope : Members)
    (inherited : List Members) : Except Error (List Members) :=
  (directives scope).foldlM (fun plugins (key, name) => do
      match ← ofDirective doc stamp base scope key name with
      | some plugin => return insert plugins plugin
      | none => return plugins)
    (sortByName (inherited.map (restamp stamp base)))

/-- Whether a plugin validates requests. -/
def isValidator (plugin : Members) : Bool := name plugin == validatorName

/-- Takes the request validator out of a list. Without one the fallback takes its place. -/
def extractValidator (plugins : List Members) (fallback : Option Members) :
    Option Members × List Members :=
  (plugins.find? isValidator <|> fallback, plugins.filter fun p => !isValidator p)

/-- Whether a plugin belongs to a consumer. -/
def hasConsumer (plugin : Members) : Bool :=
  match plugin.get? "consumer" with
  | none | some .null | some (.str "") | some (.obj []) => false
  | some _ => true

/-- Splits a list into the plugins of consumers, which refer to their owner by a field, and
those that stay with it. -/
def bubble (field : String) (owner : Json) (plugins : List Members) :
    List Members × List Members :=
  ((plugins.filter hasConsumer).map fun p => p.insert field owner,
    plugins.filter fun p => !hasConsumer p)

/-- The text that a field of a plugin sorts by. -/
def sortText (plugin : Members) (key : String) : String :=
  match plugin.get? key with
  | none => ""
  | some value => value.plainText

/-- What a plugin of the top level sorts by. -/
def sortKey (plugin : Members) : List String :=
  ["name", "service", "route", "consumer"].map (sortText plugin)

/-- The plugins of the top level in the order of name, service, route and consumer. -/
def sortShared (plugins : List Members) : List Members :=
  plugins.mergeSort fun p q => !decide (sortKey q < sortKey p)

/-- Taking the validator out leaves no validator behind. -/
theorem isValidator_of_mem_extractValidator {plugins : List Members} {fallback : Option Members}
    {p : Members} (h : p ∈ (extractValidator plugins fallback).2) : isValidator p = false := by
  simp [extractValidator] at h
  exact h.2

end ApiGateway.Plugin
