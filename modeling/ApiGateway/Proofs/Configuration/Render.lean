import ApiGateway.Configuration.Render
import ApiGateway.Proofs.Json.ReadBack

/-!
# Reading configurations back

The JSON text of a configuration is read as the configuration. Its fields are written in an order of
their own and come back as an object, which has the same parts.

## Main definitions

* `Configuration.Normal`: configurations of normal objects.

## Main results

* `Configuration.ofJson?_toJson`: the value of a configuration describes it.
* `Configuration.read?_render`, `Configuration.ofJson?_of_render`: what is written is the value of
  the configuration, and describes it.
* `Configuration.render_inj`: the text determines the configuration.
-/
namespace ApiGateway.Configuration

theorem objects?_ofObjects (objects : List Members) :
    objects? (.ofObjects objects) = some objects := by
  rw [objects?, Json.ofObjects, Json.asList?, Option.bind_some, List.mapM_map]
  induction objects with
  | nil => rfl
  | cons first rest ih => simp [Json.asObject?, ih]

/-- The value of a configuration describes it. -/
theorem ofJson?_toJson (c : Configuration) : ofJson? c.toJson = some c := by
  obtain ⟨version, services, upstreams, plugins⟩ := c
  by_cases h : plugins = [] <;>
    simp [toJson, fields, h, Members.ofList, ofJson?, Members.get?_insert, ofParts?,
      objects?_ofObjects, Json.asString?]

/-- A configuration of normal objects. -/
structure Normal (c : Configuration) : Prop where
  services : ∀ service ∈ c.services, (Json.obj service).Normal
  upstreams : ∀ up ∈ c.upstreams, (Json.obj up).Normal
  plugins : ∀ plugin ∈ c.plugins, (Json.obj plugin).Normal

/-- A configuration is written as its value. -/
theorem read?_render {c : Configuration} (h : c.Normal) :
    Json.read? (c.render .json) = some c.toJson := by
  have hobjects : ∀ objects : List Members, (∀ object ∈ objects, (Json.obj object).Normal) →
      (Json.ofObjects objects).ReadsAs (Json.ofObjects objects) := by
    intro objects hnormal
    refine (Json.Normal.arr fun item hitem => ?_).readsAs
    obtain ⟨object, hobject, rfl⟩ := List.mem_map.1 hitem
    exact hnormal object hobject
  have hfields : ∀ field ∈ c.fields, field.2.ReadsAs field.2 := by
    intro field hfield
    simp only [fields, List.mem_append, List.mem_cons, List.not_mem_nil, or_false] at hfield
    rcases hfield with (rfl | rfl | rfl) | hfield
    · exact Json.readsAs_str _
    · exact hobjects _ h.services
    · exact hobjects _ h.upstreams
    · -- the list of plugins is written unless it is empty
      split at hfield
      · cases hfield
      · obtain rfl := List.mem_singleton.1 hfield
        exact hobjects _ h.plugins
  exact Json.read?_of_readsAs (Json.readsAs_obj hfields)

/-- What is written for a configuration describes it. -/
theorem ofJson?_of_render {c : Configuration} (h : c.Normal) :
    (Json.read? (c.render .json)).bind ofJson? = some c := by
  rw [read?_render h, Option.bind_some, ofJson?_toJson]

/-- The text of a configuration determines it. -/
theorem render_inj {c c' : Configuration} (h : c.Normal) (h' : c'.Normal)
    (heq : c.render .json = c'.render .json) : c = c' := by
  have hread := ofJson?_of_render h
  rw [heq, ofJson?_of_render h'] at hread
  exact (Option.some.inj hread).symm

/-- The fields stand in the order in which they are written, and the list of plugins is left out. -/
example : Configuration.render .json ⟨currentFormat, [[("name", .str "menu")]], [], []⟩ =
    "\x7b\n  \"_format_version\": \"3.0\",\n  \"services\": [\n" ++
      "    \x7b\n      \"name\": \"menu\"\n    \x7d\n  ],\n  \"upstreams\": []\n\x7d\n" := by
  decide

end ApiGateway.Configuration
