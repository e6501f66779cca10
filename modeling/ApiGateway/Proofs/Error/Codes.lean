import ApiGateway.Compilation.Compile
import ApiGateway.Proofs.Outcome
import ApiGateway.Proofs.Validation.Collection

/-!
# Which part fails with which code

Every part of a compilation fails with errors of its own few groups. The codes of a composed step
are those of its parts, so the codes of a whole walk are read off from the codes of its leaves.

## Main definitions

* `FailsOnly`: an outcome that fails, if it does, with an error of one of some codes.
* `referenceCodes`, `directiveCodes`: the codes of following references and of reading directives.

## Main results

* `failsOnly_resolve`, `failsOnly_object?`, `failsOnly_service`, `failsOnly_routePath`, …: one lemma
  for each part.
* `failsOnly_openIdConnect`: the code of security requirements takes a run that heeds them.
-/
namespace ApiGateway

section FailsOnly
variable {α β σ : Type} {codes more : List String}

/-- An outcome that fails, if it does, with an error of one of the codes. -/
def FailsOnly (codes : List String) (x : Except Error α) : Prop :=
  ∀ e, x = .error e → e.code ∈ codes

namespace FailsOnly

theorem ok (a : α) : FailsOnly codes (.ok a) := by
  intro e h
  cases h

theorem error {e : Error} (h : e.code ∈ codes) : FailsOnly codes (.error e : Except Error α) := by
  intro e' he
  cases he
  exact h

theorem mono {x : Except Error α} (h : FailsOnly codes x) (hsub : codes ⊆ more) :
    FailsOnly more x :=
  fun e he => hsub (h e he)

/-- A step and what follows it fail only with the codes of both. -/
theorem bind {x : Except Error α} {f : α → Except Error β} (hx : FailsOnly codes x)
    (hf : ∀ a, FailsOnly codes (f a)) : FailsOnly codes (x >>= f) := by
  intro e h
  cases x with
  | error e' =>
    cases h
    exact hx e rfl
  | ok a => exact hf a e h

theorem map {x : Except Error α} (f : α → β) (hx : FailsOnly codes x) :
    FailsOnly codes (x.map f) := by
  intro e h
  cases x with
  | error e' =>
    cases h
    exact hx e rfl
  | ok a => cases h

/-- A step along a list fails only with the codes of the step. -/
theorem mapM {f : α → Except Error β} {items : List α} (hf : ∀ a ∈ items, FailsOnly codes (f a)) :
    FailsOnly codes (items.mapM f) := by
  induction items with
  | nil => exact ok _
  | cons a rest ih =>
    rw [List.mapM_cons]
    refine bind (hf a List.mem_cons_self) fun b => ?_
    exact bind (ih fun c hc => hf c (List.mem_cons_of_mem _ hc)) fun bs => ok _

/-- So does a step that updates a state. -/
theorem foldlM {step : σ → α → Except Error σ} {items : List α} (state : σ)
    (hstep : ∀ s, ∀ a ∈ items, FailsOnly codes (step s a)) :
    FailsOnly codes (items.foldlM step state) := by
  induction items generalizing state with
  | nil => exact ok _
  | cons a rest ih =>
    rw [List.foldlM_cons]
    refine bind (hstep state a List.mem_cons_self) fun s => ?_
    exact ih s fun t b hb => hstep t b (List.mem_cons_of_mem _ hb)

end FailsOnly

end FailsOnly

/-! ## Documents -/

/-- The codes of following references. -/
def referenceCodes : List String := ["E1003", "E1005"]

/-- The codes of reading directives that stand for objects. -/
def directiveCodes : List String := ["E2001", "E2002"]

namespace Document
variable (doc : Document)

theorem failsOnly_resolve (value : Json) : FailsOnly referenceCodes (doc.resolve value) := by
  have hwithin : ∀ hops value, FailsOnly referenceCodes (doc.resolveWithin hops value) := by
    intro hops
    induction hops with
    | zero =>
      intro value
      exact .error (by simp [Error.code, referenceCodes])
    | succ hops ih =>
      intro value
      rw [resolveWithin]
      split
      · exact .ok _
      · split
        · exact .error (by simp [Error.code, referenceCodes])
        · exact ih _
  exact hwithin _ value

theorem failsOnly_securityScheme (name : String) :
    FailsOnly ["E1003", "E1004", "E1005"] (doc.securityScheme name) := by
  unfold securityScheme
  dsimp only
  split
  · exact .error (by simp [Error.code])
  · refine ((doc.failsOnly_resolve _).mono (by simp [referenceCodes])).bind fun value => ?_
    split
    · exact .ok _
    · exact .error (by simp [Error.code])

theorem failsOnly_pathItems : FailsOnly ["E1003", "E1004", "E1005"] doc.pathItems := by
  refine FailsOnly.mapM fun entry _ => ?_
  refine ((doc.failsOnly_resolve _).mono (by simp [referenceCodes])).bind fun value => ?_
  split
  · exact .ok _
  · exact .error (by simp [Error.code])

theorem failsOnly_parameters (item operation : Members) :
    FailsOnly referenceCodes (doc.parameters item operation) := by
  have hlisted : ∀ scope, FailsOnly referenceCodes (doc.listedParameters scope) := fun scope =>
    (FailsOnly.mapM fun entry _ => doc.failsOnly_resolve entry).bind fun entries => .ok _
  exact (hlisted item).bind fun shared => (hlisted operation).bind fun own => .ok _

theorem failsOnly_requestBody (operation : Members) :
    FailsOnly referenceCodes (doc.requestBody operation) := by
  unfold requestBody
  split
  · exact .ok _
  · refine (doc.failsOnly_resolve _).bind fun value => ?_
    split
    · split <;> exact .ok _
    · exact .ok _

/-- Extracting a schema fails only at a reference that leads nowhere. -/
theorem failsOnly_extractSchema (schema : Option Json) :
    FailsOnly referenceCodes (doc.extractSchema schema) := by
  have hwalk : ∀ (visit : String → Collected → Except Error Collected),
      (∀ r c, FailsOnly referenceCodes (visit r c)) →
      ∀ schema c, FailsOnly referenceCodes (walkSchema visit schema c) := by
    intro visit hvisit schema c
    rw [walkSchema_eq_foldlM]
    exact FailsOnly.foldlM c fun s r _ => hvisit r s
  have hcollect : ∀ depth r c, FailsOnly referenceCodes (doc.collectReference depth r c) := by
    intro depth
    induction depth with
    | zero => exact fun r c => .ok c
    | succ depth ih =>
      intro r c
      rw [collectReference]
      split
      · exact .ok c
      · split
        · exact .error (by simp [Error.code, referenceCodes])
        · exact hwalk _ ih _ _
  unfold extractSchema
  split
  · exact .ok _
  · exact ((hwalk _ (hcollect _) _ _).bind fun collected => .ok _).map Json.compact

end Document

theorem failsOnly_operations (path : String) (item : Members) :
    FailsOnly ["E1004"] (operations path item) := by
  refine FailsOnly.mapM fun entry _ => ?_
  obtain ⟨method, value⟩ := entry
  dsimp only
  split
  · exact .ok _
  · exact .error (by simp [Error.code])

/-! ## Directives and plugins -/

namespace Directive

theorem failsOnly_name? (scope : Members) : FailsOnly ["E2007"] (name? scope) := by
  unfold name?
  split
  · exact .ok _
  · exact .ok _
  · exact .error (by simp [Error.code])

theorem failsOnly_tags? (doc : Document) : FailsOnly ["E2007"] (tags? doc) := by
  unfold tags?
  split
  · exact .ok _
  · split
    · exact .ok _
    · exact .error (by simp [Error.code])

theorem failsOnly_object? (doc : Document) (scope : Members) (key : String) :
    FailsOnly directiveCodes (object? doc scope key) := by
  have hcomponents : FailsOnly directiveCodes (components? doc) := by
    unfold components?
    split
    · exact .ok _
    · exact .ok _
    · exact .error (by simp [Error.code, directiveCodes])
  have hdescend : ∀ reference segments current walked,
      FailsOnly directiveCodes (descend reference current walked segments) := by
    intro reference segments
    induction segments with
    | nil => exact fun current walked => .ok current
    | cons segment rest ih =>
      intro current walked
      rw [descend]
      split
      · exact .error (by simp [Error.code, directiveCodes])
      · exact ih _ _
      · exact .error (by simp [Error.code, directiveCodes])
  have hdereference : ∀ value, FailsOnly directiveCodes (dereference doc value) := by
    intro value
    unfold dereference
    split
    · exact .ok _
    · split
      · exact .error (by simp [Error.code, directiveCodes])
      · refine hcomponents.bind fun components => ?_
        split
        · exact .error (by simp [Error.code, directiveCodes])
        · exact hdescend _ _ _ _
    · exact .error (by simp [Error.code, directiveCodes])
  unfold object?
  split
  · exact .ok _
  · exact (hdereference _).map some
  · exact .error (by simp [Error.code, directiveCodes])

end Directive

theorem failsOnly_declaredDefaults (doc : Document) (object : Members) :
    FailsOnly directiveCodes (declaredDefaults doc object) :=
  (Directive.failsOnly_object? doc object _).bind fun _ =>
    (Directive.failsOnly_object? doc object _).bind fun _ =>
      (Directive.failsOnly_object? doc object _).bind fun _ => .ok _

namespace Plugin

theorem failsOnly_build (doc : Document) (stamp : Stamp) (base : String) (scope : Members)
    (inherited : List Members) :
    FailsOnly directiveCodes (build doc stamp base scope inherited) := by
  refine FailsOnly.foldlM _ fun plugins entry _ => ?_
  obtain ⟨key, name⟩ := entry
  have hdirective : FailsOnly directiveCodes (ofDirective doc stamp base scope key name) := by
    unfold ofDirective
    split
    · exact .error (by simp [Error.code, directiveCodes])
    · exact (Directive.failsOnly_object? doc scope key).bind fun declared => .ok _
  refine hdirective.bind fun found => ?_
  split <;> exact .ok _

end Plugin

/-! ## Entities -/

theorem failsOnly_service (stamp : Stamp) (base : String) (servers : List Json)
    (defaults : Defaults) (readUri : String → Except UriError Uri) :
    FailsOnly ["E2003"] (service stamp base servers defaults readUri) := by
  have hparse : ∀ server, FailsOnly ["E2003"] (Target.parse server readUri) := by
    intro server
    unfold Target.parse
    split
    · exact .error (by simp [Error.code])
    · dsimp only
      split
      · exact .error (by simp [Error.code])
      · exact .ok _
  have htargets : FailsOnly ["E2003"] (Target.parseAll servers readUri) := by
    unfold Target.parseAll
    split
    · exact .ok _
    · exact FailsOnly.mapM fun server _ => hparse server
  refine htargets.bind fun targets => ?_
  dsimp only
  split
  · exact .ok _
  · split <;> exact .ok _

theorem Cascade.failsOnly_make (ctx : Context) (scope : Cascade) :
    FailsOnly ["E2003"] (scope.make ctx) :=
  (failsOnly_service ctx.stamp scope.base scope.servers scope.defaults ctx.options.readUri).bind
    fun _ => .ok _

theorem failsOnly_routePath (doc : Document) (naming : Naming) (parameters : List Parameter)
    (default : Option Int) (template : String) :
    FailsOnly ["E1003", "E1005", "E2004", "E2005"]
      (routePath doc naming parameters default template) := by
  have hempty : ∀ name, FailsOnly ["E1003", "E1005", "E2004", "E2005"]
      (mayBeEmpty doc parameters name) := by
    intro name
    unfold mayBeEmpty
    split
    · exact .ok _
    · exact ((doc.failsOnly_resolve _).mono (by simp [referenceCodes])).bind fun schema => .ok _
  have hpiece : ∀ piece, FailsOnly ["E1003", "E1005", "E2004", "E2005"]
      (pieceRegex doc naming parameters template piece) := by
    intro piece
    cases piece with
    | literal text => exact .ok _
    | unclosed => exact .error (by simp [Error.code])
    | invalid => exact .error (by simp [Error.code])
    | parameter name =>
      simp only [pieceRegex]
      split
      · exact .error (by simp [Error.code])
      · exact (hempty _).bind fun empty => .ok _
  exact (FailsOnly.mapM fun piece _ => hpiece piece).bind fun parts => .ok _

theorem failsOnly_expandHeaders (doc : Document) (naming : Naming) (stamp : Stamp) (base : String)
    (parameters : List Parameter) (route : Members) :
    FailsOnly referenceCodes (expandHeaders doc naming stamp base parameters route) := by
  have hvalues : ∀ p, FailsOnly referenceCodes (headerValues doc p) := by
    intro p
    unfold headerValues
    split
    · exact .ok _
    · refine (doc.failsOnly_resolve _).bind fun schema => ?_
      split <;> exact .ok _
  have hchoices : FailsOnly referenceCodes (headerChoices doc parameters) :=
    (FailsOnly.mapM fun p _ => hvalues p).bind fun found => .ok _
  refine hchoices.bind fun choices => ?_
  split <;> exact .ok _

theorem failsOnly_requestValidator (doc : Document) (naming : Naming) (stamp : Stamp)
    (base : String) (parameters : List Parameter) (body : Option RequestBody)
    (template : Option Members) : FailsOnly referenceCodes
      (requestValidator doc naming stamp base parameters body template) := by
  have hentry : ∀ p, FailsOnly referenceCodes (parameterEntry doc naming p) := fun p =>
    (doc.failsOnly_extractSchema p.schema).bind fun schema => .ok _
  have hparameters : ∀ config, FailsOnly referenceCodes
      (addParameterSchema doc naming parameters config) := by
    intro config
    unfold addParameterSchema
    split
    · exact .ok _
    · exact (FailsOnly.mapM fun p _ => hentry p).bind fun entries => .ok _
  have hbody : ∀ config, FailsOnly referenceCodes (addBodySchema doc body config) := by
    intro config
    unfold addBodySchema
    split
    · exact .ok _
    · split
      · exact .ok _
      · exact (doc.failsOnly_extractSchema _).bind fun text => .ok _
  unfold requestValidator
  split
  · exact .ok _
  · exact (hparameters _).bind fun settings => (hbody settings).bind fun settings => .ok _

/-! ## Security requirements -/

theorem failsOnly_openIdPlugin (doc : Document) (scheme : Members) (required : Json) :
    FailsOnly directiveCodes (openIdPlugin doc scheme required) := by
  have hconfig : ∀ plugin, FailsOnly directiveCodes (openIdConfig plugin) := by
    intro plugin
    unfold openIdConfig
    split
    · exact .ok _
    · exact .ok _
    · exact .error (by simp [Error.code, directiveCodes])
  exact (Directive.failsOnly_object? doc scheme _).bind fun plugin =>
    (hconfig _).bind fun config => .ok _

/-- Security requirements that are ignored when unsupported fail only for what their scheme
declares. -/
theorem failsOnly_openIdConnect (doc : Document) (requirements : Option Json)
    (inherited : Option Members) :
    FailsOnly ["E1003", "E1004", "E1005", "E2001", "E2002"]
      (openIdConnect doc true requirements inherited) := by
  unfold openIdConnect
  dsimp only
  split
  · exact .ok _
  · exact .ok _
  · refine ((doc.failsOnly_securityScheme _).mono (by simp)).bind fun scheme => ?_
    split
    · exact ((failsOnly_openIdPlugin doc scheme _).mono (by simp [directiveCodes])).bind
        fun plugin => .ok _
    · exact .ok _

end ApiGateway
