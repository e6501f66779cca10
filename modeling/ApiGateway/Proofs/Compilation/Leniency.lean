import ApiGateway.Proofs.Compilation.Untagged
import ApiGateway.Proofs.Error.Codes

/-!
# Lenient runs

A lenient run keeps what is inherited where a strict one refuses unsupported security requirements.
The two are followed side by side: at every step either the strict run is refused, or both have the
same outcome. A run that does not stop at unsupported requirements never fails with their code.

## Main definitions

* `UnlessRefused`: two outcomes that are the same unless the first is refused.
* `Context.lenient`: a context whose run ignores unsupported security requirements.
* `walkCodes`: the codes of a walk that ignores them.

## Main results

* `unlessRefused_compile`: the two runs side by side.
* `failsOnly_compile`: the codes of a lenient run.
* `leniency_of_compile`: what ignoring faults changes, and what it leaves alone.
-/
namespace ApiGateway

section UnlessRefused
variable {α β : Type}

/-- Two outcomes that are the same, unless the first is refused for a security requirement. -/
def UnlessRefused (strict lenient : Except Error α) : Prop :=
  (∃ fault, strict = .error (.security fault)) ∨ strict = lenient

namespace UnlessRefused

theorem refl (x : Except Error α) : UnlessRefused x x := Or.inr rfl

/-- Steps that agree unless refused, followed by steps that do, agree unless refused. -/
theorem bind {x y : Except Error α} {f g : α → Except Error β} (hx : UnlessRefused x y)
    (hf : ∀ a, UnlessRefused (f a) (g a)) : UnlessRefused (x >>= f) (y >>= g) := by
  obtain ⟨fault, rfl⟩ | rfl := hx
  · exact Or.inl ⟨fault, rfl⟩
  · cases x with
    | error e => exact refl _
    | ok a => exact hf a

theorem map {x y : Except Error α} (f : α → β) (hx : UnlessRefused x y) :
    UnlessRefused (x.map f) (y.map f) := by
  obtain ⟨fault, rfl⟩ | rfl := hx
  · exact Or.inl ⟨fault, rfl⟩
  · exact refl _

theorem mapM {f g : α → Except Error β} {items : List α} (hf : ∀ a, UnlessRefused (f a) (g a)) :
    UnlessRefused (items.mapM f) (items.mapM g) := by
  induction items with
  | nil => exact refl _
  | cons a rest ih =>
    rw [List.mapM_cons, List.mapM_cons]
    exact (hf a).bind fun b => ih.bind fun bs => refl _

/-- A strict step that succeeds is the lenient one. -/
theorem eq_ok {x y : Except Error α} {a : α} (h : UnlessRefused x y) (hx : x = .ok a) :
    y = .ok a := by
  obtain ⟨fault, hfault⟩ | rfl := h
  · rw [hfault] at hx
    cases hx
  · exact hx

/-- So is a strict step that fails for another reason. -/
theorem eq_error {x y : Except Error α} {e : Error} (h : UnlessRefused x y) (hx : x = .error e)
    (he : e.code ≠ "E2006") : y = .error e := by
  obtain ⟨fault, hfault⟩ | rfl := h
  · rw [hfault] at hx
    cases hx
    exact absurd rfl he
  · exact hx

end UnlessRefused

end UnlessRefused

/-! ## Strict and lenient walks -/

/-- A context whose run ignores unsupported security requirements. -/
def Context.lenient (ctx : Context) : Context :=
  { ctx with options := { ctx.options with ignoreSecurityErrors := true } }

theorem unlessRefused_openIdConnect (doc : Document) (ignoreErrors : Bool)
    (requirements : Option Json) (inherited : Option Members) :
    UnlessRefused (openIdConnect doc ignoreErrors requirements inherited)
      (openIdConnect doc true requirements inherited) := by
  cases ignoreErrors with
  | true => exact .refl _
  | false =>
    unfold openIdConnect
    dsimp only
    split
    · exact .refl _
    · exact Or.inl ⟨_, rfl⟩
    · refine (UnlessRefused.refl _).bind fun scheme => ?_
      split
      · exact .refl _
      · exact Or.inl ⟨_, rfl⟩

namespace Cascade

theorem unlessRefused_ofDocument (ctx : Context) (base : String) :
    UnlessRefused (ofDocument ctx base) (ofDocument ctx.lenient base) := by
  have hopenId : UnlessRefused (documentOpenId ctx) (documentOpenId ctx.lenient) := by
    unfold documentOpenId
    by_cases hopen : ctx.options.openId = true
    · have hopen' : ctx.lenient.options.openId = true := hopen
      rw [if_pos hopen, if_pos hopen']
      exact unlessRefused_openIdConnect _ _ _ _
    · have hopen' : ¬ ctx.lenient.options.openId = true := hopen
      rw [if_neg hopen, if_neg hopen']
      exact .refl _
  rw [ofDocument_eq, ofDocument_eq]
  refine (UnlessRefused.refl _).bind fun defaults => (UnlessRefused.refl _).bind fun declared => ?_
  exact hopenId.bind fun openId => .refl _

theorem unlessRefused_withOpenId (ctx : Context) (scope : Cascade) (operation : Members) :
    UnlessRefused (scope.withOpenId ctx operation) (scope.withOpenId ctx.lenient operation) := by
  unfold withOpenId
  by_cases hasks : (ctx.options.openId && operation.has "security") = true
  · have hasks' : (ctx.lenient.options.openId && operation.has "security") = true := hasks
    rw [if_pos hasks, if_pos hasks']
    exact (unlessRefused_openIdConnect _ _ _ _).bind fun openId => .refl _
  · have hasks' : ¬ (ctx.lenient.options.openId && operation.has "security") = true := hasks
    rw [if_neg hasks, if_neg hasks']
    exact .refl _

theorem unlessRefused_operationRoutes (ctx : Context) (scope : Cascade) (path : String)
    (item : Members) (method : String) (operation : Members) :
    UnlessRefused (scope.operationRoutes ctx path item method operation)
      (scope.operationRoutes ctx.lenient path item method operation) := by
  unfold operationRoutes
  refine (UnlessRefused.refl _).bind fun parameters => (UnlessRefused.refl _).bind fun body => ?_
  rw [operationPlugins_eq, operationPlugins_eq]
  refine UnlessRefused.bind ?_ fun plugins => .refl _
  exact (unlessRefused_withOpenId ctx scope operation).bind fun own => .refl _

end Cascade

theorem OperationPlan.unlessRefused_of (ctx : Context) (parent : Cascade) (path : String)
    (item : Members) (entry : String × Members) :
    UnlessRefused (OperationPlan.of ctx parent path item entry)
      (OperationPlan.of ctx.lenient parent path item entry) := by
  refine (UnlessRefused.refl _).bind fun name => (UnlessRefused.refl _).bind fun entered => ?_
  exact (Cascade.unlessRefused_operationRoutes ctx entered.1 path item _ _).bind
    fun routed => .refl _

theorem PathPlan.unlessRefused_of (ctx : Context) (root : Cascade) (entry : String × Members) :
    UnlessRefused (PathPlan.of ctx root entry) (PathPlan.of ctx.lenient root entry) := by
  refine (UnlessRefused.refl _).bind fun name => (UnlessRefused.refl _).bind fun entered => ?_
  refine (UnlessRefused.refl _).bind fun entries => ?_
  exact (UnlessRefused.mapM fun operation =>
    OperationPlan.unlessRefused_of ctx entered.1 _ _ operation).bind fun endpoints => .refl _

theorem Plan.unlessRefused_of (ctx : Context) (base : String) :
    UnlessRefused (Plan.of ctx base) (Plan.of ctx.lenient base) := by
  refine (Cascade.unlessRefused_ofDocument ctx base).bind fun entered => ?_
  refine (UnlessRefused.refl _).bind fun items => ?_
  exact (UnlessRefused.mapM fun entry => PathPlan.unlessRefused_of ctx entered.1 entry).bind
    fun paths => .refl _

/-- Whatever a run does about unsupported security requirements, it is refused for one or has the
outcome of the run that ignores them. -/
theorem unlessRefused_compile (fresh : Uuid) (options : Options) (doc : Document) :
    UnlessRefused (compile fresh options doc)
      (compile fresh { options with ignoreSecurityErrors := true } doc) := by
  rw [compile_eq, compile_eq, Context.ofRun, Context.ofRun]
  simp only [bind_assoc]
  refine (UnlessRefused.refl _).bind fun _ => (UnlessRefused.refl _).bind fun tags => ?_
  refine (UnlessRefused.refl _).bind fun base => ?_
  exact (Plan.unlessRefused_of ⟨doc, options, options.stamp tags⟩ base).map _

/-! ## Codes of a tolerant walk -/

/-- Options of a run that stops at no unsupported security requirement: it derives no plugins from
them, or it ignores those. -/
def Options.Tolerant (options : Options) : Prop :=
  options.openId = true → options.ignoreSecurityErrors = true

/-- The codes of a run that stops at no unsupported security requirement. -/
def walkCodes : List String :=
  ["E1003", "E1004", "E1005", "E2001", "E2002", "E2003", "E2004", "E2005", "E2007"]

theorem subset_walkCodes : referenceCodes ⊆ walkCodes ∧ directiveCodes ⊆ walkCodes := by
  simp [referenceCodes, directiveCodes, walkCodes]

section Tolerant
variable {ctx : Context} (htolerant : ctx.options.Tolerant)
include htolerant

namespace Cascade

theorem failsOnly_ofDocument (base : String) : FailsOnly walkCodes (ofDocument ctx base) := by
  have hopenId : FailsOnly walkCodes (documentOpenId ctx) := by
    unfold documentOpenId
    split
    · rename_i hopen
      rw [htolerant hopen]
      exact (failsOnly_openIdConnect _ _ _).mono (by simp [walkCodes])
    · exact .ok _
  rw [ofDocument_eq]
  refine ((failsOnly_declaredDefaults _ _).mono subset_walkCodes.2).bind fun defaults => ?_
  refine ((Plugin.failsOnly_build _ _ _ _ _).mono subset_walkCodes.2).bind fun declared => ?_
  refine hopenId.bind fun openId => ?_
  exact ((failsOnly_make _ _).mono (by simp [walkCodes])).bind fun made => .ok _

theorem failsOnly_withOpenId (scope : Cascade) (operation : Members) :
    FailsOnly walkCodes (scope.withOpenId ctx operation) := by
  unfold withOpenId
  split
  · rename_i hasks
    rw [htolerant (Bool.and_eq_true_iff.1 hasks).1]
    refine ((failsOnly_openIdConnect _ _ _).mono (by simp [walkCodes])).bind fun openId => ?_
    split
    · exact .ok _
    · split <;> exact .ok _
  · exact .ok _

theorem failsOnly_operationRoutes (scope : Cascade) (path : String) (item : Members)
    (method : String) (operation : Members) :
    FailsOnly walkCodes (scope.operationRoutes ctx path item method operation) := by
  have hplugins : ∀ parameters body,
      FailsOnly walkCodes (scope.operationPlugins ctx operation parameters body) := by
    intro parameters body
    rw [operationPlugins_eq]
    refine (failsOnly_withOpenId htolerant scope operation).bind fun own => ?_
    refine ((failsOnly_requestValidator _ _ _ _ _ _ _).mono subset_walkCodes.1).bind
      fun validator => ?_
    split <;> exact .ok _
  unfold operationRoutes
  refine ((ctx.doc.failsOnly_parameters _ _).mono subset_walkCodes.1).bind fun parameters => ?_
  refine ((ctx.doc.failsOnly_requestBody _).mono subset_walkCodes.1).bind fun body => ?_
  refine (hplugins parameters body).bind fun plugins => ?_
  refine ((failsOnly_routePath _ _ _ _ _).mono (by simp [walkCodes])).bind fun template => ?_
  exact ((failsOnly_expandHeaders _ _ _ _ _ _).mono subset_walkCodes.1).bind fun routes => .ok _

omit htolerant in
theorem failsOnly_enter (parent : Cascade) (object : Members) (name : String) :
    FailsOnly walkCodes (parent.enter ctx object name) := by
  unfold enter
  refine ((failsOnly_declaredDefaults _ _).mono subset_walkCodes.2).bind fun own => ?_
  refine ((Plugin.failsOnly_build _ _ _ _ _).mono subset_walkCodes.2).bind fun declared => ?_
  dsimp only
  split
  · exact ((failsOnly_make _ _).mono (by simp [walkCodes])).bind fun made => .ok _
  · exact ((Plugin.failsOnly_build _ _ _ _ _).mono subset_walkCodes.2).bind fun waiting => .ok _

end Cascade

theorem OperationPlan.failsOnly_of (parent : Cascade) (path : String) (item : Members)
    (entry : String × Members) :
    FailsOnly walkCodes (OperationPlan.of ctx parent path item entry) := by
  have hname : FailsOnly walkCodes (operationName entry.1 entry.2) :=
    ((Directive.failsOnly_name? _).mono (by simp [walkCodes])).bind fun given => .ok _
  refine hname.bind fun name => (Cascade.failsOnly_enter _ _ _).bind fun entered => ?_
  exact (entered.1.failsOnly_operationRoutes htolerant path item _ _).bind fun routed => .ok _

theorem PathPlan.failsOnly_of (root : Cascade) (entry : String × Members) :
    FailsOnly walkCodes (PathPlan.of ctx root entry) := by
  have hname : FailsOnly walkCodes (pathName entry.1 entry.2) :=
    ((Directive.failsOnly_name? _).mono (by simp [walkCodes])).bind fun given => .ok _
  refine hname.bind fun name => (Cascade.failsOnly_enter _ _ _).bind fun entered => ?_
  refine ((failsOnly_operations _ _).mono (by simp [walkCodes])).bind fun entries => ?_
  exact (FailsOnly.mapM fun operation _ =>
    OperationPlan.failsOnly_of htolerant entered.1 _ _ operation).bind fun endpoints => .ok _

theorem Plan.failsOnly_of (base : String) : FailsOnly walkCodes (Plan.of ctx base) := by
  refine (Cascade.failsOnly_ofDocument htolerant base).bind fun entered => ?_
  refine (ctx.doc.failsOnly_pathItems.mono (by simp [walkCodes])).bind fun items => ?_
  exact (FailsOnly.mapM fun entry _ => PathPlan.failsOnly_of htolerant entered.1 entry).bind
    fun paths => .ok _

end Tolerant

theorem Document.failsOnly_baseName (doc : Document) (options : Options) (fresh : Uuid) :
    FailsOnly ["E2007"] (doc.baseName options fresh) := by
  unfold baseName
  dsimp only
  split
  · refine (FailsOnly.ok _).bind fun chosen => ?_
    split <;> exact .ok _
  · refine (Directive.failsOnly_name? _).bind fun chosen => ?_
    split <;> exact .ok _

/-- A run that stops at no unsupported security requirement never fails with their code. -/
theorem failsOnly_compile {options : Options} (htolerant : options.Tolerant) (fresh : Uuid)
    (doc : Document) : FailsOnly walkCodes (compile fresh options doc) := by
  have hcircular : FailsOnly walkCodes (doc.refuseCircular options) := by
    unfold Document.refuseCircular
    split
    · exact .error (by simp [Error.code, walkCodes])
    · exact .ok _
  have htags : FailsOnly walkCodes (doc.runTags options) := by
    unfold Document.runTags
    split
    · exact .ok _
    · exact ((Directive.failsOnly_tags? doc).mono (by simp [walkCodes])).map _
  rw [compile_eq, Context.ofRun]
  simp only [bind_assoc]
  refine hcircular.bind fun _ => htags.bind fun tags => ?_
  refine ((doc.failsOnly_baseName options fresh).mono (by simp [walkCodes])).bind fun base => ?_
  exact FailsOnly.map _ (Plan.failsOnly_of htolerant base)

/-! ## What ignoring faults changes -/

/-- A run that ignores circular references does what a run does that meets none. -/
theorem compile_ignoring_circular {fresh : Uuid} {options : Options} {doc : Document}
    {c : Configuration}
    (h : compile fresh { options with ignoreCircularReferences := false } doc = .ok c) :
    compile fresh { options with ignoreCircularReferences := true } doc = .ok c := by
  rw [compile_eq, Context.ofRun] at h ⊢
  simp only [bind_assoc] at h ⊢
  obtain ⟨-, -, h⟩ := bind_eq_ok_iff.1 h
  exact h

/-- Ignoring faults is conservative. A run that succeeds without ignoring unsupported security
requirements, or circular references, gives the same configuration when it ignores them. A run that
ignores unsupported security requirements never fails with their code, one that derives no plugins
from security requirements has the same outcome either way, and any other error of a run stays. -/
theorem leniency_of_compile (fresh fresh' : Uuid) (options : Options) (doc : Document) :
    (∀ c, compile fresh { options with ignoreSecurityErrors := false } doc = .ok c →
      ∃ c', compile fresh' { options with ignoreSecurityErrors := true } doc = .ok c' ∧
        (doc.NamedAlike options fresh fresh' → c' = c)) ∧
    (∀ c, compile fresh { options with ignoreCircularReferences := false } doc = .ok c →
      ∃ c', compile fresh' { options with ignoreCircularReferences := true } doc = .ok c' ∧
        (doc.NamedAlike options fresh fresh' → c' = c)) ∧
    (∀ e, compile fresh { options with ignoreSecurityErrors := true } doc = .error e →
      e.code ≠ "E2006") ∧
    (options.openId = false →
      (((compile fresh { options with ignoreSecurityErrors := false } doc).map fun _ => ()) =
        (compile fresh' { options with ignoreSecurityErrors := true } doc).map fun _ => ()) ∧
      (doc.NamedAlike options fresh fresh' →
        compile fresh { options with ignoreSecurityErrors := false } doc =
          compile fresh' { options with ignoreSecurityErrors := true } doc)) ∧
    (∀ e, compile fresh { options with ignoreSecurityErrors := false } doc = .error e →
      e.code ≠ "E2006" →
      compile fresh' { options with ignoreSecurityErrors := true } doc = .error e) := by
  have hruns := unlessRefused_compile fresh { options with ignoreSecurityErrors := false } doc
  refine ⟨?_, ?_, ?_, ?_, ?_⟩
  · intro c hc
    exact exists_compile_fresh (hruns.eq_ok hc) fresh'
  · intro c hc
    exact exists_compile_fresh (compile_ignoring_circular hc) fresh'
  · intro e he hcode
    have htolerant : ({ options with ignoreSecurityErrors := true } : Options).Tolerant :=
      fun _ => rfl
    have hcodes := failsOnly_compile htolerant fresh doc e he
    rw [hcode] at hcodes
    simp [walkCodes] at hcodes
  · intro hopenId
    -- without plugins from security requirements the strict run is not refused
    have htolerant : ({ options with ignoreSecurityErrors := false } : Options).Tolerant := by
      intro hopen
      rw [hopenId] at hopen
      cases hopen
    have hsame : compile fresh { options with ignoreSecurityErrors := false } doc =
        compile fresh { options with ignoreSecurityErrors := true } doc := by
      obtain ⟨fault, hfault⟩ | hsame := hruns
      · have hcodes := failsOnly_compile htolerant fresh doc _ hfault
        simp [walkCodes, Error.code] at hcodes
      · exact hsame
    rw [hsame]
    refine ⟨map_compile_fresh _ _ _ _, fun hnamed => ?_⟩
    exact Document.NamedAlike.compile_eq hnamed
  · intro e he hcode
    exact compile_fresh_eq_error (hruns.eq_error he hcode) fresh'

/-- A small document with one scheme, and security requirements for its one operation. -/
def visitDocument (requirements : List Json) : Document :=
  ⟨[("components", .obj [("securitySchemes", .obj [("staff", .obj
      [("openIdConnectUrl", .str "https://staff.example.com"), ("type", .str "openIdConnect")])])]),
    ("info", .obj [("title", .str "Visits")]),
    ("paths", .obj [("/visits", .obj [("get", .obj [("security", .arr requirements)])])])], "3.0.0"⟩

/-- With one requirement the route of the operation has its plugin in both runs, and the two
configurations are the same. With two, only the run that ignores them is not refused. -/
theorem leniency_of_compile_visits :
    (∃ c, compile Uuid.dns { openId := true } (visitDocument [.obj [("staff", .arr [])]]) = .ok c ∧
      c.services.map (fun s => (Configuration.routesOf s).map fun r =>
        (Configuration.pluginsOf r).map Plugin.name) = [[["openid-connect"]]] ∧
      compile (Uuid.named Uuid.dns "other") { openId := true, ignoreSecurityErrors := true }
        (visitDocument [.obj [("staff", .arr [])]]) = .ok c) ∧
    compile Uuid.dns { openId := true } (visitDocument [.obj [], .obj []]) =
      .error (.security (.severalRequirements 2)) ∧
    ∀ e, compile Uuid.dns { openId := true, ignoreSecurityErrors := true }
      (visitDocument [.obj [], .obj []]) = .error e → e.code ≠ "E2006" := by
  have hnames : ((compile Uuid.dns { openId := true }
      (visitDocument [.obj [("staff", .arr [])]])).toOption.map fun c =>
        c.services.map fun s => (Configuration.routesOf s).map fun r =>
          (Configuration.pluginsOf r).map Plugin.name) = some [[["openid-connect"]]] := by
    decide +kernel
  have hrefused : ((compile Uuid.dns { openId := true }
      (visitDocument [.obj [], .obj []])).map fun _ => ()) =
        .error (.security (.severalRequirements 2)) := by
    decide +kernel
  refine ⟨?_, ?_, ?_⟩
  · obtain ⟨c, hc, hnames⟩ := Option.map_eq_some_iff.1 hnames
    rw [toOption_eq_some_iff] at hc
    obtain ⟨c', hc', hsame⟩ := (leniency_of_compile Uuid.dns (Uuid.named Uuid.dns "other")
      { openId := true } (visitDocument [.obj [("staff", .arr [])]])).1 c hc
    -- the title of the document names it in both runs
    have hnamed : (visitDocument [.obj [("staff", .arr [])]]).NamedAlike { openId := true } Uuid.dns
        (Uuid.named Uuid.dns "other") := by
      intro hnone
      cases hnone
    rw [hsame hnamed] at hc'
    exact ⟨c, hc, hnames, hc'⟩
  · cases houtcome : compile Uuid.dns { openId := true } (visitDocument [.obj [], .obj []]) with
    | error e =>
      rw [houtcome, map_error] at hrefused
      rw [Except.error.inj hrefused]
    | ok c =>
      rw [houtcome, map_ok] at hrefused
      cases hrefused
  · exact (leniency_of_compile Uuid.dns Uuid.dns { openId := true }
      (visitDocument [.obj [], .obj []])).2.2.1

end ApiGateway
