import ApiGateway.Proofs.Compilation.Placement
import ApiGateway.Proofs.Document.Cycle
import ApiGateway.Proofs.Naming.GivenName
import ApiGateway.Proofs.Validation.Agreement

/-!
# Locality of paths

The walk of one path knows the document around it and nothing of the other paths. So the paths of
documents that agree but for their paths are planned alike, and when a path item is taken out of a
document the plan loses that path and nothing else. The routes of the other paths stay as they are,
in services that stay as they are.

## Main definitions

* `Document.withoutPath`: a document without a path item.
* `Context.withDocument`: a run over another document.

## Main results

* `PathPlan.of_withDocument`: paths are planned alike.
* `Plan.of_withoutPath`: the plan without a path.
* `compile_withoutPath`: what stays of the output without a path.
-/
namespace ApiGateway

/-! ## Paths over documents that agree -/

/-- The context of a run over another document. -/
def Context.withDocument (ctx : Context) (doc' : Document) : Context := { ctx with doc := doc' }

/-- The operations of a path item refer to nothing in the paths when the item does not. -/
theorem Json.Detached.of_operations {path : String} {item : Members}
    (h : (Json.obj item).Detached) {entries : List (String × Members)}
    (hentries : operations path item = .ok entries) : ∀ e ∈ entries, (Json.obj e.2).Detached := by
  intro e he
  obtain ⟨⟨method, value⟩, hvalue, hread⟩ :=
    exists_of_mem_forall₂ (forall₂_of_mapM_eq_ok hentries) e he
  obtain ⟨m, -, hm⟩ := List.mem_filterMap.1 hvalue
  obtain ⟨v, hv, heq⟩ := Option.map_eq_some_iff.1 hm
  obtain ⟨rfl, rfl⟩ := Prod.mk.inj heq
  cases v with
  | obj operation =>
    obtain rfl := Except.ok.inj hread
    exact h.of_get? hv
  | _ => cases hread

namespace Document.Agree
variable {doc doc' : Document} (h : doc.Agree doc')
include h

theorem declaredDefaults_eq {scope scope' : Members} (hscope : scope.Agree "paths" scope') :
    declaredDefaults doc scope = declaredDefaults doc' scope' := by
  rw [declaredDefaults, declaredDefaults, h.object?_eq (hscope.get?_eq _ (by decide)),
    h.object?_eq (hscope.get?_eq _ (by decide)), h.object?_eq (hscope.get?_eq _ (by decide))]

theorem servers_eq : doc.servers = doc'.servers := by
  rw [servers, servers, serversOf, serversOf, Members.list?, Members.list?,
    h.root.get?_eq "servers" (by decide)]

/-- The values of a header are the same. -/
theorem expandHeaders_eq {parameters : List Parameter}
    (hparameters : ∀ p ∈ parameters, p.Detached) (naming : Naming) (stamp : Stamp) (base : String)
    (route : Members) : expandHeaders doc naming stamp base parameters route =
      expandHeaders doc' naming stamp base parameters route := by
  have hvalues : ∀ p ∈ parameters.filter fun p => p.location == "header",
      headerValues doc p = headerValues doc' p := by
    intro p hp
    unfold headerValues
    cases hschema : p.schema with
    | none => rfl
    | some schema =>
      dsimp only
      rw [h.resolve_eq (hparameters p (List.mem_of_mem_filter hp) schema hschema)]
  rw [expandHeaders, expandHeaders, headerChoices, headerChoices, mapM_congr hvalues]

/-- The regular expression of a template is the same. -/
theorem routePath_eq {parameters : List Parameter}
    (hparameters : ∀ p ∈ parameters, p.Detached) (naming : Naming) (default : Option Int)
    (template : String) : routePath doc naming parameters default template =
      routePath doc' naming parameters default template := by
  have hempty : ∀ name, mayBeEmpty doc parameters name = mayBeEmpty doc' parameters name := by
    intro name
    unfold mayBeEmpty
    cases hschema : (parameters.find? fun p => p.location == "path" && p.name == name).bind
        (·.schema) with
    | none => rfl
    | some schema =>
      obtain ⟨p, hp, hschema⟩ := Option.bind_eq_some_iff.1 hschema
      dsimp only
      rw [h.resolve_eq (hparameters p (List.mem_of_find?_eq_some hp) schema hschema)]
  have hpiece : ∀ piece, pieceRegex doc naming parameters template piece =
      pieceRegex doc' naming parameters template piece := by
    intro piece
    cases piece with
    | parameter name => simp only [pieceRegex, hempty]
    | _ => rfl
  rw [routePath, routePath, mapM_congr fun piece _ => hpiece piece]

end Document.Agree

section Walk
variable {ctx : Context} {doc' : Document} (h : ctx.doc.Agree doc')
include h

/-- The document is entered alike. -/
theorem Cascade.ofDocument_withDocument (base : String) :
    Cascade.ofDocument (ctx.withDocument doc') base = Cascade.ofDocument ctx base := by
  have hsecurity : ctx.doc.security? = doc'.security? := h.root.get?_eq "security" (by decide)
  simp only [Cascade.ofDocument, Context.withDocument, h.declaredDefaults_eq h.root,
    h.build_eq h.root, h.openIdConnect_eq, hsecurity, h.servers_eq]
  rfl

/-- A scope is entered alike. -/
theorem Cascade.enter_withDocument (parent : Cascade) (object : Members) (name : String) :
    parent.enter (ctx.withDocument doc') object name = parent.enter ctx object name := by
  simp only [Cascade.enter, Context.withDocument, h.declaredDefaults_eq (.refl _ object),
    h.build_eq (.refl _ object)]
  rfl

/-- The plugins and the routes of an operation are the same. -/
theorem Cascade.operationRoutes_withDocument (scope : Cascade) (path method : String)
    {item operation : Members} (hitem : (Json.obj item).Detached)
    (hoperation : (Json.obj operation).Detached) :
    scope.operationRoutes (ctx.withDocument doc') path item method operation =
      scope.operationRoutes ctx path item method operation := by
  unfold Cascade.operationRoutes
  simp only [Context.withDocument, ← h.parameters_eq hitem hoperation, ← h.requestBody_eq hoperation]
  refine bind_congr_of_eq_ok fun parameters hparameters => ?_
  refine bind_congr_of_eq_ok fun body hbody => ?_
  have hdetached := h.detached.of_parameters hitem hoperation hparameters
  have hbodyDetached : ∀ b, body = some b → b.Detached := by
    rintro b rfl
    exact h.detached.of_requestBody hoperation hbody
  have hplugins : scope.operationPlugins (ctx.withDocument doc') operation parameters body =
      scope.operationPlugins ctx operation parameters body := by
    simp only [Cascade.operationPlugins, Context.withDocument, h.openIdConnect_eq,
      h.requestValidator_eq hdetached hbodyDetached]
    rfl
  rw [Context.withDocument] at hplugins
  simp only [hplugins, ← h.routePath_eq hdetached, ← h.expandHeaders_eq hdetached]
  rfl

/-- An operation is planned alike. -/
theorem OperationPlan.of_withDocument (parent : Cascade) (path : String) {item : Members}
    (hitem : (Json.obj item).Detached) {entry : String × Members}
    (hentry : (Json.obj entry.2).Detached) :
    OperationPlan.of (ctx.withDocument doc') parent path item entry =
      OperationPlan.of ctx parent path item entry := by
  obtain ⟨method, operation⟩ := entry
  simp only [OperationPlan.of, Cascade.enter_withDocument h,
    Cascade.operationRoutes_withDocument h _ path method hitem hentry]

/-- A path is planned alike. -/
theorem PathPlan.of_withDocument (root : Cascade) {entry : String × Members}
    (hentry : (Json.obj entry.2).Detached) :
    PathPlan.of (ctx.withDocument doc') root entry = PathPlan.of ctx root entry := by
  obtain ⟨path, item⟩ := entry
  simp only [PathPlan.of, Cascade.enter_withDocument h]
  refine bind_congr fun name => bind_congr fun entered => ?_
  refine bind_congr_of_eq_ok fun entries hentries => ?_
  rw [mapM_congr fun e he => OperationPlan.of_withDocument h entered.1 path hentry
    (Json.Detached.of_operations hentry hentries e he)]

end Walk

/-- A run over a document that agrees with another settles the same, if the document has a name. -/
theorem Context.ofRun_withDocument {options : Options} {doc doc' : Document} (h : doc.Agree doc')
    {fresh : Uuid} (fresh' : Uuid) (hname : doc.givenName? options ≠ none) {ctx : Context}
    {base : String} (hrun : Context.ofRun fresh options doc = .ok (ctx, base)) :
    Context.ofRun fresh' options doc' = .ok (ctx.withDocument doc', base) := by
  have htags : doc.runTags options = doc'.runTags options := by
    rw [Document.runTags, Document.runTags, Directive.tags?, Directive.tags?,
      h.root.get?_eq _ (by decide)]
  have hbase : doc.baseName options fresh = doc'.baseName options fresh' := by
    rw [Document.baseName_eq hname fresh fresh', Document.baseName, Document.baseName,
      Document.title?, Document.title?, Directive.name?, Directive.name?,
      h.root.get?_eq "info" (by decide), h.root.get?_eq Directive.nameKey (by decide)]
  rw [Context.ofRun, Document.refuseCircular, h.circularReference?_eq, htags, hbase] at hrun
  rw [Context.ofRun, Document.refuseCircular]
  obtain ⟨_, hcircular, hrun⟩ := bind_eq_ok_iff.1 hrun
  obtain ⟨tags, hfound, hrun⟩ := bind_eq_ok_iff.1 hrun
  obtain ⟨name, hnamed, hrun⟩ := bind_eq_ok_iff.1 hrun
  obtain ⟨rfl, rfl⟩ := Prod.mk.inj (Except.ok.inj hrun)
  rw [hcircular, hfound, hnamed]
  rfl

/-! ## A document without a path -/

/-- A value without the member of a key. -/
def Json.without (key : String) : Json → Json
  | .obj members => .obj (Members.erase members key)
  | other => other

/-- A document without the path item of a template. -/
def Document.withoutPath (doc : Document) (template : String) : Document :=
  { doc with root := doc.root.mapValues fun key value =>
      if key = "paths" then value.without template else value }

/-- A plan without the path of a template. -/
def Plan.withoutPath (plan : Plan) (template : String) : Plan :=
  { plan with paths := plan.paths.filter fun p => p.path ≠ template }

theorem Json.references_without_subset (key : String) (value : Json) :
    (value.without key).references ⊆ value.references := by
  cases value with
  | obj members =>
    intro r hr
    simp only [without, references, mem_referencesInMembers, Members.erase_eq_filter] at hr ⊢
    obtain ⟨k, v, hm, hr⟩ := hr
    exact ⟨k, v, List.mem_of_mem_filter hm, hr⟩
  | _ => exact fun _ hr => hr

/-- The path item of a template that stands under it, with references followed. -/
def Document.pathItem (doc : Document) (member : String × Json) :
    Except Error (String × Members) := do
  match ← doc.resolve member.2 with
  | .obj item => .ok (member.1, item)
  | _ => .error (.structural (.pathItemNotObject member.1))

namespace Document
variable {doc : Document} (template : String)

theorem references_withoutPath_subset :
    (doc.withoutPath template).references ⊆ doc.references := by
  intro r hr
  simp only [references, Json.references, Json.mem_referencesInMembers, withoutPath,
    Members.mapValues, List.mem_map] at hr ⊢
  obtain ⟨key, _, ⟨⟨_, value⟩, hm, heq⟩, hr⟩ := hr
  obtain ⟨rfl, rfl⟩ := Prod.mk.inj heq
  refine ⟨_, value, hm, ?_⟩
  split at hr
  · rename_i hkey
    obtain ⟨hown, -⟩ | hr := hr
    · exact absurd (hkey.symm.trans hown) (by decide)
    · exact Or.inr (Json.references_without_subset template value hr)
  · exact hr

/-- A document agrees with what is left of it without a path. -/
theorem Detached.agree_withoutPath (h : doc.Detached) : doc.Agree (doc.withoutPath template) where
  root := by
    dsimp only [withoutPath]
    refine ⟨(Members.keys_mapValues _ _).symm, fun key hkey => ?_⟩
    rw [Members.get?_mapValues]
    simp [hkey]
  detached := h
  detached' r hr := h r (references_withoutPath_subset template hr)

/-- The path items are read one by one. -/
theorem pathItems_eq (doc : Document) : doc.pathItems =
    (((doc.root.object? "paths").getD []).filter fun m => m.1.toList.head? = some '/').mapM
      doc.pathItem := rfl

/-- A path item is the object that its member stands for. -/
theorem pathItem_eq_ok_iff {doc : Document} {member : String × Json} {entry : String × Members} :
    doc.pathItem member = .ok entry ↔
      entry.1 = member.1 ∧ doc.resolve member.2 = .ok (.obj entry.2) := by
  obtain ⟨template, item⟩ := entry
  unfold pathItem
  cases doc.resolve member.2 with
  | error e => simp
  | ok value =>
    cases value with
    | obj members =>
      simp only [ok_bind, Except.ok.injEq, Prod.mk.injEq, Json.obj.injEq]
      exact and_congr_left fun _ => eq_comm
    | _ => simp

/-- The members of the paths refer to nothing in the paths. -/
theorem Detached.of_paths (h : doc.Detached) {member : String × Json}
    (hmember : member ∈ (doc.root.object? "paths").getD []) : member.2.Detached := by
  cases hpaths : doc.root.object? "paths" with
  | none => simp [hpaths] at hmember
  | some paths =>
    rw [hpaths, Option.getD_some] at hmember
    have hroot : (Json.obj doc.root).Detached := h
    exact (hroot.of_get? (Members.object?_eq_some_iff.1 hpaths)).of_member hmember

/-- The path items refer to nothing in the paths. -/
theorem Detached.of_pathItems (h : doc.Detached) {items : List (String × Members)}
    (hitems : doc.pathItems = .ok items) : ∀ e ∈ items, (Json.obj e.2).Detached := by
  intro e he
  rw [pathItems_eq] at hitems
  obtain ⟨member, hmember, hread⟩ := exists_of_mem_forall₂ (forall₂_of_mapM_eq_ok hitems) e he
  exact h.of_resolve (h.of_paths (List.mem_of_mem_filter hmember)) (pathItem_eq_ok_iff.1 hread).2

/-- The members of the paths that are left. -/
theorem object?_paths_withoutPath (doc : Document) (template : String) :
    ((doc.withoutPath template).root.object? "paths").getD [] =
      ((doc.root.object? "paths").getD []).filter fun m => m.1 ≠ template := by
  unfold Members.object?
  rw [withoutPath, Members.get?_mapValues]
  cases doc.root.get? "paths" with
  | none => rfl
  | some value =>
    cases value with
    | obj paths => exact Members.erase_eq_filter paths template
    | _ => rfl

/-- The path items that are left. -/
theorem pathItems_withoutPath (h : doc.Detached) {items : List (String × Members)}
    (hitems : doc.pathItems = .ok items) :
    (doc.withoutPath template).pathItems = .ok (items.filter fun e => e.1 ≠ template) := by
  rw [pathItems_eq] at hitems
  have hread : ∀ member ∈ (doc.root.object? "paths").getD [],
      (doc.withoutPath template).pathItem member = doc.pathItem member := by
    intro member hmember
    rw [pathItem, pathItem, (h.agree_withoutPath template).resolve_eq (h.of_paths hmember)]
  have hkept : ((((doc.root.object? "paths").getD []).filter fun m =>
      m.1.toList.head? = some '/').filter fun m => m.1 ≠ template).mapM doc.pathItem =
        .ok (items.filter fun e => e.1 ≠ template) :=
    mapM_filter (fun m e he => by rw [(pathItem_eq_ok_iff.1 he).1]) hitems
  rw [pathItems_eq, object?_paths_withoutPath, List.filter_comm, mapM_congr fun m hm =>
    hread m (List.mem_of_mem_filter (List.mem_of_mem_filter hm)), hkept]

end Document

/-! ## A plan without a path -/

/-- A path is planned under its template. -/
theorem PathPlan.path_of {ctx : Context} {root : Cascade} {entry : String × Members} {p : PathPlan}
    (h : PathPlan.of ctx root entry = .ok p) : p.path = entry.1 :=
  (congrArg Prod.fst (PathPlan.planned_of_of h).entry_eq).symm

/-- The plan of a document without a path. -/
theorem Plan.of_withoutPath {ctx : Context} (hdoc : ctx.doc.Detached) {base : String} {plan : Plan}
    (h : Plan.of ctx base = .ok plan) (template : String) :
    Plan.of (ctx.withDocument (ctx.doc.withoutPath template)) base =
      .ok (plan.withoutPath template) := by
  have hagree := hdoc.agree_withoutPath template
  unfold Plan.of at h ⊢
  obtain ⟨⟨root, made⟩, hentered, h⟩ := bind_eq_ok_iff.1 h
  obtain ⟨items, hitems, h⟩ := bind_eq_ok_iff.1 h
  obtain ⟨paths, hpaths, h⟩ := bind_eq_ok_iff.1 h
  obtain rfl := Except.ok.inj h
  have hleft : (ctx.withDocument (ctx.doc.withoutPath template)).doc.pathItems =
      .ok (items.filter fun e => e.1 ≠ template) :=
    Document.pathItems_withoutPath template hdoc hitems
  have hplanned : (items.filter fun e => e.1 ≠ template).mapM (PathPlan.of ctx root) =
      .ok (paths.filter fun p => p.path ≠ template) :=
    mapM_filter (fun e p hp => by rw [PathPlan.path_of hp]) hpaths
  rw [Cascade.ofDocument_withDocument hagree, hentered]
  simp only [ok_bind, hleft]
  rw [mapM_congr fun e he => PathPlan.of_withDocument hagree root
    (hdoc.of_pathItems hitems e (List.mem_of_mem_filter he)), hplanned]
  rfl

/-- The service of a scope looks the same from outside when the one around it does. -/
theorem Creation.outside_within_congr {ctx : Context} {around around' : Creation}
    (h : around.outside ctx = around'.outside ctx) (site site' : Site) (scope : Cascade)
    (made : Option Made) : (around.within site scope made).outside ctx =
      (around'.within site' scope made).outside ctx := by
  cases made with
  | none => exact h
  | some made => rfl

/-- A path places the same routes over another document, when the service of the document is the
same. -/
theorem PathPlan.placed_withDocument (ctx : Context) (doc' : Document) {document document' : Creation}
    (h : document'.outside ctx = document.outside ctx) (p : PathPlan) :
    p.placed (ctx.withDocument doc') document' = p.placed ctx document := by
  refine List.flatMap_congr fun op _ => ?_
  have hhost : (p.host (ctx.withDocument doc') document' op).outside ctx =
      (p.host ctx document op).outside ctx :=
    Creation.outside_within_congr (Creation.outside_within_congr h _ _ _ _) _ _ _ _
  rw [OperationPlan.created, OperationPlan.created, List.map_map, List.map_map, ← hhost]
  rfl

/-- The routes that a plan places without a path are those of its other paths. -/
theorem Plan.placed_withoutPath (ctx : Context) (plan : Plan) (template : String) :
    (plan.withoutPath template).placed (ctx.withDocument (ctx.doc.withoutPath template)) =
      (plan.paths.filter fun p => p.path ≠ template).flatMap
        (PathPlan.placed ctx (plan.document ctx)) := by
  have hdocument : ((plan.withoutPath template).document
      (ctx.withDocument (ctx.doc.withoutPath template))).outside ctx =
        (plan.document ctx).outside ctx := rfl
  exact List.flatMap_congr fun p _ => PathPlan.placed_withDocument ctx _ hdocument p

/-- Without one of its path items a document that has a name, and in which no reference leads into
the paths, still compiles. The routes of the other paths are placed as they were, each with all its
fields and in a service with the same fields, and those of the path itself are what is missing. -/
theorem compile_withoutPath {fresh : Uuid} (fresh' : Uuid) {options : Options} {doc : Document}
    (template : String) (hname : doc.givenName? options ≠ none) (hdoc : doc.Detached)
    {c : Configuration} (h : compile fresh options doc = .ok c) :
    ∃ c', compile fresh' options (doc.withoutPath template) = .ok c' ∧
      ∃ ctx base plan, Context.ofRun fresh options doc = .ok (ctx, base) ∧
        Plan.of ctx base = .ok plan ∧ plan.configuration ctx = c ∧
        c'.placed.Perm ((plan.paths.filter fun p => p.path ≠ template).flatMap
          (PathPlan.placed ctx (plan.document ctx))) ∧
        c.placed.Perm (c'.placed ++ (plan.paths.filter fun p => p.path = template).flatMap
          (PathPlan.placed ctx (plan.document ctx))) := by
  obtain ⟨ctx, base, plan, hrun, hplan, rfl⟩ := exists_plan_of_compile h
  obtain ⟨rfl, -⟩ := Context.ofRun_cases hrun
  have hagree := hdoc.agree_withoutPath template
  have hrun' := Context.ofRun_withDocument hagree fresh' hname hrun
  have hplan' := Plan.of_withoutPath hdoc hplan template
  have hplaced : ((plan.withoutPath template).configuration
      (ctx.withDocument (ctx.doc.withoutPath template))).placed.Perm
        ((plan.paths.filter fun p => p.path ≠ template).flatMap
          (PathPlan.placed ctx (plan.document ctx))) := by
    rw [← Plan.placed_withoutPath]
    exact Plan.placed_perm _
  refine ⟨_, ?_, ctx, base, plan, hrun, hplan, rfl, hplaced, ?_⟩
  · rw [compile_eq, hrun']
    simp only [ok_bind, hplan', map_ok]
  · refine plan.placed_perm.trans ?_
    refine List.Perm.trans ?_ (hplaced.symm.append_right _)
    rw [← List.flatMap_append]
    have hsplit := List.filter_append_perm (fun p : PathPlan => p.path ≠ template) plan.paths
    simp only [ne_eq, decide_not, Bool.not_not] at hsplit ⊢
    exact hsplit.symm.flatMap_right _

/-- A small document with two paths. One of them refers to a header among the components that lists two
values. -/
def poolDocument : Document :=
  ⟨[("components", .obj [("parameters", .obj [("lane", .obj [("in", .str "header"),
      ("name", .str "lane"), ("schema", .obj [("enum", .arr [.str "left", .str "right"])])])])]),
    ("info", .obj [("title", .str "Pool")]),
    ("paths", .obj [("/lanes", .obj [("get", .obj
        [("parameters", .arr [.obj [("$ref", .str "#/components/parameters/lane")]])])]),
      ("/lounge", .obj [("get", .obj [])])])], "3.0.0"⟩

/-- Without its lounge the small document keeps the two routes of its lanes. -/
theorem compile_withoutPath_pool :
    ∃ c c', compile Uuid.dns {} poolDocument = .ok c ∧
      compile Uuid.dns {} (poolDocument.withoutPath "/lounge") = .ok c' ∧
      c.placed.length = 3 ∧ c'.placed.length = 2 ∧ c'.placed ⊆ c.placed := by
  have hsize : ((compile Uuid.dns {} poolDocument).toOption.map fun c => c.placed.length) =
      some 3 := by
    decide +kernel
  have hsize' : ((compile Uuid.dns {} (poolDocument.withoutPath "/lounge")).toOption.map
      fun c => c.placed.length) = some 2 := by
    decide +kernel
  obtain ⟨c, hc, hsize⟩ := Option.map_eq_some_iff.1 hsize
  rw [toOption_eq_some_iff] at hc
  obtain ⟨c', hc', ctx, base, plan, -, -, -, -, hplaced⟩ :=
    compile_withoutPath Uuid.dns "/lounge" (by decide +kernel) (by decide +kernel) hc
  rw [hc'] at hsize'
  refine ⟨c, c', hc, hc', hsize, Option.some.inj hsize', fun entry hentry => ?_⟩
  exact hplaced.mem_iff.2 (List.mem_append_left _ hentry)

end ApiGateway
