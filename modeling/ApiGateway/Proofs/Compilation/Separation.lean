import ApiGateway.Proofs.Compilation.Identifiers

/-!
# Separate runs

Two runs that differ in their namespace, or in a document name that decides the first slug of every
base name, derive no identifier from the same source. A path or an operation may well be called like
the other document: its slug stands behind that of its own document. So with a derivation that tells
the sources of the two runs apart, no identifier of one output occurs in the other.

## Main definitions

* `identifierSources`: the namespaces and texts that the identifiers of a run are derived from.
* `Options.Separate`: options that differ in the namespace or in the slug of the document name.

## Main results

* `disjoint_ids_of_compile`: separate runs have no source and no identifier in common.
-/
namespace ApiGateway

/-- The namespaces and texts that the identifiers of a run are derived from. -/
def identifierSources (fresh : Uuid) (options : Options) (doc : Document) :
    Except Error (List (Uuid × String)) :=
  (identifierTexts fresh options doc).map fun texts => texts.map fun text => (options.space, text)

/-- Options that differ in the namespace, or that name the document in the nested style by names of
different slugs that are not empty. -/
def Options.Separate (options options' : Options) : Prop :=
  options.space ≠ options'.space ∨
    ∃ name name', options.flatNames = false ∧ options'.flatNames = false ∧
      options.documentName = some name ∧ options'.documentName = some name' ∧
      options.naming.slug name ≠ "" ∧ options'.naming.slug name' ≠ "" ∧
      options.naming.slug name ≠ options'.naming.slug name'

/-- A document name with a slug makes the base name. -/
theorem Document.baseName_of_documentName {doc : Document} {options : Options} {fresh : Uuid}
    {name base : String} (hname : options.documentName = some name)
    (hslug : options.naming.slug name ≠ "") (h : doc.baseName options fresh = .ok base) :
    base = options.naming.slug name := by
  simp only [baseName, hname] at h
  obtain rfl := Except.ok.inj h
  simp [Naming.slugify_singleton, hslug]

/-- The first slug of every owner is that of the document. -/
theorem Plan.head?_sequence {ctx : Context} {root : String} (hroot : root ≠ "") (plan : Plan) :
    ∀ o ∈ plan.entities ctx root, o.owner.sequence.head? = some root := by
  have hsite : ∀ site : Site, (site.owner ctx.naming root).sequence.head? = some root := by
    intro site
    simp [Site.owner, Site.sequence, hroot]
  refine plan.forall_owner (P := fun owner => owner.sequence.head? = some root) hsite ?_
  intro e owner howner
  unfold Endpoint.owners at howner
  split at howner
  · obtain rfl := List.mem_singleton.1 howner
    exact hsite e.site
  · obtain ⟨i, -, rfl⟩ := List.mem_map.1 howner
    have hhead : (e.site.sequence ctx.naming root).head? = some root := hsite e.site
    simp [hhead]

section Run
variable {fresh : Uuid} {options : Options} {doc : Document} {ctx : Context} {root : String}
  {plan : Plan}

theorem identifierSources_eq (hrun : Context.ofRun fresh options doc = .ok (ctx, root))
    (hplan : Plan.of ctx root = .ok plan) : identifierSources fresh options doc =
      .ok ((plan.entities ctx root).map fun o => (options.space, o.text)) := by
  simp only [identifierSources, identifierTexts, hrun, ok_bind, hplan, pure, Except.pure, map_ok,
    List.map_map, Function.comp_def]

/-- The identifiers of a configuration are derived from the sources of its run. -/
theorem ids_perm_of_ofRun (hids : options.skipId = false)
    (hrun : Context.ofRun fresh options doc = .ok (ctx, root)) (hplan : Plan.of ctx root = .ok plan) :
    ((plan.configuration ctx).entities.map fun x => x.2.get? "id").Perm
      (((plan.entities ctx root).map fun o => (options.space, o.text)).map fun source =>
        some (.str (options.nameId source.1 source.2).text)) := by
  obtain ⟨-, -, ⟨tags, hstamp⟩, -⟩ := Context.ofRun_cases hrun
  have planned := Plan.planned_of_of hplan
  have hidentified := planned.identified (by simp [hstamp, Options.stamp, hids])
  refine ((Plan.entities_perm planned).map _).trans (List.Perm.of_eq ?_)
  rw [List.map_map, List.map_map]
  refine List.map_congr_left ?_
  intro o ho
  have hid := hidentified o ho
  rw [Owned.Identified, hstamp] at hid
  exact hid

/-- In the nested style every text of a run that names the document starts with a name whose first
slug is that of the document. -/
theorem head?_parts_of_text (hnested : options.flatNames = false) {name : String}
    (hname : options.documentName = some name) (hslug : options.naming.slug name ≠ "")
    (hrun : Context.ofRun fresh options doc = .ok (ctx, root)) :
    ∀ o ∈ plan.entities ctx root, Naming.DotFree o.owner.name ∧
      (Naming.parts o.owner.name).head? = some (options.naming.slug name) := by
  obtain ⟨-, hoptions, -, hbase⟩ := Context.ofRun_cases hrun
  have hroot := Document.baseName_of_documentName hname hslug hbase
  have hstyle : ctx.naming.flat = false := by
    simp [Context.naming, hoptions, Options.naming, hnested]
  have hslugs : root = ctx.naming.slug name := by
    rw [hroot, Context.naming, hoptions]
  intro o ho
  have howner : o.owner.Decodes := plan.forall_owner
    (fun site => site.decodes_owner hstyle hslugs)
    (fun e => e.decodes_owners hstyle hslugs ctx.doc) o ho
  rw [howner.parts_eq, plan.head?_sequence (hroot ▸ hslug) o ho, hroot]
  exact ⟨howner.dotFree, rfl⟩

end Run

/-- Changing the namespace or the document name changes every identifier. Two outputs of separate
options are identified from sources of which none is common to both; so when the identifiers of
different sources of the two runs are different, no entity of the one has an identifier of the
other, of whatever kinds they are. -/
theorem disjoint_ids_of_compile {fresh fresh' : Uuid} {options options' : Options} {doc : Document}
    {c c' : Configuration} (hids : options.skipId = false) (hids' : options'.skipId = false)
    (hnameId : options'.nameId = options.nameId) (hseparate : options.Separate options')
    (h : compile fresh options doc = .ok c) (h' : compile fresh' options' doc = .ok c') :
    ∃ sources sources', identifierSources fresh options doc = .ok sources ∧
      identifierSources fresh' options' doc = .ok sources' ∧
      (c.entities.map fun x => x.2.get? "id").Perm (sources.map fun source =>
        some (.str (options.nameId source.1 source.2).text)) ∧
      (c'.entities.map fun x => x.2.get? "id").Perm (sources'.map fun source =>
        some (.str (options.nameId source.1 source.2).text)) ∧
      (∀ source ∈ sources, source ∉ sources') ∧
      (Set.InjOn (fun source : Uuid × String => options.nameId source.1 source.2)
          {source | source ∈ sources ++ sources'} →
        ∀ x ∈ c.entities, ∀ y ∈ c'.entities, x.2.get? "id" ≠ y.2.get? "id") := by
  obtain ⟨ctx, root, plan, hrun, hplan, rfl⟩ := exists_plan_of_compile h
  obtain ⟨ctx', root', plan', hrun', hplan', rfl⟩ := exists_plan_of_compile h'
  have hperm := ids_perm_of_ofRun hids hrun hplan
  have hperm' := ids_perm_of_ofRun hids' hrun' hplan'
  rw [hnameId] at hperm'
  have hdisjoint : ∀ source ∈ (plan.entities ctx root).map fun o => (options.space, o.text),
      source ∉ (plan'.entities ctx' root').map fun o => (options'.space, o.text) := by
    intro source hsource hsource'
    obtain ⟨o, ho, rfl⟩ := List.mem_map.1 hsource
    obtain ⟨o', ho', heq⟩ := List.mem_map.1 hsource'
    obtain ⟨hspace, htext⟩ := Prod.mk.inj heq
    obtain hdiffer | ⟨name, name', hnested, hnested', hname, hname', hslug, hslug', hdiffer⟩ :=
      hseparate
    · exact hdiffer hspace.symm
    · -- one text starts with one name, and this with one slug
      obtain ⟨hdot, hhead⟩ := head?_parts_of_text hnested hname hslug hrun o ho
      obtain ⟨hdot', hhead'⟩ := head?_parts_of_text hnested' hname' hslug' hrun' o' ho'
      have howner := (hdot.append_inj hdot' htext.symm).1
      rw [howner, hhead'] at hhead
      exact hdiffer (Option.some.inj hhead).symm
  refine ⟨_, _, identifierSources_eq hrun hplan, identifierSources_eq hrun' hplan', hperm, hperm',
    hdisjoint, ?_⟩
  intro hinj x hx y hy hid
  obtain ⟨source, hsource, hx⟩ := List.mem_map.1
    (hperm.mem_iff.1 (List.mem_map_of_mem hx))
  obtain ⟨source', hsource', hy⟩ := List.mem_map.1
    (hperm'.mem_iff.1 (List.mem_map_of_mem hy))
  rw [← hx, ← hy, Option.some.injEq, Json.str.injEq] at hid
  have hsame := hinj (List.mem_append_left _ hsource) (List.mem_append_right _ hsource')
    (Uuid.text_injective hid)
  exact hdisjoint source hsource (hsame ▸ hsource')

/-- The small document under two names, of which the second is also the slug of its path: its
services and routes share no identifier with those of the other run. -/
theorem disjoint_ids_of_compile_greetings :
    ∃ c c', compile Uuid.dns { documentName := some "Greetings" } greetingDocument = .ok c ∧
      compile Uuid.dns { documentName := some "hello" } greetingDocument = .ok c' ∧
      c.entities.length = 3 ∧ c'.entities.length = 3 ∧
      ∀ x ∈ c.entities, ∀ y ∈ c'.entities, x.2.get? "id" ≠ y.2.get? "id" := by
  have hlength : ((compile Uuid.dns { documentName := some "Greetings" }
      greetingDocument).toOption.map fun c => c.entities.length) = some 3 := by
    decide +kernel
  have hlength' : ((compile Uuid.dns { documentName := some "hello" }
      greetingDocument).toOption.map fun c => c.entities.length) = some 3 := by
    decide +kernel
  have hsources : (identifierSources Uuid.dns { documentName := some "Greetings" }
      greetingDocument).toOption = some [(Uuid.dns, "greetings.service"),
        (Uuid.dns, "greetings_hello_get_1.route"), (Uuid.dns, "greetings_hello_get_2.route")] := by
    decide +kernel
  have hsources' : (identifierSources Uuid.dns { documentName := some "hello" }
      greetingDocument).toOption = some [(Uuid.dns, "hello.service"),
        (Uuid.dns, "hello_hello_get_1.route"), (Uuid.dns, "hello_hello_get_2.route")] := by
    decide +kernel
  obtain ⟨c, hc, hlength⟩ := Option.map_eq_some_iff.1 hlength
  obtain ⟨c', hc', hlength'⟩ := Option.map_eq_some_iff.1 hlength'
  rw [toOption_eq_some_iff] at hc hc' hsources hsources'
  have hseparate : Options.Separate { documentName := some "Greetings" }
      { documentName := some "hello" } :=
    Or.inr ⟨"Greetings", "hello", rfl, rfl, rfl, rfl, by decide +kernel, by decide +kernel,
      by decide +kernel⟩
  have hnameId : ({ documentName := some "hello" } : Options).nameId =
      ({ documentName := some "Greetings" } : Options).nameId := rfl
  obtain ⟨sources, sources', hrun, hrun', -, -, -, hdisjoint⟩ :=
    disjoint_ids_of_compile rfl rfl hnameId hseparate hc hc'
  obtain rfl := Except.ok.inj (hrun.symm.trans hsources)
  obtain rfl := Except.ok.inj (hrun'.symm.trans hsources')
  have hnodup : (([(Uuid.dns, "greetings.service"), (Uuid.dns, "greetings_hello_get_1.route"),
      (Uuid.dns, "greetings_hello_get_2.route"), (Uuid.dns, "hello.service"),
      (Uuid.dns, "hello_hello_get_1.route"), (Uuid.dns, "hello_hello_get_2.route")] :
        List (Uuid × String)).map fun source => Uuid.named source.1 source.2).Nodup := by
    decide +kernel
  refine ⟨c, c', hc, hc', hlength, hlength', hdisjoint ?_⟩
  intro source hsource source' hsource' heq
  exact List.inj_on_of_nodup_map hnodup hsource hsource' heq

end ApiGateway
