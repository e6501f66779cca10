import ApiGateway.Entity.Service
import ApiGateway.Proofs.Json.Members
import ApiGateway.Proofs.Outcome

/-!
# Services and their upstreams

A service keeps what its defaults say and takes the rest from its first server. It points to an
upstream when its defaults name no host and there are several servers, or defaults for an upstream.
The targets of the upstream are those that its defaults declare, or else the servers.

## Main definitions

* `Target.Extends`: a target with some parts filled in.
* `filledService`: a service before its host is known.
* `Retagged`: a declared target with the tags of the run.
* `ListsServer`: the entry of a server among the targets.

## Main results

* `Target.withDefaults_spec`: what is filled in, and that nothing that was given changes.
* `service_cases`: the three ways to the host of a service.
* `service_spec`: the service and the upstream of a scope.
-/
namespace ApiGateway

/-! ## Targets -/

namespace Target

/-- A target that has all parts of another. -/
structure Extends (t t' : Target) : Prop where
  host : ∀ host, t.host = some host → t'.host = some host
  scheme : ∀ scheme, t.scheme = some scheme → t'.scheme = some scheme
  port : ∀ port, t.port = some port → t'.port = some port
  path : t'.path = t.path

/-- The port is known when it is given or the scheme is a well-known one. -/
theorem isSome_port_withDefaults_iff (fallback : String) (t : Target) :
    (t.withDefaults fallback).port.isSome = true ↔
      t.port.isSome = true ∨ (t.withDefaults fallback).scheme = some "http" ∨
        (t.withDefaults fallback).scheme = some "https" := by
  simp only [withDefaults, portOfScheme?, Option.some.injEq]
  cases t.port with
  | some port => simp
  | none =>
    split
    · simp_all
    · split <;> simp_all

/-- Filling in leaves no target without host or scheme, changes nothing that was given, and is done
once and for all. -/
theorem withDefaults_spec (fallback : String) (t : Target) :
    (t.withDefaults fallback).host.isSome = true ∧ (t.withDefaults fallback).scheme.isSome = true ∧
      t.Extends (t.withDefaults fallback) ∧
      ∀ other, (t.withDefaults fallback).withDefaults other = t.withDefaults fallback := by
  refine ⟨rfl, rfl, ⟨?_, ?_, ?_, rfl⟩, ?_⟩
  · intro host hhost
    simp [withDefaults, hostname, hhost]
  · intro scheme hscheme
    simp [withDefaults, hscheme]
  · intro port hport
    simp [withDefaults, hport]
  · intro other
    simp [withDefaults, hostname, Option.or_assoc]

/-- There is a target for every server, in order, and one when there are no servers. -/
theorem parseAll_cases {servers : List Json} {readUri : String → Except UriError Uri}
    {targets : List Target} (h : parseAll servers readUri = .ok targets) :
    (servers = [] ∧ targets = [root]) ∨
      List.Forall₂ (fun server t => parse server readUri = .ok t) servers targets := by
  unfold parseAll at h
  split at h
  · exact Or.inl ⟨rfl, (Except.ok.inj h).symm⟩
  · exact Or.inr (forall₂_of_mapM_eq_ok h)

theorem ne_nil_of_parseAll {servers : List Json} {readUri : String → Except UriError Uri}
    {targets : List Target} (h : parseAll servers readUri = .ok targets) : targets ≠ [] := by
  obtain ⟨-, rfl⟩ | htargets := parseAll_cases h
  · simp
  · rintro rfl
    cases htargets
    cases h

/-- Filling in leaves the name of the host alone. -/
@[simp] theorem hostname_withDefaults (fallback : String) (t : Target) :
    (t.withDefaults fallback).hostname = t.hostname := rfl

end Target

/-! ## Upstreams -/

/-- An entry of declared targets with the tags of the run: only objects can have them. -/
def Retagged (stamp : Stamp) (declared entry : Json) : Prop :=
  (∃ target target' : Members, declared = .obj target ∧ entry = .obj target' ∧
    target'.get? "tags" = some stamp.tagList ∧
    ∀ key, key ≠ "tags" → target'.get? key = target.get? key) ∨
  (∀ target, declared ≠ .obj target) ∧ entry = declared

/-- The entry of a server among the targets: its host, with its port when that is given or its
scheme is a well-known one. -/
def ListsServer (stamp : Stamp) (fallback : String) (t : Target) (entry : Json) : Prop :=
  ∃ (target : Members) (text : String), entry = .obj target ∧
    target.get? "tags" = some stamp.tagList ∧ target.get? "target" = some (.str text) ∧
    (t.port.isSome = true ∨ (t.withDefaults fallback).scheme = some "http" ∨
        (t.withDefaults fallback).scheme = some "https" →
      ∃ port, (t.withDefaults fallback).port = some port ∧
        text = t.hostname ++ ":" ++ toString port) ∧
    ((t.withDefaults fallback).port = none → text = t.hostname)

/-- An upstream of a service with its targets: those that its defaults declare, or else the
servers. -/
structure UpstreamOf (stamp : Stamp) (base fallback : String) (defaults : Members)
    (targets : List Target) (up : Members) : Prop where
  name : up.get? "name" = some (.str (base ++ ".upstream"))
  declared : ∀ declared, defaults.get? "targets" = some (.arr declared) →
    ∃ entries, up.get? "targets" = some (.arr entries) ∧
      List.Forall₂ (Retagged stamp) declared entries
  servers : (∀ declared, defaults.get? "targets" ≠ some (.arr declared)) →
    ∃ entries, up.get? "targets" = some (.arr entries) ∧
      List.Forall₂ (ListsServer stamp fallback) targets entries

theorem retagged_declaredTarget (stamp : Stamp) (declared : Json) :
    Retagged stamp declared (declaredTarget stamp declared) := by
  cases declared with
  | obj target =>
    refine Or.inl ⟨target, _, rfl, rfl, by simp, ?_⟩
    intro key hkey
    simp [Members.get?_insert, hkey]
  | _ => exact Or.inr ⟨by simp, rfl⟩

theorem listsServer_serverTarget (stamp : Stamp) (fallback : String) (t : Target) :
    ListsServer stamp fallback t (serverTarget stamp (t.withDefaults fallback)) := by
  refine ⟨_, (t.withDefaults fallback).authority, rfl, by simp, by simp [Members.get?_insert],
    ?_, ?_⟩
  · intro hknown
    obtain ⟨port, hport⟩ :=
      Option.isSome_iff_exists.1 ((t.isSome_port_withDefaults_iff fallback).2 hknown)
    exact ⟨port, hport, by simp [Target.authority, hport]⟩
  · intro hnone
    simp [Target.authority, hnone]

/-- The entries of an upstream. -/
theorem upstream_spec (stamp : Stamp) (base fallback : String) (targets : List Target)
    (defaults : Option Members) :
    UpstreamOf stamp base fallback (defaults.getD []) targets
      (upstream stamp base (targets.map (·.withDefaults fallback)) defaults) := by
  have htargets : ((stamp.apply (defaults.getD []) base "upstream").insert "name"
      (.str (upstreamName base))).get? "targets" = (defaults.getD []).get? "targets" := by
    simp [Members.get?_insert, Stamp.get?_apply_of_ne]
  refine ⟨by simp [upstream, upstreamName, Members.get?_insert], ?_, ?_⟩
  · intro declared hdeclared
    refine ⟨declared.map (declaredTarget stamp), ?_, ?_⟩
    · simp [upstream, htargets, hdeclared]
    · exact List.forall₂_map_right_iff.2 (List.forall₂_same.2 fun entry _ =>
        retagged_declaredTarget stamp entry)
  · intro hnone
    refine ⟨(targets.map (·.withDefaults fallback)).map (serverTarget stamp), ?_, ?_⟩
    · simp only [upstream, htargets, Members.get?_insert_self]
    · rw [List.map_map]
      exact List.forall₂_map_right_iff.2 (List.forall₂_same.2 fun t _ =>
        listsServer_serverTarget stamp fallback t)

/-! ## Services -/

/-- Setting a key unless it is present keeps the value that was there. -/
theorem Members.get?_insertNew (members : Members) (key : String) (value : Json) (other : String) :
    (members.insertNew key value).get? other =
      if other = key then (members.get? key).or (some value) else members.get? other := by
  unfold insertNew has
  cases hkey : members.get? key with
  | none => simp [get?_insert]
  | some found =>
    split <;> simp_all

/-- The scheme of servers that name none and have no well-known port: the protocol of the defaults,
or the secure one. -/
def fallbackScheme (given : Members) : String := (given.string? "protocol").getD "https"

/-- A service before its host is known, made from its defaults and its first target. -/
def filledService (stamp : Stamp) (base : String) (given : Members) (first : Target) : Members :=
  (stamp.apply given base "service").insert "name" (.str base)
    |>.insert "plugins" (.arr [])
    |>.insert "routes" (.arr [])
    |>.insertNew "protocol" (.str (first.scheme.getD (fallbackScheme given)))
    |>.insertNew "path" (.str first.path)
    |>.insertNew "port" (.int (first.port.getD (fallbackPort first.scheme)))

/-- A service that keeps its defaults, with what they leave out taken from its first target. -/
structure Serves (stamp : Stamp) (base : String) (given : Members) (first : Target)
    (entity : Members) : Prop where
  name : entity.get? "name" = some (.str base)
  tags : entity.get? "tags" = some stamp.tagList
  kept : ∀ key, key ∉ ["id", "name", "tags", "plugins", "routes"] → ∀ value,
    given.get? key = some value → entity.get? key = some value
  host : (entity.get? "host").isSome = true
  protocol : ∃ scheme, first.scheme = some scheme ∧
    entity.get? "protocol" = (given.get? "protocol").or (some (.str scheme))
  path : entity.get? "path" = (given.get? "path").or (some (.str first.path))
  port : entity.get? "port" =
    (given.get? "port").or (some (.int (first.port.getD (fallbackPort first.scheme))))

section Service
variable {stamp : Stamp} {base : String} {servers : List Json} {defaults : Defaults}
  {readUri : String → Except UriError Uri} {entity : Members} {up : Option Members}

/-- A service has the host of its defaults, of its one server, or of its upstream. -/
theorem service_cases (h : service stamp base servers defaults readUri = .ok (entity, up)) :
    ∃ first rest filled, Target.parseAll servers readUri = .ok (first :: rest) ∧
      filled = filledService stamp base (defaults.service.getD [])
        (first.withDefaults (fallbackScheme (defaults.service.getD []))) ∧
      ((filled.has "host" = true ∧ entity = filled ∧ up = none) ∨
        (filled.has "host" = false ∧ rest = [] ∧ defaults.upstream = none ∧
          entity = filled.insert "host" (.str first.hostname) ∧ up = none) ∨
        (filled.has "host" = false ∧ (rest ≠ [] ∨ defaults.upstream ≠ none) ∧
          entity = filled.insert "host" (.str (upstreamName base)) ∧
          up = some (upstream stamp base ((first :: rest).map
            (·.withDefaults (fallbackScheme (defaults.service.getD [])))) defaults.upstream))) := by
  simp only [service] at h
  obtain ⟨targets, htargets, h⟩ := bind_eq_ok_iff.1 h
  have hfallback : ((((stamp.apply (defaults.service.getD []) base "service").insert "name"
      (.str base)).insert "plugins" (.arr [])).insert "routes" (.arr [])).string? "protocol" =
        (defaults.service.getD []).string? "protocol" := by
    simp [Members.string?, Members.get?_insert, Stamp.get?_apply_of_ne]
  obtain ⟨first, rest, rfl⟩ := List.exists_cons_of_ne_nil (Target.ne_nil_of_parseAll htargets)
  rw [hfallback] at h
  refine ⟨first, rest, _, htargets, rfl, ?_⟩
  split at h
  · rename_i hhost
    obtain ⟨rfl, rfl⟩ := Prod.mk.inj (Except.ok.inj h)
    exact Or.inl ⟨hhost, rfl, rfl⟩
  · rename_i hhost
    rw [Bool.not_eq_true] at hhost
    split at h
    · rename_i hone
      obtain ⟨rfl, rfl⟩ := Prod.mk.inj (Except.ok.inj h)
      refine Or.inr (Or.inl ⟨hhost, ?_, ?_, rfl, rfl⟩)
      · simpa using hone.1
      · simpa using hone.2
    · rename_i hseveral
      obtain ⟨rfl, rfl⟩ := Prod.mk.inj (Except.ok.inj h)
      refine Or.inr (Or.inr ⟨hhost, ?_, rfl, rfl⟩)
      simpa [or_iff_not_imp_left] using hseveral

/-- A service keeps the fields of its defaults that are not set for every service. -/
theorem get?_filledService_of_ne {given : Members} {first : Target} {key : String}
    (hkey : key ∉ ["id", "name", "tags", "plugins", "routes"])
    (hfilled : key ∉ ["protocol", "path", "port"]) :
    (filledService stamp base given first).get? key = given.get? key := by
  simp only [List.mem_cons, List.not_mem_nil, or_false, not_or] at hkey hfilled
  obtain ⟨hid, hname, htags, hplugins, hroutes⟩ := hkey
  obtain ⟨hprotocol, hpath, hport⟩ := hfilled
  simp [filledService, Members.get?_insertNew, Members.get?_insert, Stamp.get?_apply_of_ne, *]

/-- The fields of a service that are set or filled in before its host is known. -/
theorem filledService_spec (stamp : Stamp) (base : String) (given : Members) (first : Target) :
    let filled := filledService stamp base given first
    filled.get? "name" = some (.str base) ∧ filled.get? "tags" = some stamp.tagList ∧
      filled.get? "protocol" =
        (given.get? "protocol").or (some (.str (first.scheme.getD (fallbackScheme given)))) ∧
      filled.get? "path" = (given.get? "path").or (some (.str first.path)) ∧
      filled.get? "port" =
        (given.get? "port").or (some (.int (first.port.getD (fallbackPort first.scheme)))) := by
  refine ⟨?_, ?_, ?_, ?_, ?_⟩ <;>
    simp [filledService, Members.get?_insertNew, Members.get?_insert, Stamp.get?_apply_of_ne]

/-- A service with some host, the one of its defaults if they have one, serves its first target. -/
theorem serves_of_host {given : Members} {first : Target} (hscheme : first.scheme.isSome = true)
    (hhost : (entity.get? "host").isSome = true)
    (hkept : ∀ value, given.get? "host" = some value → entity.get? "host" = some value)
    (hothers : ∀ key, key ≠ "host" →
      entity.get? key = (filledService stamp base given first).get? key) :
    Serves stamp base given first entity := by
  obtain ⟨scheme, hscheme⟩ := Option.isSome_iff_exists.1 hscheme
  obtain ⟨hname, htags, hprotocol, hpath, hport⟩ := filledService_spec stamp base given first
  rw [hscheme, Option.getD_some] at hprotocol
  rw [← hothers _ (by decide)] at hname htags hprotocol hpath hport
  refine ⟨hname, htags, ?_, hhost, ⟨scheme, hscheme, hprotocol⟩, hpath, hport⟩
  intro key hkey value hvalue
  by_cases hfilled : key ∈ ["protocol", "path", "port"]
  · -- what would be filled in is given
    simp only [List.mem_cons, List.not_mem_nil, or_false] at hfilled
    rcases hfilled with rfl | rfl | rfl
    · rw [hprotocol, hvalue, Option.some_or]
    · rw [hpath, hvalue, Option.some_or]
    · rw [hport, hvalue, Option.some_or]
  · rcases eq_or_ne key "host" with rfl | hne
    · exact hkept value hvalue
    · rw [hothers _ hne, get?_filledService_of_ne hkey hfilled, hvalue]

/-- The service of a scope has its name and the tags of the run, keeps its defaults, and takes host,
port, protocol and path from the first server where the defaults leave them out. It has an upstream
exactly when the defaults name no host and there are several servers, or defaults for an upstream;
then the upstream is its host, and lists the declared targets or else the servers. -/
theorem service_spec (h : service stamp base servers defaults readUri = .ok (entity, up)) :
    ∃ first rest,
      let given := defaults.service.getD []
      let fallback := fallbackScheme given
      ((servers = [] ∧ first :: rest = [Target.root]) ∨
        List.Forall₂ (fun server t => Target.parse server readUri = .ok t) servers (first :: rest)) ∧
      Serves stamp base given (first.withDefaults fallback) entity ∧
      (up.isSome = true ↔ given.get? "host" = none ∧
        (2 ≤ servers.length ∨ defaults.upstream.isSome = true)) ∧
      (∀ u, up = some u → entity.get? "host" = u.get? "name" ∧
        UpstreamOf stamp base fallback (defaults.upstream.getD []) (first :: rest) u) ∧
      (up = none → given.get? "host" = none →
        entity.get? "host" = some (.str (first.host.getD "localhost"))) ∧
      ∀ (scheme : String) (t : Target), (t.withDefaults scheme).host.isSome = true ∧
        (t.withDefaults scheme).scheme.isSome = true ∧ t.Extends (t.withDefaults scheme) ∧
        ∀ other, (t.withDefaults scheme).withDefaults other = t.withDefaults scheme := by
  obtain ⟨first, rest, filled, htargets, hfilled, hcases⟩ := service_cases h
  have hservers := Target.parseAll_cases htargets
  have hlength : 2 ≤ servers.length ↔ rest ≠ [] := by
    obtain ⟨rfl, hroot⟩ | hall := hservers
    · simp [(List.cons.inj hroot).2]
    · rw [hall.length_eq, List.length_cons, Nat.succ_le_succ_iff, Nat.one_le_iff_ne_zero, ne_eq,
        List.length_eq_zero_iff]
  refine ⟨first, rest, ?_⟩
  intro given fallback
  have hhost : filled.get? "host" = given.get? "host" := by
    rw [hfilled, get?_filledService_of_ne (by decide) (by decide)]
  -- whatever host is set, the other fields are those of the filled service
  have hserves : ∀ host, given.get? "host" = none →
      Serves stamp base given (first.withDefaults fallback) (filled.insert "host" host) := by
    intro host hnone
    refine serves_of_host rfl (by simp) (by simp [hnone]) ?_
    intro key hne
    rw [Members.get?_insert, if_neg hne, hfilled]
  refine ⟨hservers, ?_⟩
  rw [Members.has, hhost] at hcases
  obtain ⟨hgiven, rfl, rfl⟩ | ⟨hnone, rfl, hupstream, rfl, rfl⟩ | ⟨hnone, hseveral, rfl, rfl⟩ :=
    hcases
  · have hsome := Option.isSome_iff_ne_none.1 hgiven
    refine ⟨?_, by simp [hsome], by simp, by simp [hsome], Target.withDefaults_spec⟩
    refine serves_of_host rfl (by rwa [hhost]) ?_ ?_
    · intro value hvalue
      rw [hhost, hvalue]
    · intro key _
      rw [hfilled]
  · rw [Option.isSome_eq_false_iff, Option.isNone_iff_eq_none] at hnone
    refine ⟨hserves _ hnone, ?_, by simp, fun _ _ => by simp [Target.hostname],
      Target.withDefaults_spec⟩
    simp [hlength, hupstream]
  · rw [Option.isSome_eq_false_iff, Option.isNone_iff_eq_none] at hnone
    refine ⟨hserves _ hnone, ?_, ?_, by simp, Target.withDefaults_spec⟩
    · simpa [hnone, hlength, Option.isSome_iff_ne_none] using hseveral
    · intro u hu
      obtain rfl := Option.some.inj hu
      have hupstream := upstream_spec stamp base fallback (first :: rest) defaults.upstream
      exact ⟨by rw [hupstream.name]; simp [upstreamName], hupstream⟩

end Service

/-- Two servers, of which the second has neither scheme nor port of its own. -/
def mirrorServers : List Json :=
  [.obj [("url", .str "http://files.example.com:8080/v1")],
    .obj [("url", .str "mirror.example.com")]]

/-- Without defaults the two servers are the targets of an upstream, which is the host of the
service. -/
theorem service_spec_mirrors :
    ∃ entity up, service ⟨["files"], Uuid.dns, true, Uuid.named⟩ "files" mirrorServers {} =
        .ok (entity, some up) ∧
      entity.get? "host" = some (.str "files.upstream") ∧
      entity.get? "port" = some (.int 8080) ∧
      ∃ entries, up.get? "targets" = some (.arr entries) ∧ entries.length = 2 := by
  have hsome : (service ⟨["files"], Uuid.dns, true, Uuid.named⟩ "files" mirrorServers
      {}).toOption.isSome = true := by
    decide +kernel
  obtain ⟨⟨entity, up⟩, h⟩ := Option.isSome_iff_exists.1 hsome
  rw [toOption_eq_some_iff] at h
  obtain ⟨first, rest, hservers, hserves, hupstream, hlisted, -⟩ := service_spec h
  obtain ⟨hempty, -⟩ | hall := hservers
  · cases hempty
  have hlength : rest.length = 1 := (Nat.succ.inj hall.length_eq).symm
  obtain ⟨up, rfl⟩ := Option.isSome_iff_exists.1 (hupstream.2 ⟨rfl, Or.inl (le_refl 2)⟩)
  obtain ⟨hhost, hup⟩ := hlisted up rfl
  obtain ⟨entries, hentries, hentry⟩ := hup.servers (by simp)
  refine ⟨entity, up, h, hhost.trans hup.name, ?_, entries, hentries, ?_⟩
  · cases hall with
    | cons hfirst hrest =>
      have hparse : Target.parse (.obj [("url", .str "http://files.example.com:8080/v1")]) =
          .ok ⟨some "http", some "files.example.com", some 8080, "/v1"⟩ := by
        decide +kernel
      obtain rfl := Except.ok.inj (hfirst.symm.trans hparse)
      exact hserves.port
  · rw [← hentry.length_eq, List.length_cons, hlength]

end ApiGateway
