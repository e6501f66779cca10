import ApiGateway.CommandLine.Outcome
import ApiGateway.Proofs.CommandLine.Usage
import ApiGateway.Proofs.Compilation.Structure
import ApiGateway.Proofs.Compilation.Untagged

/-!
# The outcomes of commands

A command either delivers the configuration it compiles or leaves nothing behind, and validating
tells beforehand which of the two compiling does. The two runs draw fresh identifiers of their own,
which a document without a name is named after. Neither whether it compiles nor how many services
and routes it has depends on them: the numbers are those of the document.

## Main definitions

* `Document.routeNumbers`: how many routes each service of a document has.
* `Outcome.Delivers`, `Outcome.Reports`, `Outcome.Refuses`: the three outcomes of commands.

## Main results

* `counts_of_compile`: the numbers of a configuration are those of its document.
* `Command.execute_of_ok`, `Command.refuses_execute`: what a command does for what it has read.
* `commands_agree`: what a command line does, and what validating says about it.
-/
namespace ApiGateway

/-! ## The numbers of a document -/

/-- How many routes each service has that a document asks for. -/
def Document.routeNumbers (doc : Document) (outline : List PathOutline) : List ℕ :=
  (doc.hosts outline).map fun host => (host.endpoints.map fun e => (e.sizes doc).prod).sum

/-- How many routes each service has that is kept: without servers, the service of the document is
dropped when it has no routes and there are others. -/
def Document.keptNumbers (doc : Document) (outline : List PathOutline) : List ℕ :=
  match doc.routeNumbers outline with
  | [] => []
  | first :: rest =>
    if doc.servers.isEmpty && !rest.isEmpty && first == 0 then rest else first :: rest

section Counts
variable {fresh fresh' : Uuid} {options : Options} {doc : Document} {c c' : Configuration}

/-- A configuration has as many services and routes as its document asks for. -/
theorem counts_of_compile (h : compile fresh options doc = .ok c) :
    ∃ outline, doc.outline = .ok outline ∧
      c.services.length = (doc.keptNumbers outline).length ∧
      c.routeCount = (doc.keptNumbers outline).sum := by
  obtain ⟨ctx, base, plan, hrun, hplan, rfl⟩ := exists_plan_of_compile h
  obtain ⟨rfl, -⟩ := Context.ofRun_cases hrun
  have planned := Plan.planned_of_of hplan
  obtain ⟨first, rest, hslots⟩ : ∃ first rest, plan.slots ctx = first :: rest := ⟨_, _, rfl⟩
  have hnumbers : ctx.doc.routeNumbers (plan.paths.map (PathPlan.outline ctx.doc)) =
      first.routes.length :: rest.map fun slot => slot.routes.length := by
    have hprovides := planned.provides
    rw [hslots] at hprovides
    exact map_eq_of_forall₂ (hprovides.imp fun _ _ h => (length_routes_of_provides h).symm)
  have hkept : (Build.dropUnused ctx.stamp (!ctx.doc.servers.isEmpty)
      ⟨plan.slots ctx, plan.shared ctx⟩).slots.map (fun slot => slot.routes.length) =
      ctx.doc.keptNumbers (plan.paths.map (PathPlan.outline ctx.doc)) := by
    rw [hslots, slots_dropUnused, Document.keptNumbers, hnumbers]
    have hempty : first.routes.isEmpty = (first.routes.length == 0) := by
      cases first.routes <;> rfl
    simp only [Bool.not_not, hempty, List.isEmpty_map]
    split <;> rfl
  have hservices : (plan.configuration ctx).services.Perm
      ((Build.dropUnused ctx.stamp (!ctx.doc.servers.isEmpty)
        ⟨plan.slots ctx, plan.shared ctx⟩).slots.map Slot.complete) := perm_sortEntities _
  refine ⟨plan.paths.map (PathPlan.outline ctx.doc), outline_eq_of_planned planned, ?_, ?_⟩
  · rw [hservices.length_eq, ← hkept, List.length_map, List.length_map]
  · rw [routeCount_eq hservices, hkept]

/-- Runs on one document with different fresh identifiers have as many services and routes. -/
theorem counts_fresh (h : compile fresh options doc = .ok c)
    (h' : compile fresh' options doc = .ok c') :
    c'.services.length = c.services.length ∧ c'.routeCount = c.routeCount := by
  obtain ⟨outline, houtline, hservices, hroutes⟩ := counts_of_compile h
  obtain ⟨outline', houtline', hservices', hroutes'⟩ := counts_of_compile h'
  obtain rfl : outline = outline' := Except.ok.inj (houtline.symm.trans houtline')
  exact ⟨hservices'.trans hservices.symm, hroutes'.trans hroutes.symm⟩

/-- A text that compiles does so with any fresh identifier, to as many services and routes. -/
theorem exists_compileText_fresh {text : String} (h : compileText fresh options text = .ok c)
    (fresh' : Uuid) : ∃ c', compileText fresh' options text = .ok c' ∧
      c'.services.length = c.services.length ∧ c'.routeCount = c.routeCount := by
  obtain ⟨doc, hread, hc⟩ := bind_eq_ok_iff.1 h
  obtain ⟨c', hc', -⟩ := exists_compile_fresh hc fresh'
  exact ⟨c', bind_eq_ok_iff.2 ⟨doc, hread, hc'⟩, counts_fresh hc hc'⟩

end Counts

/-! ## Outcomes -/

namespace Outcome

/-- A text goes to its destination and nowhere else: to the standard output when that is a hyphen,
to the file of that name otherwise. -/
structure Delivers (destination text : String) (outcome : Outcome) : Prop where
  code : outcome.code = 0
  output : outcome.output = if destination = "-" then text else ""
  file : outcome.file = if destination = "-" then none else some (destination, text)

/-- A line on the error output tells the number of services and routes. -/
structure Reports (spec : String) (services routes : ℕ) (outcome : Outcome) : Prop where
  code : outcome.code = 0
  output : outcome.output = ""
  file : outcome.file = none
  messages : outcome.messages =
    ["✓ " ++ spec ++ " compiles (" ++ toString services ++ " services, " ++ toString routes ++
      " routes)"]

/-- Nothing is written but lines on the error output. -/
structure Refuses (outcome : Outcome) : Prop where
  code : outcome.code = 1
  output : outcome.output = ""
  file : outcome.file = none

end Outcome

namespace Command
variable {command : Command} {fresh : Uuid} {input : Except String String} {c : Configuration}

/-- A command has a configuration when it can read a text and compile it. -/
theorem configuration_eq_ok_iff : command.configuration fresh input = .ok c ↔
    ∃ text, input = .ok text ∧ compileText fresh command.options text = .ok c := by
  cases input with
  | error reason => simp [configuration]
  | ok text =>
    cases hc : compileText fresh command.options text with
    | error e => simp [configuration, hc]
    | ok c' => simp [configuration, hc]

theorem code_success (command : Command) (c : Configuration) : (command.success c).code = 0 := by
  unfold success
  split
  · split <;> rfl
  · rfl

theorem delivers_success {destination : String} {format : Format}
    (h : command.task = .compile destination format) (c : Configuration) :
    (command.success c).Delivers destination (c.render format) := by
  simp only [success, h]
  split <;> exact ⟨rfl, by simp_all, by simp_all⟩

theorem reports_success (h : command.task = .validate) (c : Configuration) :
    (command.success c).Reports command.spec c.services.length c.routeCount := by
  simp only [success, h]
  exact ⟨rfl, rfl, rfl, rfl⟩

theorem refuses_failure (command : Command) (reason : String) :
    (command.failure reason).Refuses := by
  unfold failure
  split <;> exact ⟨rfl, rfl, rfl⟩

/-- A command that can read a text and compile it succeeds with the configuration. -/
theorem execute_of_ok {text : String} (hinput : input = .ok text)
    (hc : compileText fresh command.options text = .ok c) :
    command.execute fresh input = command.success c := by
  rw [execute, configuration_eq_ok_iff.2 ⟨text, hinput, hc⟩]

/-- A command that cannot is refused. -/
theorem refuses_execute
    (h : ¬ ∃ text c, input = .ok text ∧ compileText fresh command.options text = .ok c) :
    (command.execute fresh input).Refuses := by
  cases hc : command.configuration fresh input with
  | ok c =>
    obtain ⟨text, hcompile⟩ := configuration_eq_ok_iff.1 hc
    exact absurd ⟨text, c, hcompile⟩ h
  | error reason =>
    rw [execute, hc]
    exact command.refuses_failure reason

/-- The exit code tells whether a command could read a text and compile it. -/
theorem code_execute_eq_zero_iff : (command.execute fresh input).code = 0 ↔
    ∃ text c, input = .ok text ∧ compileText fresh command.options text = .ok c := by
  constructor
  · intro hcode
    by_contra hnone
    rw [(refuses_execute hnone).code] at hcode
    cases hcode
  · rintro ⟨text, c, hinput, hc⟩
    rw [execute_of_ok hinput hc, code_success]

/-- Commands with the same document and options succeed alike, whatever identifiers they draw. -/
theorem code_execute_congr {command' : Command} (hoptions : command'.options = command.options)
    (fresh fresh' : Uuid) (input : Except String String) :
    (command'.execute fresh' input).code = 0 ↔ (command.execute fresh input).code = 0 := by
  rw [code_execute_eq_zero_iff, code_execute_eq_zero_iff, hoptions]
  constructor
  · rintro ⟨text, c', hinput, hc'⟩
    obtain ⟨c, hc, -⟩ := exists_compileText_fresh hc' fresh
    exact ⟨text, c, hinput, hc⟩
  · rintro ⟨text, c, hinput, hc⟩
    obtain ⟨c', hc', -⟩ := exists_compileText_fresh hc fresh'
    exact ⟨text, c', hinput, hc'⟩

/-- A command that does not succeed is refused. -/
theorem refuses_of_code_ne_zero (h : (command.execute fresh input).code ≠ 0) :
    (command.execute fresh input).Refuses :=
  refuses_execute fun hcompiles => h (code_execute_eq_zero_iff.2 hcompiles)

/-- Validating reports the numbers of what compiling makes of the same text. -/
theorem reports_execute {command' : Command} (htask : command'.task = .validate)
    (hoptions : command'.options = command.options) {text : String} (hinput : input = .ok text)
    (hc : compileText fresh command.options text = .ok c) (fresh' : Uuid) :
    (command'.execute fresh' input).Reports command'.spec c.services.length c.routeCount := by
  obtain ⟨c', hc', hservices, hroutes⟩ := exists_compileText_fresh hc fresh'
  rw [execute_of_ok hinput (hoptions ▸ hc'), ← hservices, ← hroutes]
  exact reports_success htask c'

end Command

/-- All or nothing, and the two tasks agree. A command line that is read asks for what its parts
say. When it compiles, it succeeds exactly when its document can be read and compiles with the
options asked for; then the text of that configuration goes to its destination and nowhere else, and
otherwise nothing is written. There is a command line that validates instead, and every one with the
same document and options, whatever identifiers it draws, has the same exit code, writes nothing,
and reports the numbers of the services and routes of that configuration. -/
theorem commands_agree {environment : String → Option String} {words : List String}
    {conventions : Conventions} {command : Command}
    (h : Command.parse? environment words conventions = some command)
    (read : Source → Except String String) (fresh : Uuid) :
    (∃ invocation : Invocation, invocation.Written words ∧ invocation.Proper environment ∧
      invocation.Asks environment conventions command) ∧
    ∀ destination format, command.task = .compile destination format →
      let outcome := command.execute fresh (read command.source)
      (outcome.code = 0 ↔ ∃ text c, read command.source = .ok text ∧
        compileText fresh command.options text = .ok c) ∧
      (∀ text c, read command.source = .ok text →
        compileText fresh command.options text = .ok c →
          outcome.Delivers destination (c.render format)) ∧
      (outcome.code ≠ 0 → outcome.Refuses) ∧
      (∃ words', Command.parse? environment words' conventions =
        some { command with task := .validate }) ∧
      ∀ words' command' fresh', Command.parse? environment words' conventions = some command' →
        command'.task = .validate → command'.spec = command.spec →
        command'.options = command.options →
          let check := command'.execute fresh' (read command'.source)
          check.code = outcome.code ∧ check.output = "" ∧ check.file = none ∧
          ∀ text c, read command.source = .ok text →
            compileText fresh command.options text = .ok c →
              check.Reports command.spec c.services.length c.routeCount := by
  refine ⟨Command.parse?_eq_some_iff.1 h, fun destination format htask => ?_⟩
  refine ⟨Command.code_execute_eq_zero_iff, fun text c hread hc => ?_,
    Command.refuses_of_code_ne_zero, Command.exists_validating h, ?_⟩
  · rw [Command.execute_of_ok hread hc]
    exact Command.delivers_success htask c
  · intro words' command' fresh' _ htask' hspec hoptions
    have hsource : command'.source = command.source := by
      rw [Command.source, hspec, Command.source]
    rw [hsource]
    have hreports : ∀ text c, read command.source = .ok text →
        compileText fresh command.options text = .ok c →
          (command'.execute fresh' (read command.source)).Reports command.spec c.services.length
            c.routeCount := by
      intro text c hread hc
      rw [← hspec]
      exact Command.reports_execute htask' hoptions hread hc fresh'
    have hsame := Command.code_execute_congr hoptions fresh fresh' (read command.source)
    by_cases hcode : (command.execute fresh (read command.source)).code = 0
    · obtain ⟨text, c, hread, hc⟩ := Command.code_execute_eq_zero_iff.1 hcode
      obtain ⟨hzero, houtput, hfile, -⟩ := hreports text c hread hc
      exact ⟨hzero.trans hcode.symm, houtput, hfile, hreports⟩
    · have hrefuses := Command.refuses_of_code_ne_zero hcode
      have hrefuses' := Command.refuses_of_code_ne_zero (mt hsame.1 hcode)
      exact ⟨hrefuses'.code.trans hrefuses.code.symm, hrefuses'.output, hrefuses'.file, hreports⟩

/-- A small document with one operation. -/
def menuText : String := "openapi: 3.0.0\npaths:\n  /soup:\n    get: {}\n"

/-- A command for the small document, whose name comes from the environment. -/
def menuCommand (task : Task) : Command :=
  ⟨"menu.yaml", task, { documentName := some "bistro", skipId := true }⟩

/-- An environment that names the document. -/
def menuEnvironment (key : String) : Option String :=
  if key = "DECKFORGE_DOC_NAME" then some "bistro" else none

/-- The small document is compiled to a file, and validating reports its one route. Without the
document both are refused. -/
theorem commands_agree_menu :
    ∃ c, compileText Uuid.dns (menuCommand .validate).options menuText = .ok c ∧
      Command.parse? menuEnvironment ["--log-level", "info", "compile", "--no-id",
        "--spec=menu.yaml", "-ogate.json", "--format", "json"] =
          some (menuCommand (.compile "gate.json" .json)) ∧
      Command.parse? menuEnvironment ["validate", "-s", "menu.yaml", "--no-id", "--"] =
        some (menuCommand .validate) ∧
      ((menuCommand (.compile "gate.json" .json)).execute Uuid.dns (.ok menuText)).Delivers
        "gate.json" (c.render .json) ∧
      ((menuCommand .validate).execute Uuid.dns (.ok menuText)).Reports "menu.yaml" 1 1 ∧
      ((menuCommand (.compile "gate.json" .json)).execute Uuid.dns
        (.error "No such file or directory (os error 2)")).Refuses ∧
      ((menuCommand .validate).execute Uuid.dns
        (.error "No such file or directory (os error 2)")).code = 1 := by
  have hcompile : Command.parse? menuEnvironment ["--log-level", "info", "compile", "--no-id",
      "--spec=menu.yaml", "-ogate.json", "--format", "json"] =
        some (menuCommand (.compile "gate.json" .json)) := rfl
  have hvalidate : Command.parse? menuEnvironment ["validate", "-s", "menu.yaml", "--no-id", "--"] =
      some (menuCommand .validate) := rfl
  have hnumbers : ((compileText Uuid.dns (menuCommand .validate).options menuText).toOption.map
      fun c => (c.services.length, c.routeCount)) = some (1, 1) := by
    decide +kernel
  obtain ⟨c, hc, hcounts⟩ := Option.map_eq_some_iff.1 hnumbers
  rw [toOption_eq_some_iff] at hc
  obtain ⟨hservices, hroutes⟩ := Prod.mk.inj hcounts
  obtain ⟨-, hdocument⟩ := commands_agree hcompile (fun _ => .ok menuText) Uuid.dns
  obtain ⟨-, hdelivers, -, -, hchecks⟩ := hdocument "gate.json" .json rfl
  obtain ⟨-, -, -, hreports⟩ := hchecks _ _ Uuid.dns hvalidate rfl rfl rfl
  have hreported := hreports menuText c rfl hc
  rw [hservices, hroutes] at hreported
  obtain ⟨-, hmissing⟩ := commands_agree hcompile
    (fun _ => .error "No such file or directory (os error 2)") Uuid.dns
  obtain ⟨hsucceeds, -, hrefuses, -, hchecks'⟩ := hmissing "gate.json" .json rfl
  have hrefused := hrefuses fun hcode => by
    obtain ⟨text, c, hread, -⟩ := hsucceeds.1 hcode
    cases hread
  obtain ⟨hcode, -⟩ := hchecks' _ _ Uuid.dns hvalidate rfl rfl rfl
  exact ⟨c, hc, hcompile, hvalidate, hdelivers menuText c rfl hc, hreported, hrefused,
    hcode.trans hrefused.code⟩

end ApiGateway
