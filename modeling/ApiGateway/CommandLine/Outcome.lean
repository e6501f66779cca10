import ApiGateway.CommandLine.Arguments
import ApiGateway.Compilation.Compile

/-!
# What a command does

A command reads one text and compiles it. The outcome is a value: an exit code, what goes to
the standard output, the lines that go to the error output, and a file to write. A failure
writes nothing but lines to the error output.

## Main definitions

* `Command.source`: what a command reads.
* `Outcome`: what a command does.
* `Command.execute`: the outcome of a command for what it has read.
-/
namespace ApiGateway

/-- Where a text is read from. -/
inductive Source where
  | standardInput
  | file (path : String)
  deriving DecidableEq, Inhabited, Repr

/-- What a command does. -/
structure Outcome where
  code : Nat
  output : String := ""
  messages : List String := []
  file : Option (String × String) := none
  deriving DecidableEq, Inhabited, Repr

/-- The outcome of wrong usage. -/
def Outcome.usage : Outcome := { code := 2 }

/-- The outcome when a file cannot be written. -/
def Outcome.unwritten (path reason : String) : Outcome :=
  { code := 1, messages := ["error: failed to write " ++ path ++ ": " ++ reason] }

namespace Command

/-- What a command reads: a hyphen stands for the standard input. -/
def source (command : Command) : Source :=
  if command.spec = "-" then .standardInput else .file command.spec

/-- The configuration a command compiles from what it has read, or what went wrong. -/
def configuration (command : Command) (fresh : Uuid) (input : Except String String) :
    Except String Configuration :=
  match input with
  | .error reason =>
    let name := match command.source with
      | .standardInput => "stdin"
      | .file path => path
    .error ("failed to read " ++ name ++ ": " ++ reason)
  | .ok text =>
    match compileText fresh command.options text with
    | .error e => .error ("compilation failed: " ++ e.message)
    | .ok configuration => .ok configuration

/-- The outcome of a command with a configuration. -/
def success (command : Command) (configuration : Configuration) : Outcome :=
  match command.task with
  | .compile output format =>
    let text := configuration.render format
    if output = "-" then { code := 0, output := text }
    else { code := 0, file := some (output, text) }
  | .validate =>
    { code := 0
      messages := ["✓ " ++ command.spec ++ " compiles (" ++
        toString configuration.services.length ++ " services, " ++
        toString configuration.routeCount ++ " routes)"] }

/-- The outcome of a command without a configuration. -/
def failure (command : Command) (reason : String) : Outcome :=
  match command.task with
  | .compile _ _ => { code := 1, messages := ["error: " ++ reason] }
  | .validate => { code := 1, messages := ["✗ " ++ command.spec, "error: " ++ reason] }

/-- The outcome of a command for what it has read. -/
def execute (command : Command) (fresh : Uuid) (input : Except String String) : Outcome :=
  match command.configuration fresh input with
  | .ok configuration => command.success configuration
  | .error reason => command.failure reason

end Command

end ApiGateway
