import ApiGateway.CommandLine.Outcome

/-!
# The program

Reads the surroundings a command needs, executes it and carries out what comes of it.
-/
namespace ApiGateway

/-- The reason of a failure as the system words it. -/
def reasonOf (e : IO.Error) : String :=
  match e with
  | .noFileOrDirectory _ code details | .permissionDenied (some _) code details
  | .inappropriateType (some _) code details =>
    details ++ " (os error " ++ toString code ++ ")"
  | other => toString other

/-- The result of an action, with the reason of a failure. -/
def attempt {α : Type} (action : IO α) : IO (Except String α) := do
  match ← action.toBaseIO with
  | .ok result => return .ok result
  | .error e => return .error (reasonOf e)

/-- All that remains in a stream. -/
partial def remaining (stream : IO.FS.Stream) (text : String) : IO String := do
  let line ← stream.getLine
  if line.isEmpty then return text else remaining stream (text ++ line)

/-- Reads a source. -/
def Source.load : Source → IO (Except String String)
  | .standardInput => do attempt (remaining (← IO.getStdin) "")
  | .file path => attempt (IO.FS.readFile path)

/-- A random identifier. -/
def randomUuid : IO Uuid := do
  let bytes ← IO.getRandomBytes 16
  return Uuid.random bytes.toList

/-- Carries out an outcome and returns its exit code. -/
def Outcome.perform (outcome : Outcome) : IO UInt32 := do
  let written ← match outcome.file with
    | none => pure outcome
    | some (path, text) => do
      match ← attempt (IO.FS.writeFile path text) with
      | .ok () => pure outcome
      | .error reason => pure (Outcome.unwritten path reason)
  (← IO.getStdout).putStr written.output
  for message in written.messages do
    IO.eprintln message
  return written.code.toUInt32

/-- The conventions of the program. -/
def conventions : Conventions :=
  { romanize := Romanization.spell, nameId := Uuid.named, readUri := Uri.parse }

/-- Runs a command line. -/
def runCommandLine (words : List String) : IO UInt32 := do
  let names := [OptionName.selectTag, .uuidBase, .docName, .logLevel, .logFormat].filterMap
    OptionName.environmentName?
  let known ← names.filterMapM fun name => do
    return (← IO.getEnv name).map fun value => (name, value)
  match Command.parse? (fun name => known.lookup name) words conventions with
  | none =>
    IO.eprintln "error: the usage is compile|validate --spec FILE with options"
    return Outcome.usage.code.toUInt32
  | some command =>
    let input ← command.source.load
    (command.execute (← randomUuid) input).perform

end ApiGateway

/-- The entry of the program. -/
def main (words : List String) : IO UInt32 := ApiGateway.runCommandLine words
