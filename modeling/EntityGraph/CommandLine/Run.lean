import EntityGraph.CommandLine.Request
import EntityGraph.Document.Load
import EntityGraph.Log.Output
import EntityGraph.Schema.Describe

/-!
# Running requests

What the tool writes and how it ends. Nothing is written before the settings are known to be in
order; the log is written up to the failure that ends a run.
-/

namespace EntityGraph.CommandLine

open EntityGraph.Document

/-- How a run ends. -/
inductive Ending
  /-- All is done. -/
  | finished
  | exit (status : Nat)
  /-- A failure that is not reported on the way. -/
  | failed (f : Failure)

/-- What a run writes and how it ends. -/
structure Outcome where
  output : String
  errors : String
  ending : Ending

namespace Outcome

/-- Nothing but a failure. -/
def ofFailure (f : Failure) : Outcome := ⟨"", "", .failed f⟩

/-- A text that is the answer to a request. -/
def ofText (text : Except Fault String) : Outcome :=
  match text with
  | .ok text => ⟨text ++ "\n", "", .finished⟩
  | .error f => ofFailure (.fault f)

/-- A complaint that ends a run. -/
def ofComplaint (text : String) : Outcome := ⟨"", text ++ "\n", .exit 1⟩

/-- An outcome behind the lines of a log. -/
def afterLog (lines : List String) (o : Outcome) : Outcome :=
  { o with errors := String.join (lines.map (· ++ "\n")) ++ o.errors }

end Outcome

/-- The outcome of a command line that asks for help or is wrong. -/
def Stop.outcome (s : Stop) : Outcome :=
  match s.halt with
  | .help => ⟨s.grammar.help, "", .exit 0⟩
  | .misuse m => ⟨"", s.grammar.complaint m, .exit 2⟩

/-- What is said about a document: whether it is valid, and what is to be said. -/
structure Verdict where
  isValid : Bool
  messages : List String
  deriving DecidableEq, Repr

namespace Verdict

/-- What is said about the document at a path that compiles to a schema or fails. Reported errors
and faults of files make it invalid. -/
def ofResult (path : String) : Except Failure Schema → Except Failure Verdict
  | .ok s => do return ⟨true, ← s.graph.validate⟩
  | .error (.reported r) => .ok ⟨false, [r.text]⟩
  | .error (.file f) => .ok ⟨false, ["Cannot read " ++ path ++ ": " ++ f.message]⟩
  | .error f => .error f

/-- The outcome of a request for a verdict. -/
def outcome (v : Verdict) : Outcome :=
  let lines (mark : String) : String := String.join (v.messages.map fun m ↦ mark ++ m ++ "\n")
  if v.isValid then ⟨"Schema is valid\n" ++ lines "  warning: ", "", .exit 0⟩
  else ⟨"Schema validation failed:\n" ++ lines "  - ", "", .exit 1⟩

end Verdict

/-- The schema that is declared at a path of which reading found bytes or a fault. -/
def compileAt (host : Host) (yaml : Yaml.Library) (config : CompilerConfig) (path : String)
    (found : Except FileFault (List UInt8)) : Traced Schema := do
  let model ← load yaml (Path.ofString path) found
  model.compile host config

namespace Request

/-- The outcome of a request whose document compiles to a schema or fails. -/
def answer (r : Request) (result : Except Failure Schema) : Outcome :=
  match r.command with
  | .validate =>
    match Verdict.ofResult r.path result with
    | .ok verdict => verdict.outcome
    | .error f => .ofFailure f
  | command =>
    match result with
    | .ok s =>
      match command with
      | .describe .text => .ofText s.describe
      | .describe .json => .ofText s.describeJson
      | .validate | .fingerprint => .ofText (.ok s.fingerprint)
    | .error (.reported report) => .ofComplaint ("Error: " ++ report.text)
    | .error (.file f) => .ofComplaint ("Error: cannot read " ++ r.path ++ ": " ++ f.message)
    | .error f => .ofFailure f

/-- The lines of a log that are written from a threshold on. -/
def logLines (config : LogConfig) (threshold : Int) (time : String) (log : List LogRecord) :
    List String :=
  log.filterMap (config.write? threshold time)

/-- The outcome of a request on a host in an environment at a time, where reading the document found
bytes or a fault. -/
def run (r : Request) (host : Host) (yaml : Yaml.Library) (env : Environment) (time : String)
    (found : Except FileFault (List UInt8)) : Outcome :=
  match do
    let settings ← env.settings
    return (settings, ← settings.log.threshold) with
  | .error f => .ofFailure f
  | .ok (settings, threshold) =>
    let compiled := compileAt host yaml settings.compiler r.path found
    (r.answer compiled.result).afterLog (logLines settings.log threshold time compiled.log)

end Request

/-- The outcome of a command line on a host in an environment at a time, where files are read by a
function. -/
def run (host : Host) (yaml : Yaml.Library) (arguments : List String) (env : Environment)
    (time : String) (read : Path → Except FileFault (List UInt8)) : Outcome :=
  match Request.ofArguments arguments with
  | .error stop => stop.outcome
  | .ok request => request.run host yaml env time (read (.ofString request.path))

end EntityGraph.CommandLine
