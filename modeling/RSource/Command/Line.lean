import RSource.Command.Basic

/-! The command line: which command the arguments name, and what it is to work on. -/

namespace RSource.Command

/-- The arguments of a command on many sources. -/
structure Options where
  positional : List String
  config : IndexConfig
  /-- Options that mean nothing. -/
  unknown : List String
  deriving Repr

namespace Options

/-- What follows `--cache=`. -/
def cache? (argument : String) : Option String :=
  let name := "--cache=".toList
  (Text.after? name argument.toList).map String.ofList

/-- Options may stand anywhere.  The sources are always indexed one after another, so that
`--no-parallel` asks for nothing new. -/
def ofArguments : List String → Options
  | [] => ⟨[], .default, []⟩
  | argument :: rest =>
    let o := ofArguments rest
    match cache? argument with
    | some dir =>
      { o with config := { o.config with cache := o.config.cache.or (some ⟨dir⟩) } }
    | none =>
      if argument = "--no-parallel" then o
      else if argument.startsWith "-" then { o with unknown := argument :: o.unknown }
      else { o with positional := argument :: o.positional }

/-- The output of a command after the warnings about options. -/
def warned (o : Options) (output : Output) : Output :=
  let warnings := o.unknown.map fun option => s!"warning: ignoring unknown option '{option}'"
  { output with err := unlines warnings ++ output.err }

end Options

def version : String := "0.1.0-alpha.8"

/-- The help text. -/
def usage : List String := [
  "rpsic: R parser and stub index",
  "",
  "Usage: rpsic <command> [options]",
  "",
  "Commands:",
  "  lex <file.R>            Tokenize and display tokens",
  "  parse <file.R>          Display the syntax tree and diagnostics",
  "  stubs <file.R>          Display the stub tree of a file",
  "  index <dir>             Index every R file under a directory",
  "  find <dir> <name>       Find assignments and parameters by name",
  "  help                    Show this help message",
  "  version                 Show version information",
  "",
  "Index options:",
  "  --cache=<dir>           Persist stubs in <dir> and reuse them",
  "  --no-parallel           Index files one at a time",
  "",
  "Logging:",
  "  RUST_LOG=rpsi_parse=debug   Enable tracing output",
  "  RPSI_LOG_TREE=1             Show tracing as an indented span tree",
  "",
  "Examples:",
  "  rpsic parse analysis.R",
  "  rpsic index pkg/R --cache=.rpsi-cache",
  "  rpsic find pkg/R summarise"]

/-- The output for arguments that a command cannot be run with. -/
def misused (arguments : String) : Output := .failure [s!"Usage: rpsic {arguments}"]

variable {m : Type → Type} [Monad m] [MonadDisk m]

/-- Runs a command on the source that the first of its arguments names. -/
def onSource (name : String) (command : Path → String → Output) : List String → m Output
  | [] => return misused s!"{name} <file.R>"
  | path :: _ => inspect command ⟨path⟩

/-- Runs the command that arguments name.  `terminal` tells whether errors are shown in a terminal.
-/
def run (terminal : Bool) : List String → m Output
  | [] => return .success usage
  | command :: arguments =>
    match command with
    | "lex" => onSource command showTokens arguments
    | "parse" => onSource command (showTree terminal) arguments
    | "stubs" => onSource command showStubs arguments
    | "index" => do
      let o := Options.ofArguments arguments
      match o.positional with
      | [dir] => return o.warned (← onWorkspace ⟨dir⟩ o.config (survey ⟨dir⟩))
      | _ => return o.warned (misused "index <dir> [--cache=<dir>] [--no-parallel]")
    | "find" => do
      let o := Options.ofArguments arguments
      match o.positional with
      | [dir, name] => return o.warned (← onWorkspace ⟨dir⟩ o.config (found ⟨dir⟩ name))
      | _ => return o.warned (misused "find <dir> <name> [--cache=<dir>] [--no-parallel]")
    | "help" | "--help" | "-h" => return .success usage
    | "version" | "--version" | "-V" => return .success [s!"rpsic {version}"]
    | _ => return ⟨1, unlines usage, unlines [s!"Unknown command: {command}", ""]⟩

end RSource.Command
