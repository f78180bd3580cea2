import TypedClient.Client.MediaTypeGrammar
import TypedClient.Code.Template
import TypedClient.CommandLine.Arguments
import TypedClient.CommandLine.Report
import TypedClient.Reach
import TypedClient.Terminal.Basic
import TypedClient.Text.AsciiTable

/-! Running commands, with the libraries that the program comes with. A target that fails does not
keep the next ones from being generated. -/

namespace TypedClient.CommandLine

open Terminal

variable {m : Type → Type} [Monad m] [Host m] [Console m]

def printAll (lines : List Line) : m Unit := lines.forM fun l => Console.print l.1 l.2

/-! ### Listing -/

/-- The actions of a client, one in each row. -/
def actionTable (d : ApiDefinition) : Table :=
  { head := ["GROUP", "ACTION", "METHOD", "PATH", "RETURNS"]
    rows := d.allActions.map fun (group, a) =>
      [{ text := group }, { text := a.name }, { text := a.method.name, right := true },
        { text := a.url }, { text := a.returnType }] }

def listActions (input : String) : m (Except CommandFailure Unit) := do
  let projection := (← (DocumentSource.ofText input).load).bind fun d => Projection.build d {}
  match projection with
  | .error e => pure (.error (.run (.document e)))
  | .ok p =>
    printAll ((actionTable p.client).lines.map fun l => (.output, l))
    pure (.ok ())

/-! ### Generating -/

/-- Generates one target. Says whether the formatter still counts as one that can be started, and
how many targets have failed so far. -/
def generateTarget (st : Style) (directory : String) (sofar : Bool × Nat) (s : TargetSettings) :
    m (Bool × Nat) := do
  printAll (loading st (← Console.clock) s)
  let (up, result) ← Generation.run directory sofar.1 s
  match result with
  | .ok r =>
    printAll (finished st (← Console.clock) r)
    pure (up, sofar.2)
  | .error e =>
    printAll (failed st (← Console.clock) s e)
    pure (up, sofar.2 + 1)

def generate (palette : Palette) (directory : String) (c : GenerateCommand) :
    m (Except CommandFailure Unit) := do
  match ← c.targets with
  | .error e => pure (.error e)
  | .ok targets =>
    let st : Style := { palette, verbose := c.verbose, quiet := c.quiet }
    let (_, failures) ← targets.foldlM (generateTarget st directory) (true, 0)
    if failures = 0 then
      printAll (succeeded st (← Console.clock) targets.length)
      pure (.ok ())
    else pure (.error (.targets failures targets.length))

/-! ### Commands -/

def usage : String := String.intercalate "\n" [
  "Generates TypeScript models and API clients from OpenAPI v2/v3 documents",
  "",
  "Usage: swagger-gen [OPTIONS] list actions --input <URL|FILE>",
  "       swagger-gen [OPTIONS] generate --config <FILE>",
  "       swagger-gen [OPTIONS] generate --input <URL|FILE> --base-path <DIR>",
  "",
  "Options for generate:",
  "  -c, --config <FILE>          JSON configuration file with a list of targets",
  "  -i, --input <URL|FILE>       URL or file path of the OpenAPI/Swagger document",
  "  -o, --base-path <DIR>        Directory that models and clients are written to",
  "      --no-models              Skip model generation",
  "      --no-api                 Skip API generation",
  "      --no-format              Do not run prettier on generated files",
  "      --no-index               Do not write the models index file",
  "      --no-clean               Keep existing files in the base path",
  "      --extension <EXT>        Extension for generated files (default: .ts)",
  "      --model-template <FILE>  Template file used for each model",
  "      --api-template <FILE>    Template file used for the API file",
  "      --response-type <TYPE>   Response type where media types do not tell: json, blob, text",
  "  -v, --verbose                Enable verbose output",
  "  -q, --quiet                  Suppress non-essential output",
  "",
  "Options:",
  "      --color <COLOR>          Control color output: always, auto, never",
  "      --theme <THEME>          Terminal theme: dark, light, auto",
  "  -h, --help                   Print help",
  "  -V, --version                Print version"]

def runCommand (palette : Palette) (directory : String) :
    Command → m (Except CommandFailure Unit)
  | .listActions input => listActions input
  | .generate c => generate palette directory c

/-- Runs what arguments ask for and gives the exit code. -/
def run (directory : String) (env : Environment) (args : List String) : m Nat := do
  match read args with
  | .help =>
    printAll [(.output, usage)]
    pure 0
  | .version =>
    printAll [(.output, programName ++ " " ++ version)]
    pure 0
  | .misuse =>
    printAll [(.errors, usage)]
    pure 2
  | .run color theme command =>
    match ← runCommand (palette color theme env) directory command with
    | .ok () => pure 0
    | .error e =>
      printAll (failureLines e)
      pure 1

end TypedClient.CommandLine
