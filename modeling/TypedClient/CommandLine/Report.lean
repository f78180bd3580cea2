import TypedClient.CommandLine.Targets

/-! What is written about runs, line by line. -/

namespace TypedClient.CommandLine

open Terminal

/-- A line and where it goes. -/
abbrev Line := Channel × String

/-- How much is written, and in which colours. -/
structure Style where
  palette : Palette := {}
  verbose : Bool := false
  quiet : Bool := false
  deriving Repr, Inhabited

namespace Style

/-- Lines of output that are left out where little is to be written. -/
def unlessQuiet (st : Style) (lines : List String) : List Line :=
  if st.quiet then [] else lines.map fun l => (.output, l)

/-- A text with the time before it. -/
def timed (st : Style) (clock text : String) : String :=
  st.palette.paint .timestamp ("[" ++ clock ++ "]") ++ " " ++ text

def info (st : Style) (clock text : String) : List Line :=
  st.unlessQuiet [st.timed clock (st.palette.paint .primary text)]

def blanks (n : Nat) : String := String.ofList (List.replicate n ' ')

/-- A label and a value. -/
def stat (st : Style) (label value : String) : String :=
  blanks 12 ++ st.palette.paint .label label ++ " " ++ st.palette.paint .value value

end Style

def loading (st : Style) (clock : String) (s : TargetSettings) : List Line :=
  st.info clock ("Loading API document from: " ++ s.source.text)

def generated (st : Style) (clock : String) (r : Generation.Report) : List Line :=
  st.info clock
    ("Generated " ++ r.title.getD "untitled document" ++ " (" ++ r.version.name ++ ")")

/-! ### Numbers -/

/-- The counts of a summary, without those that are only written when there are any. -/
def countLines (st : Style) (s : Summary) : List String :=
  [st.stat "Types resolved:" (toString s.typesResolved),
    st.stat "Models generated:" (toString s.models),
    st.stat "" (toString s.classes ++ " classes, " ++ toString s.interfaces ++ " interfaces, " ++
      toString s.enums ++ " enums"),
    st.stat "Actions generated:" (toString s.actions)] ++
  (if s.controllers = 0 && s.namespaces = 0 then [] else
    [st.stat "" (toString s.controllers ++ " controllers, " ++ toString s.namespaces ++
      " namespaces")]) ++
  [st.stat "Files written:" (toString s.filesWritten)] ++
  (if s.warnings.isEmpty then [] else
    [st.stat "Warnings:" (toString s.warnings.length)])

/-- Cycles, each on a line of its own where much is to be written. -/
def cycleLines (st : Style) (label item : String) (cycles : List (List String)) : List String :=
  if cycles.isEmpty then []
  else
    let details := cycles.zipIdx.map fun (cycle, i) =>
      Style.blanks 14 ++ st.palette.paint .accent (item ++ " " ++ toString (i + 1)) ++ ": " ++
        st.palette.paint .info (String.intercalate " -> " cycle)
    st.stat label (toString cycles.length) :: if st.verbose then details else []

/-- Warnings after an empty line, the less important ones only where much is to be written. -/
def warningLines (st : Style) (warnings : List Warning) : List Line :=
  match warnings.filter fun w => w.isProminent || st.verbose with
  | [] => []
  | shown => (.output, "") :: shown.map fun w =>
      (.errors, st.palette.paint .accent "Warning:" ++ " " ++ st.palette.paint .primary w.text)

def statistics (st : Style) (s : Summary) : List Line :=
  if st.quiet then []
  else
    st.unlessQuiet (countLines st s ++
      cycleLines st "Cyclic references:" "Reference" s.cyclicReferences ++
      cycleLines st "Import cycles:" "Import cycle" s.importCycles) ++
    warningLines st s.warnings

/-! ### Ends -/

/-- The paths of all files of a run. -/
def writtenPaths (r : Generation.Report) : List String :=
  Assoc.values r.models.paths ++ r.models.indexPath.toList ++
    r.client.toList.flatMap fun c => Assoc.values c.paths

def written (st : Style) (clock : String) (r : Generation.Report) : List Line :=
  st.info clock ("Wrote to: " ++ r.basePath) ++
    if st.verbose then
      st.unlessQuiet ((writtenPaths r).map fun path =>
        Style.blanks 14 ++ st.palette.paint .info path)
    else []

/-- Written for a run that has come to a good end. -/
def finished (st : Style) (clock : String) (r : Generation.Report) : List Line :=
  generated st clock r ++ statistics st r.summary ++ written st clock r

def failed (st : Style) (clock : String) (s : TargetSettings) (e : RunFailure) : List Line :=
  [(.errors, st.timed clock
    (st.palette.paint .accent ("Failed to generate " ++ s.source.text ++ ":") ++ " " ++
      st.palette.paint .primary (chainText e.chain)))]

def succeeded (st : Style) (clock : String) (targets : Nat) : List Line :=
  let noun := if targets = 1 then "target" else "targets"
  st.unlessQuiet ["", st.timed clock
    (st.palette.paint .success ("Successfully generated " ++ toString targets ++ " " ++ noun))]

/-- Written for a command that fails: what went wrong, and below it what caused that. -/
def failureLines (e : CommandFailure) : List Line :=
  match e.chain with
  | [] => []
  | message :: [] => [(.errors, "Error: " ++ message)]
  | message :: causes =>
    ["Error: " ++ message, "", "Caused by:"].map (fun l => (.errors, l)) ++
      causes.map fun cause => (.errors, Style.blanks 4 ++ cause)

end TypedClient.CommandLine
