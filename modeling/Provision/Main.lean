import Provision.Command.Report

/-!
# The command line

Evaluation is a function of what is known of the files. It starts from the node files
alone; when it misses a recipe that has not been looked for yet, that file is looked at
and the evaluation starts again.
-/

namespace Provision.Command

/-- How deep definitions may be nested. -/
def depth : Nat := 10000

/-- How the program is used. -/
def usage : String :=
  "Evaluate provisioning recipes into a resource tree and resolve notifications\n\n" ++
  "Usage: cocina [-l LEVEL] plan [-y FILE] [-j FILE] [--format text|json] RECIPE...\n" ++
  "       cocina [-l LEVEL] validate [-y FILE] [-j FILE] RECIPE..."

/-- The number of the system's error for a directory that is read like a file. -/
def isDirectoryCode : UInt32 := 21

/-- Whether a path that cannot be read is a directory. -/
def isDirectoryError : IO.Error → Bool
  | .inappropriateType _ code _ => code == isDirectoryCode
  | _ => false

/-- Whether there is nothing at a path that cannot be read. -/
def isAbsentError : IO.Error → Bool
  | .noFileOrDirectory .. => true
  | .inappropriateType _ code _ => code != isDirectoryCode
  | _ => false

/-- Looks at a path. -/
def look (p : Path) : IO (Path × Option Entry) := do
  try
    return (p, some (.file (.ok (← IO.FS.readFile p.text))))
  catch e =>
    if isDirectoryError e then return (p, some .directory)
    else if isAbsentError e then return (p, none)
    else return (p, some (.file (.error e.toString)))

/-- A path without the extension of recipes. Whether it is a directory decides what a target
without the extension means. -/
def bare (p : Path) : Path :=
  let cs := p.text.toList
  if Host.extension.isSuffixOf cs then
    ⟨String.ofList (cs.take (cs.length - Host.extension.length))⟩
  else p

/-- Does a job, and does it again as long as it misses a file that is not known yet. -/
partial def settle (j : Job) (home : Option Path) (current : Path)
    (facts : List (Path × Option Entry)) : IO Report := do
  let report := j.run (Host.ofFacts facts home current) depth
  match report.result with
  | .error (.recipe (.recipeNotFound _ path)) =>
    if facts.any (·.1.same path) then return report
    let found ← [path, bare path].mapM look
    settle j home current (facts ++ found)
  | _ => return report

/-- Does a job on the files of this machine. -/
def run (j : Job) : IO UInt32 := do
  let stderr ← IO.getStderr
  let (filter, notes) := j.filter (← IO.getEnv "RUST_LOG")
  let home := (← IO.getEnv "HOME").map Path.mk
  let current : Path := ⟨(← IO.currentDir).toString⟩
  let facts ← (j.nodeYaml.toList ++ j.nodeJson.toList).mapM look
  let report ← settle j home current facts
  for message in notes ++ report.messages filter do
    stderr.putStrLn message
  IO.print report.printed
  return UInt32.ofNat report.code

end Provision.Command

open Provision.Command in
/-- Does what the arguments ask for. -/
def main (arguments : List String) : IO UInt32 := do
  match Request.ofArguments arguments with
  | .ok (.run j) => run j
  | .ok .help =>
    IO.println usage
    return 0
  | .ok .version =>
    IO.println version
    return 0
  | .error m =>
    (← IO.getStderr).putStrLn ("error: " ++ m.message ++ "\n\n" ++ usage)
    return 2
