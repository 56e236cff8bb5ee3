import Reckoner.CommandLine.Run

/-!
# Program

Gives the command line its arguments and the file that they name, prints what it
answers, and writes the files that it changed.
-/

namespace Reckoner

/-- The tree that holds the file named in the arguments, if it can be read. -/
def loadTree (args : List Text) : IO FileTree := do
  match CommandLine.read args with
  | .ok { file := some name, .. } =>
    try
      let data ← IO.FS.readBinFile (String.ofList name)
      return FileTree.empty.insert (Path.ofText name) (.bytes data.toList)
    catch _ => return FileTree.empty
  | _ => return FileTree.empty

def saveChanges (before after : FileTree) : IO Unit := do
  for (key, content) in after.files do
    if before.get? key != some content then
      IO.FS.writeBinFile (String.ofList (FileTree.pathOf key)) ⟨content.data.toArray⟩

def report (ending : CommandLine.Ending) : IO UInt32 := do
  let out ← IO.getStdout
  let err ← IO.getStderr
  match ending with
  | .refused =>
    err.putStr (String.ofList CommandLine.usage)
    return 2
  | .help =>
    out.putStr (String.ofList CommandLine.usage)
    return 0
  | .exit status stdout stderr =>
    out.putStr (String.ofList stdout)
    err.putStr (String.ofList stderr)
    return UInt32.ofNat status
  | .brokenBatch _ =>
    err.putStr "error: the file cannot be read, or its results cannot be written\n"
    return 1
  | .brokenExpression fault =>
    err.putStr (String.ofList (fault.message ++ ['\n']))
    return 1
  | .nameless n =>
    err.putStr (String.ofList (n.message ++ ['\n']))
    return 1

end Reckoner

open Reckoner in
def main (arguments : List String) : IO UInt32 := do
  let args := arguments.map String.toList
  let tree ← loadTree args
  let (run, level) := CommandLine.run .standard tree 1 .prompt args
  let err ← IO.getStderr
  for entry in run.log.kept (level.getD Level.standard) do
    err.putStr (String.ofList (entry.message ++ ['\n']))
  saveChanges tree run.tree
  report run.ending
