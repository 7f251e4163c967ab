import OpTree.Command.Execute

/-!
The program: takes in what the command line names of the file system, executes the command on
it, and writes back what has changed.
-/

namespace OpTree.Main

open OpTree.World

/-- What stands at a path. -/
def probe (path : String) : IO (Option Node) := do
  let p := (← IO.currentDir) / path
  if ← p.isDir then return some .directory
  try
    let bytes ← IO.FS.readBinFile p
    return some (.file bytes.toList)
  catch _ => return none

/-- The tree with what stands at each step of a path. -/
def takeIn (t : FileTree) (path : String) : IO FileTree := do
  let p := FileTree.Path.ofString path
  let mut t := t
  let mut place := t.origin p
  let mut text := if p.absolute then "" else "."
  for c in p.components do
    text := text ++ "/" ++ c
    match FileTree.step place c with
    | .error _ => return t
    | .ok q => place := q
    if (t.node? place).isNone then
      match ← probe text with
      | none => return t
      | some n => t := t.put place n
  return t

/-- The part of the file system that a command may touch. -/
def snapshot (paths : List String) : IO FileTree := do
  let home := (FileTree.Path.ofString (← IO.currentDir).toString).components
  let t : FileTree := { home, nodes := FileTree.devices ++ FileTree.streams }
  paths.foldlM takeIn (t.withDirectories home)

/-- Writes the files that are new or have changed. -/
def writeBack (before after : FileTree) : IO Unit :=
  for (place, node) in after.nodes do
    if let .file content := node then
      if before.node? place ≠ some node then
        IO.FS.writeBinFile ("/" ++ "/".intercalate place) ⟨content.toArray⟩

/-- The time that is shown for a pass: none, as the execution takes place in one step. -/
def time (_ : Nat) : String := "0.000"

/-- Executes a command line and returns its exit code. -/
def run (args : List String) : IO UInt32 := do
  let colors := Command.showsColors (← IO.getEnv "CLICOLOR_FORCE") (← IO.getEnv "NO_COLOR")
    (← IO.getEnv "CLICOLOR") (← (← IO.getStdout).isTty)
  let invocation := Command.Invocation.ofArguments args
  let paths := match invocation with
    | .ok i => i.action.paths
    | .error _ => []
  let files ← snapshot paths
  let o := Command.execute time args { ansi := colors, files }
  writeBack files o.world.files
  let transcript := o.world.transcript "" (Command.shownLevel args)
  (← IO.getStderr).write ⟨transcript.toArray⟩
  (← IO.getStdout).write ⟨o.world.output.written.toArray⟩
  return UInt32.ofNat o.exit

end OpTree.Main

def main (args : List String) : IO UInt32 := OpTree.Main.run args
