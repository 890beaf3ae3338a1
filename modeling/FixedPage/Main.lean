import FixedPage.Dump.Run

/-
  This file runs the command. It reads a directory into memory
  and writes what the pure command gives.

  Main declarations:
    * `main`
-/

namespace FixedPage.Dump

/- The fault that the system reports. -/
def systemFault : IO.Error → SystemFault
| .noFileOrDirectory .. => .notFound
| .inappropriateType .. => .notADirectory
| fault => .other (toString fault)

/- Reads a folder and what lies below it. -/
partial def readFolder
    (folder : IO.FS.DirEntry) :
    IO (List (String × Directory.Tree)) := do
  let entries ← folder.path.readDir
  entries.toList.mapM fun entry => do
    if ← entry.path.isDir then
      pure (entry.fileName, .folder (← readFolder entry))
    else
      let content ← IO.FS.readBinFile entry.path
      pure (entry.fileName, .file content.toList)

/- Opens the package that is stored in a directory. -/
def openPackage
    (directory : String) : IO (Except SystemFault Directory.Archive) := do
  try
    let entries ← readFolder ⟨directory, "."⟩
    pure (Directory.Archive.openAt (.folder entries) [])
  catch fault => pure (.error (systemFault fault))

end FixedPage.Dump

open FixedPage.Dump in
/- Lists the drawing operations of a page. -/
def main
    (arguments : List String) : IO UInt32 := do
  let opened ←
    match Usage.read arguments with
    | .ok (.run request) => openPackage request.directory
    | _ => pure (.error .notFound)
  let outcome := run arguments fun _ => opened
  for line in outcome.output do IO.println line
  for line in outcome.report do IO.eprintln line
  pure (UInt32.ofNat outcome.code)
