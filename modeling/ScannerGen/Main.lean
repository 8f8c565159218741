import ScannerGen.CommandLine.Generator
import ScannerGen.CommandLine.TableTool
import ScannerGen.Files.Store

/-!
# Programs

The outer layer: files of the operating system, and the entry point.  Started under the name of
the table tool the program is that tool, and the generator under any other name.
-/

namespace ScannerGen

/-- What the operating system says about a failed operation. -/
def OsError.ofIoError : IO.Error → OsError
  | .noFileOrDirectory _ _ _ => .notFound
  | .permissionDenied _ _ _ => .notPermitted
  | .alreadyExists _ _ _ => .alreadyExists
  | .inappropriateType _ code reason =>
    if code = 20 then .notDirectory else if code = 21 then .isDirectory
    else .other code.toNat reason
  | e => .other 5 (toString e)

/-- The result of an operation on files. -/
def attemptIO {α : Type} (action : IO α) : IO (Except OsError α) := do
  try
    pure (.ok (← action))
  catch e =>
    pure (.error (OsError.ofIoError e))

instance : FileAccess IO where
  read p := attemptIO do
    pure (← IO.FS.readBinFile p.text).toList
  write p bytes := attemptIO (IO.FS.writeBinFile p.text ⟨bytes.toArray⟩)
  patch p offset bytes := attemptIO do
    let old := (← IO.FS.readBinFile p.text).toList
    IO.FS.writeBinFile p.text ⟨(FileSystem.overwritten old offset bytes).toArray⟩
  remove p := attemptIO (IO.FS.removeFile p.text)
  makeDirectory p := attemptIO (IO.FS.createDir p.text)
  isDirectory p := do
    ((← IO.currentDir) / p.text).isDir

end ScannerGen

open ScannerGen CommandLine in
def main (arguments : List String) : IO UInt32 := do
  let name := (← IO.appPath).fileStem
  let outcome ←
    if name = some TableTool.toolName then TableTool.run arguments else runGenerator arguments
  IO.print outcome.out
  IO.eprint outcome.err
  pure outcome.code.toUInt32
