import RSource.Command.Line

/-! The program: the command line on the files of the machine. -/

namespace RSource

/-- What an error of the machine means. -/
def errorOf : IO.Error → IoError
  | .noFileOrDirectory .. => .notFound
  | .permissionDenied .. => .permissionDenied
  | .alreadyExists .. => .alreadyExists
  | .inappropriateType _ code details =>
    if code = 20 then .notDirectory
    else if code = 21 then .isDirectory
    else .other details
  | e => .other (toString e)

/-- What became of an action. -/
def attempt {α : Type} (action : IO α) : IO (Except IoError α) := do
  match ← action.toBaseIO with
  | .ok a => return .ok a
  | .error e => return .error (errorOf e)

/-- What a path leads to on the machine. -/
def kindOnMachine (path : Path) : IO (Option FileKind) := do
  match ← attempt (System.mkFilePath [path.text]).metadata with
  | .error _ => return none
  | .ok data =>
    match data.type with
    | .file => return some .file
    | .dir => return some .directory
    | _ => return some .other

instance : MonadDisk IO where
  kind? := kindOnMachine
  readFile p := attempt do
    return (← IO.FS.readBinFile (System.mkFilePath [p.text])).toList
  writeFile p bytes := attempt (IO.FS.writeBinFile (System.mkFilePath [p.text]) ⟨bytes.toArray⟩)
  rename p q := attempt (IO.FS.rename (System.mkFilePath [p.text]) (System.mkFilePath [q.text]))
  removeFile p := attempt (IO.FS.removeFile (System.mkFilePath [p.text]))
  makeDirectory p := attempt (IO.FS.createDirAll (System.mkFilePath [p.text]))
  list p := attempt do
    return ((← (System.mkFilePath [p.text]).readDir).map (·.fileName)).toList

end RSource

open RSource in
/-- Runs the command that the arguments name. -/
def main (arguments : List String) : IO UInt32 := do
  let stderr ← IO.getStderr
  let output ← (Command.run (← stderr.isTty) arguments : IO Command.Output)
  IO.print output.out
  IO.eprint output.err
  return UInt32.ofNat output.code
