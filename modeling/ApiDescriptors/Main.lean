import ApiDescriptors.Program

/-!
The program: runs a command on the files of the machine.
-/

namespace ApiDescriptors.Program

-- The variables that the command line looks at.
def variableNames : List String :=
  ["RESTGEN_OUT_DIR", "RESTGEN_CONFIG", "RESTGEN_LOG_FORMAT"]

def environment : IO CommandLine.Environment := do
  let values ← variableNames.mapM fun name => do return (← IO.getEnv name).map (name, ·)
  return values.filterMap id

-- What was tried, or the failure instead of the machine's own.
def orFail {α : Type} (failure : Failure) (action : IO α) : ExceptT Failure IO α :=
  ExceptT.mk do
    try return .ok (← action)
    catch _ => return .error failure

instance : Host (ExceptT Failure IO) where
  has path             := do
    try
      let _ ← IO.FS.readFile path
      return true
    catch _ => return false
  read? path           := do
    try return some (← IO.FS.readFile path)
    catch _ => return none
  makeDirectories path := orFail .notWritten (IO.FS.createDirAll path)
  write path contents  := orFail .notWritten (IO.FS.writeFile path contents)
  print text           := IO.print text
  fail                 := throw

end ApiDescriptors.Program

open ApiDescriptors Program in
def main (words : List String) : IO UInt32 := do
  let command : ExceptT Failure IO Unit := do
    match CommandLine.ofWords? (← environment) words with
    | some line => execute line.command
    | none      => throw .commandLine
  match ← command.run with
  | .ok ()         => return 0
  | .error failure =>
    IO.eprintln failure.message
    return failure.exitCode.toUInt32
