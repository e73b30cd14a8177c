import Chip8.Launch.Folder
import Chip8.Launch.Play

/-! # The command

Reads the arguments and the program file and writes what is recorded to standard error,
from the least severe level on that the environment asks for. There is no window here:
a program that could be played ends where its window should open.
-/

namespace Chip8.Launch

/-- Why a file could not be read. A file on the way to a name fails to open, under that
name; a folder at the end fails to be read, under none. -/
def cause : IO.Error → String
  | .noFileOrDirectory .. => ReadFailure.notFound.message
  | .inappropriateType (some _) .. => ReadFailure.notFolder.message
  | .inappropriateType none .. => ReadFailure.isFolder.message
  | e => toString e

def read (path : String) : IO Reading := do
  try
    return .ok (← IO.FS.readBinFile path).data
  catch e =>
    return .error (cause e)

def report (r : Record) : IO Unit :=
  IO.eprintln ("[" ++ r.level.name ++ " " ++ r.target ++ "] " ++ r.text)

def freshSeed : IO UInt64 := do
  let bytes ← IO.getRandomBytes 8
  return bytes.data.foldl (fun s b => (s <<< 8) ||| b.toUInt64) 0

def noWindow : Window := ⟨.error "there is no display", []⟩

def run (path : String) : IO UInt32 := do
  let p := play (.ofSeed (← freshSeed)) path (← read path) noWindow
  let threshold? := Level.threshold? (← IO.getEnv "RUST_LOG")
  (Record.visible threshold? p.records).forM report
  return p.status.toUInt32

end Chip8.Launch

def main (arguments : List String) : IO UInt32 := do
  match Chip8.Launch.Request.ofArguments arguments with
  | .ok .help =>
    IO.print Chip8.Launch.helpText
    return 0
  | .ok (.program path) => Chip8.Launch.run path
  | .error e =>
    IO.eprintln e.message
    return Chip8.Launch.usageStatus.toUInt32
