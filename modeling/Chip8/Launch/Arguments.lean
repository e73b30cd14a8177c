import Chip8.Text.Terminal

/-! # Arguments of the command

The command takes one program or asks for help. Arguments are taken from left
to right, and the first one that does not fit decides the error.
-/

namespace Chip8.Launch

inductive UsageError where
  | missingProgram
  | emptyProgramName
  | unexpectedArgument (shown : String)
  | unexpectedHelpValue (value : String)
  deriving DecidableEq, Repr

/-- The first line of the report of an error; arguments appear in it as far as they are visible. -/
def UsageError.message : UsageError → String
  | missingProgram => "error: the following required arguments were not provided:"
  | emptyProgramName => "error: a value is required for '<ROM>' but none was supplied"
  | unexpectedArgument shown => "error: unexpected argument '" ++ Terminal.visible shown ++ "' found"
  | unexpectedHelpValue value =>
    "error: unexpected value '" ++ Terminal.visible value ++
      "' for '--help' found; no more were expected"

inductive Request where
  | help
  | program (path : String)
  deriving DecidableEq, Repr

inductive Argument where
  | positional
  | endOfOptions
  | help
  | helpValue (value : String)
  | unknown (shown : String)
  deriving DecidableEq, Repr

/-- An option in long form is known by what stands before its equals sign, one in short form by
its first letter. A lone hyphen is no option. -/
def Argument.ofChars : List Char → Argument
  | ['-', '-'] => .endOfOptions
  | '-' :: '-' :: rest =>
    let name := rest.takeWhile (· ≠ '=')
    if name = "help".toList then
      match rest.dropWhile (· ≠ '=') with
      | [] => .help
      | _ :: value => .helpValue (String.ofList value)
    else .unknown (String.ofList ('-' :: '-' :: name))
  | '-' :: letter :: _ =>
    if letter = 'h' then .help else .unknown (String.ofList ['-', letter])
  | _ => .positional

def finish : Option String → Except UsageError Request
  | none => .error .missingProgram
  | some "" => .error .emptyProgramName
  | some path => .ok (.program path)

def takePositional (program? : Option String) : List String → Except UsageError Request
  | [] => finish program?
  | a :: rest =>
    match program? with
    | none => takePositional (some a) rest
    | some _ => .error (.unexpectedArgument a)

def takeArguments (program? : Option String) : List String → Except UsageError Request
  | [] => finish program?
  | a :: rest =>
    match Argument.ofChars a.toList with
    | .endOfOptions => takePositional program? rest
    | .help => if program? = some "" then .error .emptyProgramName else .ok .help
    | .helpValue value => .error (.unexpectedHelpValue value)
    | .unknown shown => .error (.unexpectedArgument shown)
    | .positional =>
      match program? with
      | none => takeArguments (some a) rest
      | some _ => .error (.unexpectedArgument a)

def Request.ofArguments (arguments : List String) : Except UsageError Request :=
  takeArguments none arguments

def usageStatus : UInt8 := 2

def helpText : String :=
  "Run a Chip-8 program image\n\nUsage: chipvm <ROM>\n\nArguments:\n" ++
  "  <ROM>  Path to the raw program image, loaded at 0x200\n\nOptions:\n" ++
  "  -h, --help  Print help\n"

end Chip8.Launch
