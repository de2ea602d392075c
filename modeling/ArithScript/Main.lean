import ArithScript.Command.Arguments
import ArithScript.Command.Start

/-!
# The program

Reads the command line and the source, and prints the report.
-/

namespace ArithScript.Program

/-- All bytes of a stream, after those read already. -/
partial def readAll (stream : IO.FS.Stream) (bytes : ByteArray) : IO ByteArray := do
  let more ← stream.read 65536
  if more.isEmpty then pure bytes else readAll stream (bytes ++ more)

/-- The words of the system for an error, with its number where it has one. -/
def systemReason : IO.Error → String
  | .alreadyExists _ code details | .otherError code details | .resourceBusy code details
  | .resourceVanished code details | .unsupportedOperation code details
  | .hardwareFault code details | .unsatisfiedConstraints code details
  | .illegalOperation code details | .protocolError code details | .timeExpired code details
  | .interrupted _ code details | .noFileOrDirectory _ code details
  | .invalidArgument _ code details | .permissionDenied _ code details
  | .resourceExhausted _ code details | .inappropriateType _ code details
  | .noSuchThing _ code details => details ++ " (os error " ++ toString code ++ ")"
  | .unexpectedEof => "unexpected end of file"
  | .userError reason => reason

/-- The bytes of the source: of the file, or of the standard input. -/
def readSource (file : Option String) : IO (Except StartError (List UInt8)) := do
  match file with
  | none =>
    try
      return .ok (← readAll (← IO.getStdin) .empty).toList
    catch e =>
      return .error (.unreadInput (systemReason e))
  | some path =>
    match ← (IO.FS.Handle.mk path .read).toBaseIO with
    | .error (.noFileOrDirectory _ _ _) => return .error (.missingFile path)
    | .error e => return .error (.unopenedFile path (systemReason e))
    | .ok handle =>
      try
        return .ok (← handle.readBinToEnd).toList
      catch e =>
        return .error (.unreadFile path (systemReason e))

/-- Prints a report; the answer is its exit code. -/
def emit (report : Report) : IO UInt32 := do
  IO.print report.output
  IO.eprint report.errors
  return report.code.toUInt32

end ArithScript.Program

open ArithScript in
def main (arguments : List String) : IO UInt32 := do
  match Arguments.read arguments with
  | .error reason =>
    IO.eprintln ("error: " ++ reason)
    return 2
  | .ok arguments =>
    let source := Program.readSource arguments.file
    Program.emit (← arguments.command.startWith arguments.builtins arguments.definitions source)
