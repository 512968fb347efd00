import Predictive.CommandLine
import Predictive.Journal

/-!
Contract: the program at the command line.

Owns: reading and writing real files, standard output and standard error, and nothing
that decides what they hold.
Does not own: arguments, reports, texts of failures.
-/

namespace Predictive

namespace CommandLine

/-- A file problem by its system code, which some calls report negated. -/
def problemOfCode (code : UInt32) (details : String) : FileProblem :=
  if code = 21 ∨ -code = 21 then .isDirectory
  else if code = 20 ∨ -code = 20 then .notDirectory
  else if code = 36 ∨ -code = 36 then .nameTooLong
  else .other details

/-- A system's error as a file problem. -/
def problemOf : IO.Error → FileProblem
  | .noFileOrDirectory _ _ _ => .notFound
  | .inappropriateType _ code details => problemOfCode code details
  | .invalidArgument _ code details => problemOfCode code details
  | error => .other (toString error)

def readFile (path : String) : IO (Except FileProblem String) := do
  try
    let bytes ← IO.FS.readBinFile path
    match String.fromUTF8? bytes with
    | some text => return .ok text
    | none => return .error .notText
  catch error => return .error (problemOf error)

def writeFile (path text : String) : IO (Except FileProblem Unit) := do
  try
    IO.FS.writeBinFile path text.toUTF8
    return .ok ()
  catch error => return .error (problemOf error)

def failWith (causes : List String) : IO UInt32 := do
  IO.eprint (failureText causes)
  return UInt32.ofNat failureCode

def showEntries (entries : List Journal.Entry) : IO Unit :=
  entries.forM fun entry => IO.eprintln entry.line

/-- Carries out a request on the files of the system. -/
def Request.perform (request : Request) : IO UInt32 := do
  match Settings.make request.lookahead request.detail with
  | .error error => failWith [error.message]
  | .ok settings =>
      let contents ← readFile request.grammar
      if request.debug then
        if let .ok text := contents then
          showEntries (Journal.withoutTrace (Journal.reporting text settings))
      match reportOfFile request.grammar contents settings with
      | .error error => failWith error.causes
      | .ok text =>
          match request.output with
          | none =>
              IO.print text
              return 0
          | some output =>
              match ← writeFile output text with
              | .error problem => failWith (GenerationError.unwritable output problem).causes
              | .ok () =>
                  if request.debug then showEntries (Journal.written output)
                  return 0

end CommandLine

end Predictive

def main (arguments : List String) : IO UInt32 := do
  match Predictive.CommandLine.Invocation.ofArguments arguments with
  | .run request => request.perform
  | .help =>
      IO.print Predictive.CommandLine.usage
      return 0
  | .misuse =>
      IO.eprint Predictive.CommandLine.usage
      return UInt32.ofNat Predictive.CommandLine.misuseCode
