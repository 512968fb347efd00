import Predictive.Directory
import Predictive.GrammarText.Read
import Predictive.Report

/-!
Contract: from the text of a grammar to its report, and from file to file.

Owns: the stages of a generation, and their errors from the outermost cause to the
innermost.
Does not own: the listings, the reading of grammars, the files, the command line.

Nothing is written unless the whole report has been made.
-/

namespace Predictive

inductive ReportError where
  | read (error : ReadError)
  | table (error : TableError)
  /-- A table with conflicts, with the listing of its conflicting cells. -/
  | conflicts (listing : String) (error : TableError)
deriving DecidableEq, Repr

/-- What went wrong, the outermost cause first. -/
def ReportError.causes : ReportError → List String
  | .read error => [error.message]
  | .table error => [error.message]
  | .conflicts listing error => [listing, error.message]

/-- The report for a grammar whose table has no conflicts. -/
def report (text : String) (settings : Settings) : Except ReportError String :=
  match Grammar.ofText text with
  | .error error => .error (.read error)
  | .ok grammar =>
      match LookaheadTable.build grammar settings.lookahead with
      | .error error => .error (.table error)
      | .ok table =>
          match table.ensureDeterministic with
          | .error error =>
              .error (.conflicts (textOfLines (Report.conflictLines grammar table)) error)
          | .ok () =>
              .ok (textOfLines (Report.lines grammar table ⟨table⟩ settings.detail))

inductive GenerationError where
  | unreadable (path : String) (problem : FileProblem)
  | report (path : String) (error : ReportError)
  | unwritable (path : String) (problem : FileProblem)
deriving DecidableEq, Repr

/-- What went wrong, the outermost cause first. -/
def GenerationError.causes : GenerationError → List String
  | .unreadable path problem => [s!"cannot read grammar {path}", problem.message]
  | .report path error => s!"grammar {path}" :: error.causes
  | .unwritable path problem => [s!"cannot write report {path}", problem.message]

/-- The report for a grammar file, given what reading the file gave. -/
def reportOfFile (path : String) (contents : Except FileProblem String)
    (settings : Settings) : Except GenerationError String :=
  match contents with
  | .error problem => .error (.unreadable path problem)
  | .ok text =>
      match report text settings with
      | .error error => .error (.report path error)
      | .ok text => .ok text

/-- Writes the report for one file into another. -/
def generate (directory : Directory) (input output : String) (settings : Settings) :
    Except GenerationError Directory :=
  match reportOfFile input (directory.readText input) settings with
  | .error error => .error error
  | .ok text =>
      match directory.writeText output text with
      | .error problem => .error (.unwritable output problem)
      | .ok written => .ok written

end Predictive
