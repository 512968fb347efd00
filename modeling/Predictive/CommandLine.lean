import Predictive.Generation

/-!
Contract: the command line, from arguments to exit code.

Owns: the options and their forms, the choice of exit codes, the text of a failure.
Does not own: the generation itself, and reading or writing real files.

An option is given once. A long one takes its value after `=` or as the next argument, a
short one also directly behind its letter. Flags may stand before another short option in
the same argument. A value in an argument of its own does not begin with a dash, unless it
is a single dash.
-/

namespace Predictive

namespace CommandLine

/-- What the arguments ask for. -/
structure Request where
  grammar : String
  lookahead : Nat
  output : Option String
  detail : Detail
  debug : Bool
deriving DecidableEq, Repr

/-- Options seen so far. -/
structure Options where
  grammar : Option String
  lookahead : Option Nat
  output : Option String
  detail : Option Detail
  debug : Bool
deriving DecidableEq, Repr

inductive Invocation where
  | run (request : Request)
  | help
  | misuse
deriving DecidableEq, Repr

inductive ValueOption where
  | grammar
  | lookahead
  | output
  | detail
deriving DecidableEq, Repr

/-- A word for an option: one that takes a value, the debug flag, or the request for
help. -/
inductive Keyword where
  | value (option : ValueOption)
  | debug
  | help
deriving DecidableEq, Repr

def Keyword.ofLong? : String → Option Keyword
  | "grammar" => some (.value .grammar)
  | "output" => some (.value .output)
  | "detail" => some (.value .detail)
  | "debug" => some .debug
  | "help" => some .help
  | _ => none

def Keyword.ofShort? : Char → Option Keyword
  | 'g' => some (.value .grammar)
  | 'k' => some (.value .lookahead)
  | 'o' => some (.value .output)
  | 'd' => some .debug
  | 'h' => some .help
  | _ => none

/-- Largest number that a lookahead length can be given as: 64 bits, all set. -/
def largestNumber : Nat := 0xffffffffffffffff

/-- Decimal digits after an optional plus sign. -/
def number? (text : String) : Option Nat :=
  let digits := match text.toList with
    | '+' :: rest => rest
    | characters => characters
  if digits ≠ [] ∧ digits.all Char.isDigit then
    let value := digits.foldl (fun value digit => value * 10 + (digit.toNat - '0'.toNat)) 0
    if value ≤ largestNumber then some value else none
  else none

namespace Options

def none : Options := ⟨.none, .none, .none, .none, false⟩

/-- Sets an option; none if it is set already or the value does not fit. -/
def set? (options : Options) (value : String) : ValueOption → Option Options
  | .grammar =>
      if options.grammar.isSome ∨ value.isEmpty then .none
      else some { options with grammar := value }
  | .output =>
      if options.output.isSome ∨ value.isEmpty then .none
      else some { options with output := value }
  | .lookahead =>
      if options.lookahead.isSome then .none
      else (number? value).map fun number => { options with lookahead := number }
  | .detail =>
      if options.detail.isSome then .none
      else (Detail.ofText value).toOption.map fun detail =>
        { options with detail := detail }

def setDebug? (options : Options) : Option Options :=
  if options.debug then .none else some { options with debug := true }

def request? (options : Options) : Option Request :=
  options.grammar.map fun grammar =>
    { grammar
      lookahead := options.lookahead.getD 1
      output := options.output
      detail := options.detail.getD .default
      debug := options.debug }

end Options

/-- Whether an argument can be the value of the option before it. -/
def isValue (argument : String) : Bool :=
  !argument.startsWith "-" || argument == "-"

/-- What an argument leaves to be done. -/
inductive Outcome where
  | done (options : Options)
  | awaiting (options : Options) (option : ValueOption)
  | help
  | misuse
deriving DecidableEq, Repr

def Outcome.ofOption : Option Options → Outcome
  | some options => .done options
  | none => .misuse

/-- The letters of a short argument. -/
def shortLetters (options : Options) : List Char → Outcome
  | [] => .done options
  | letter :: rest =>
      match Keyword.ofShort? letter with
      | some (.value option) =>
          match rest with
          | [] => .awaiting options option
          | '=' :: value => .ofOption (options.set? (String.ofList value) option)
          | value => .ofOption (options.set? (String.ofList value) option)
      | some .debug =>
          match options.setDebug? with
          | some options => shortLetters options rest
          | none => .misuse
      | some .help => .help
      | none => .misuse

/-- A long argument without its dashes. -/
def longWord (options : Options) (word : List Char) : Outcome :=
  let name := String.ofList (word.takeWhile (· ≠ '='))
  let value := match word.dropWhile (· ≠ '=') with
    | [] => none
    | _ :: value => some (String.ofList value)
  match Keyword.ofLong? name, value with
  | some (.value option), some value => .ofOption (options.set? value option)
  | some (.value option), none => .awaiting options option
  | some .debug, none => .ofOption options.setDebug?
  | some .help, none => .help
  | _, _ => .misuse

/-- An argument that is not the value of the one before it. -/
def argument (options : Options) (text : String) : Outcome :=
  match text.toList with
  | '-' :: '-' :: word => longWord options word
  | '-' :: letter :: rest => shortLetters options (letter :: rest)
  | _ => .misuse

def Invocation.ofOptions (options : Options) : Invocation :=
  match options.request? with
  | some request => .run request
  | none => .misuse

/-- Reads arguments on from the options seen so far; nothing follows a double dash. -/
def readFrom (options : Options) : List String → Invocation
  | [] => .ofOptions options
  | "--" :: rest => if rest.isEmpty then .ofOptions options else .misuse
  | text :: rest =>
      match argument options text with
      | .done options => readFrom options rest
      | .help => .help
      | .misuse => .misuse
      | .awaiting options option =>
          match rest with
          | [] => .misuse
          | value :: rest =>
              if isValue value then
                match options.set? value option with
                | some options => readFrom options rest
                | none => .misuse
              else .misuse

def Invocation.ofArguments (arguments : List String) : Invocation :=
  readFrom .none arguments

/-- What a run leaves behind. -/
structure Result where
  code : Nat
  output : String
  error : String
  directory : Directory

/-- Exit code of a run that failed, and of arguments that are misused. -/
def failureCode : Nat := 1

def misuseCode : Nat := 2

def usage : String :=
  textOfLines
    [ "Usage: predictive [-d] -g GRAMMAR [-k LENGTH] [-o OUTPUT] [--detail full|compact]"
    , ""
    , "  -g, --grammar GRAMMAR  grammar file"
    , s!"  -k LENGTH              lookahead length, 1 to {longestLookahead} (1)"
    , "  -o, --output OUTPUT    report file (standard output)"
    , "      --detail DETAIL    full or compact (full)"
    , "  -d, --debug            log what is done"
    , "  -h, --help             show this text" ]

/-- A cause with its number, its later lines indented like the first. -/
def numberedCause (number : Nat) (cause : String) : String :=
  let label := toString number
  let padded := String.ofList (List.replicate (5 - label.length) ' ') ++ label
  padded ++ ": " ++ "\n       ".intercalate (cause.splitOn "\n") ++ "\n"

/-- A single cause, its later lines indented like the first. -/
def soleCause (cause : String) : String :=
  "    " ++ "\n    ".intercalate (cause.splitOn "\n") ++ "\n"

/-- The text of a failure: the outermost cause, then those below it. -/
def failureText : List String → String
  | [] => ""
  | [outermost] => s!"Error: {outermost}\n"
  | [outermost, cause] => s!"Error: {outermost}\n\nCaused by:\n" ++ soleCause cause
  | outermost :: causes =>
      s!"Error: {outermost}\n\nCaused by:\n"
        ++ String.join (causes.zipIdx.map fun (cause, number) => numberedCause number cause)

def fail (directory : Directory) (causes : List String) : Result :=
  ⟨failureCode, "", failureText causes, directory⟩

/-- Runs a request on the files of a directory. -/
def Request.run (request : Request) (directory : Directory) : Result :=
  match Settings.make request.lookahead request.detail with
  | .error error => fail directory [error.message]
  | .ok settings =>
      match request.output with
      | none =>
          match reportOfFile request.grammar (directory.readText request.grammar) settings with
          | .error error => fail directory error.causes
          | .ok text => ⟨0, text, "", directory⟩
      | some output =>
          match generate directory request.grammar output settings with
          | .error error => fail directory error.causes
          | .ok written => ⟨0, "", "", written⟩

/-- Runs the program on the files of a directory. -/
def run (arguments : List String) (directory : Directory) : Result :=
  match Invocation.ofArguments arguments with
  | .run request => request.run directory
  | .help => ⟨0, usage, "", directory⟩
  | .misuse => ⟨misuseCode, "", "", directory⟩

end CommandLine

end Predictive
