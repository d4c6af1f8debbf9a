import TextGrammar.CommandLine.Arguments
import TextGrammar.CommandLine.Files
import TextGrammar.Grammar.Reader
import TextGrammar.Parser.Basic

/-!
# The command line

`check` reads a grammar file and says how many rules it has; `run` matches a text and
shows its value. What is wrong with a file goes to the second output and ends the
program with code two; a text that does not match ends it with code one.
-/

namespace TextGrammar

variable [PatternEngine]

structure CommandOutput where
  code : Nat
  out : String
  err : String
  deriving DecidableEq, Repr

inductive CommandEnd where
  | finished (o : CommandOutput)
  /-- The arguments were no command. -/
  | usage (code : Nat)
  | fault (f : Fault)

def joinLines (lines : List String) : String := String.join (lines.map (· ++ "\n"))

/-- A fault in what was read, as it is reported. -/
def reportFault (f : Fault) : CommandOutput :=
  match f with
  | .grammar g => ⟨2, "", joinLines ["[SYNTAX ERROR]", g.message]⟩
  | f => ⟨2, "", joinLines ["[ERROR] " ++ f.kind ++ " " ++ f.message]⟩

/-- A name, moved to the right edge of a column. -/
def alignRight (width : Nat) (name : String) : String :=
  String.ofList (List.replicate (width - name.length) ' ') ++ name

def ruleLines (rules : Rules) : List String :=
  rules.map fun (name, rule) => "  " ++ alignRight 10 name ++ " <- " ++ rule.shown

def loadGrammar (read : FileReader) (path : String) : Except Fault Rules := do
  readGrammar (← readText read (Files.tidyPath path))

def checkGrammar (read : FileReader) (file : String) (debug : Bool) : CommandOutput :=
  match loadGrammar read file with
  | .error f => reportFault f
  | .ok rules =>
    let listing := if debug then joinLines ("\n[RULES]" :: ruleLines rules) else ""
    let start := if rules.has beginName then "yes" else "no"
    ⟨0, joinLines ["[CHECK OK] rules=" ++ toString rules.length ++ " begin=" ++ start], listing⟩

/-- The parser of a grammar file and the text that it is to match. -/
def loadRun (read : FileReader) (file : String) (source : TextSource) :
    Except Fault (Parser × List Char) := do
  let rules ← loadGrammar read file
  let parser ← Parser.make rules.drafts []
  match source with
  | .literal text => return (parser, text.toList)
  | .file path => return (parser, ← readText read path)

/-- The most characters of the remaining text that are shown. -/
def restExcerpt : Nat := 40

/-- What is reported of a match; `full` asks for all of the text to match. -/
def reportOutcome (o : ParseOutcome) (full : Bool) (log : String) : CommandOutput :=
  if !o.ok then ⟨1, "", log ++ joinLines ["[NO MATCH]"]⟩
  else if full && !o.complete then
    let rest := String.ofList (quotedChars (o.rest.take restExcerpt))
    ⟨1, "", log ++ joinLines
      ["[NO MATCH] unconsumed input at " ++ toString o.stop ++ ": " ++ rest]⟩
  else ⟨0, joinLines [o.value.shown], log⟩

def runGrammar (read : FileReader) (file : String) (source : TextSource) (full verbose : Bool) :
    CommandEnd :=
  match loadRun read file source with
  | .error f => .finished (reportFault f)
  -- from here on a fault is no longer reported, it ends the program
  | .ok (parser, text) =>
    let run := parser.parse text
    let log := if verbose then joinLines (logLines run.events) else ""
    match run.ending with
    | .done o => .finished (reportOutcome o full log)
    | .raised f => .fault f
    | .runaway => .fault .runaway

def Command.execute (read : FileReader) : Command → CommandEnd
  | .check file debug => .finished (checkGrammar read file debug)
  | .run file source full verbose => runGrammar read file source full verbose

def Command.paths : Command → List String
  | .check file _ => [Files.tidyPath file]
  | .run file (.literal _) _ _ => [Files.tidyPath file]
  | .run file (.file path) _ _ => [Files.tidyPath file, path]

/-- Carries out the command that the arguments spell. -/
def runCommandLine (read : FileReader) (args : List String) : CommandEnd :=
  match Command.ofArguments args with
  | .ok command => command.execute read
  | .error code => .usage code

/-- How the program is called. -/
def usageText : String :=
  joinLines ["check FILE [-D | --debug]",
    "run FILE (--text TEXT | --input FILE) [--full] [-v | --verbose]"]

namespace CommandEnd

/-- The code with which the program exits. -/
def exitCode : CommandEnd → Nat
  | .finished o => o.code
  | .usage code => code
  | .fault _ => 1

/-- What the program prints. -/
def out : CommandEnd → String
  | .finished o => o.out
  | .usage code => if code = 0 then usageText else ""
  | .fault _ => ""

/-- What the program prints to the second output. -/
def err : CommandEnd → String
  | .finished o => o.err
  | .usage code => if code = 0 then "" else usageText
  | .fault f => joinLines [f.kind ++ ": " ++ f.message]

end CommandEnd

end TextGrammar
