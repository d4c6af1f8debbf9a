import TextGrammar.Text.Digit

/-!
# Arguments

    check FILE [-D | --debug]
    run FILE (--text TEXT | --input FILE) [--full] [-v | --verbose]

Options may stand anywhere after the command. A long option may be cut short as long
as it stays unambiguous, and takes its value from the next argument or after `=`.
Short options may be run together. After `--` everything is a plain argument.

Reading ends in a command, or in the code with which the program exits: zero when help
was asked for, two when the arguments make no sense. Options act from left to right;
missing and superfluous arguments are noticed at the end.
-/

namespace TextGrammar

/-- Where the text to match comes from. -/
inductive TextSource where
  | literal (text : String)
  | file (path : String)
  deriving DecidableEq, Repr

/-- What the program is asked to do. -/
inductive Command where
  | check (file : String) (debug : Bool)
  | run (file : String) (source : TextSource) (full verbose : Bool)
  deriving DecidableEq, Repr

inductive Switch where
  | help
  | debug
  | text
  | input
  | full
  | verbose
  deriving DecidableEq, Repr

def Switch.takesValue : Switch → Bool
  | .text | .input => true
  | _ => false

abbrev SwitchNames := List (String × Switch)

/-- The options that may stand before the command. -/
def programSwitches : SwitchNames := [("-h", .help), ("--help", .help)]

def checkSwitches : SwitchNames :=
  [("-h", .help), ("--help", .help), ("-D", .debug), ("--debug", .debug)]

def runSwitches : SwitchNames :=
  [("-h", .help), ("--help", .help), ("--text", .text), ("--input", .input), ("--full", .full),
   ("-v", .verbose), ("--verbose", .verbose)]

/-- What is attached to an option in the same argument. -/
inductive Attached where
  | nothing
  /-- A value after an equals sign. -/
  | value (text : String)
  /-- What follows the letter of a short option: more letters. -/
  | letters (cs : List Char)
  deriving DecidableEq, Repr

/-- What an argument is. -/
inductive Argument where
  | plain (text : String)
  /-- The mark after which everything is plain. -/
  | separator
  | option (switch : Switch) (attached : Attached)
  /-- Something that looks like an option and is none. -/
  | unknownOption
  /-- The beginning of several options. -/
  | ambiguous
  deriving DecidableEq, Repr

def splitAtEquals (s : String) : Option (String × String) :=
  let cs := s.toList
  if cs.contains '=' then
    some (String.ofList (cs.takeWhile (· != '=')),
      String.ofList ((cs.dropWhile (· != '=')).drop 1))
  else none

/-- Whether the text is a negative number, whole or with a decimal point. -/
def isNegativeNumber (s : String) : Bool :=
  match s.toList with
  | '-' :: rest =>
    let whole := rest.takeWhile isDecimal
    match rest.drop whole.length with
    | [] => !whole.isEmpty
    | '.' :: digits => !digits.isEmpty && digits.all isDecimal
    | _ => false
  | _ => false

/-- The options that a long spelling may mean. -/
def longMatches (names : SwitchNames) (arg : String) : List Argument :=
  let (start, attached) := match splitAtEquals arg with
    | some (name, value) => (name, Attached.value value)
    | none => (arg, .nothing)
  names.filterMap fun (name, switch) =>
    if name.startsWith start then some (.option switch attached) else none

/-- The options that a short spelling may mean; what follows its letter is attached to it. -/
def shortMatches (names : SwitchNames) (arg : String) : List Argument :=
  let cs := arg.toList
  names.filterMap fun (name, switch) =>
    if name.toList = cs.take 2 then some (.option switch (.letters (cs.drop 2))) else none

/-- The option whose name stands before an equals sign. -/
def exactMatch (names : SwitchNames) (arg : String) : Option Argument := do
  let (name, value) ← splitAtEquals arg
  let switch ← names.lookup name
  return .option switch (.value value)

/-- What an argument is, given the options that there are. -/
def classify (names : SwitchNames) (arg : String) : Argument :=
  match arg.toList with
  | '-' :: second :: _ =>
    match names.lookup arg, exactMatch names arg with
    | some switch, _ => .option switch .nothing
    | none, some option => option
    | none, none =>
      match if second = '-' then longMatches names arg else shortMatches names arg with
      | [option] => option
      | _ :: _ :: _ => .ambiguous
      | [] =>
        if isNegativeNumber arg || arg.toList.contains ' ' then .plain arg
        else .unknownOption
  | _ => .plain arg

/-- What the arguments are, up to the separator and after it. -/
def classifyAll (names : SwitchNames) : List String → List Argument
  | [] => []
  | arg :: rest =>
    if arg = "--" then .separator :: rest.map .plain
    else classify names arg :: classifyAll names rest

structure Reading where
  file : Option String
  text : Option String
  input : Option String
  debug : Bool
  full : Bool
  verbose : Bool
  /-- An argument was left over. -/
  surplus : Bool
  deriving Repr

def Reading.empty : Reading := ⟨none, none, none, false, false, false, false⟩

/-- The exit code when the arguments make no sense. -/
def usageError : Nat := 2

/-- The effect of an option, or the code with which the program exits. -/
def Reading.apply (r : Reading) (switch : Switch) (value : String) : Except Nat Reading :=
  match switch with
  | .help => .error 0
  | .debug => .ok { r with debug := true }
  | .full => .ok { r with full := true }
  | .verbose => .ok { r with verbose := true }
  | .text => if r.input.isSome then .error usageError else .ok { r with text := some value }
  | .input => if r.text.isSome then .error usageError else .ok { r with input := some value }

/--
The switches that letters stand for, up to the first letter that is none, and whether
there is such a letter. No short option has a value, so an equals sign is refused.
-/
def switchesOf (names : SwitchNames) : List Char → Except Nat (List Switch × Bool)
  | [] => .ok ([], false)
  | '-' :: _ | '=' :: _ => .error usageError
  | c :: rest =>
    match names.lookup (String.ofList ['-', c]) with
    | none => .ok ([], true)
    | some switch => do
      let (more, surplus) ← switchesOf names rest
      return (switch :: more, surplus)

/-- Takes a plain argument: the file, if there is none yet. -/
def Reading.takePlain (r : Reading) (text : String) : Reading :=
  match r.file with
  | none => { r with file := some text }
  | some _ => { r with surplus := true }

/-- Reads arguments from left to right. A separator goes with a plain argument beside it. -/
def readArguments (names : SwitchNames) : Reading → List Argument → Except Nat Reading
  | r, [] => .ok r
  | r, .plain text :: .separator :: rest => readArguments names (r.takePlain text) rest
  | r, .separator :: .plain text :: rest => readArguments names (r.takePlain text) rest
  | r, .plain text :: rest => readArguments names (r.takePlain text) rest
  | r, .separator :: rest => readArguments names { r with surplus := true } rest
  | r, .unknownOption :: rest => readArguments names { r with surplus := true } rest
  | _, .ambiguous :: _ => .error usageError
  | r, .option switch .nothing :: .plain text :: rest =>
    if switch.takesValue then do
      readArguments names (← r.apply switch text) rest
    else do
      readArguments names (← r.apply switch "") (.plain text :: rest)
  | r, .option switch .nothing :: rest =>
    if switch.takesValue then .error usageError
    else do readArguments names (← r.apply switch "") rest
  | r, .option switch (.value text) :: rest =>
    if switch.takesValue then do readArguments names (← r.apply switch text) rest
    else .error usageError
  | r, .option switch (.letters cs) :: rest => do
    let (more, surplus) ← switchesOf names cs
    let r ← (switch :: more).foldlM (fun r s => r.apply s "") r
    readArguments names { r with surplus := r.surplus || surplus } rest
termination_by _ args => args.length

def readCommand (name : String) (args : List String) : Except Nat Command :=
  let names := if name = "check" then checkSwitches else runSwitches
  let arguments := classifyAll names args
  if arguments.contains .ambiguous then .error usageError
  else do
    let r ← readArguments names .empty arguments
    match r.file, r.surplus with
    | some file, false =>
      if name = "check" then .ok (.check file r.debug)
      else
        match r.text, r.input with
        | some text, _ => .ok (.run file (.literal text) r.full r.verbose)
        | none, some path => .ok (.run file (.file path) r.full r.verbose)
        | none, none => .error usageError
    | _, _ => .error usageError

/-- Options before the command; `surplus` says that one of them was unknown. -/
def readProgram : Bool → List Argument → List String → Except Nat Command
  | surplus, .plain name :: _, _ :: args =>
    if name = "check" ∨ name = "run" then
      match readCommand name args with
      | .ok command => if surplus then .error usageError else .ok command
      | .error code => .error code
    else .error usageError
  | _, .option .help .nothing :: _, _ => .error 0
  | _, .option .help (.letters cs) :: _, _ => do
    let _ ← switchesOf programSwitches cs
    .error 0
  | _, .unknownOption :: rest, _ :: args => readProgram true rest args
  | _, _, _ => .error usageError

/-- What the arguments ask for, or the code with which the program exits. -/
def Command.ofArguments (args : List String) : Except Nat Command :=
  readProgram false (classifyAll programSwitches args) args

end TextGrammar
