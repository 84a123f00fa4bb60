import ScriptSense.CommandLine.Command

/-!
# Arguments and the program

Arguments are read level by level: those of the program, those of a command, and those of a
question. A level has flags, options with a value, and a number of plain arguments; the name of a
command opens the next level. Some flags and options belong to every level, where the innermost one
counts. At one level nothing may be given twice. After two hyphens alone all arguments are plain.

The program reads its arguments, loads the settings, runs one command and ends with an exit code.
-/

namespace ScriptSense.CommandLine

open Files

/-- Why arguments lead to no command: they are wrong, or ask about the program itself. -/
inductive Halt
  | usage
  | version
  | help
  deriving DecidableEq, Repr, Inhabited

/-- What a level allows. -/
structure Level where
  flags : List String
  options : List String
  plain : Nat
  commands : List String
  hasVersion : Bool
  deriving Repr, Inhabited

/-- What was given at a level, and what follows the name of a command. -/
structure Given where
  flags : List String
  options : List (String × String)
  plain : List String
  command : Option (String × List String)
  deriving Repr, Inhabited

namespace Level

def everywhereFlags : List String := ["verbose", "json"]

def everywhereOptions : List String := ["config"]

def program : Level :=
  ⟨everywhereFlags, everywhereOptions, 0, ["check", "format", "symbols", "query", "help"], true⟩

/-- A command with one plain argument. -/
def simple : Level :=
  ⟨everywhereFlags, everywhereOptions, 1, [], false⟩

def format : Level :=
  { simple with
    flags := "use-tabs" :: "write" :: everywhereFlags
    options := "tab-size" :: everywhereOptions }

def query : Level :=
  { simple with commands := ["hover", "definition", "references", "help"] }

def question : Level :=
  { simple with plain := 3 }

/-- Whether the names lead, command by command, to something that can be explained. -/
def hasTopic : Level → List String → Bool
  | _, [] => true
  | level, name :: names =>
    level.commands.contains name && hasTopic (if name = "query" then query else simple) names

/-- Asks for an explanation of the command that the names lead to. -/
def explain (level : Level) (names : List String) : Halt :=
  if level.hasTopic names then .help else .usage

end Level

namespace Given

def none : Given := ⟨[], [], [], .none⟩

def addFlag (given : Given) (flag : String) : Except Halt Given :=
  if given.flags.contains flag then .error .usage
  else .ok { given with flags := flag :: given.flags }

def addOption (given : Given) (option value : String) : Except Halt Given :=
  if given.options.any (·.1 == option) then .error .usage
  else .ok { given with options := (option, value) :: given.options }

def addPlain (level : Level) (given : Given) (argument : String) : Except Halt Given :=
  if given.plain.length < level.plain then
    .ok { given with plain := given.plain ++ [argument] }
  else .error .usage

def option? (given : Given) (option : String) : Option String :=
  (given.options.find? (·.1 == option)).map Prod.snd

def hasFlag (given : Given) (flag : String) : Bool :=
  given.flags.contains flag

end Given

/-- A whole number from `0` to `2 ^ 32 - 1`, with or without a sign. -/
def word? (text : String) : Option Nat :=
  let (negative, digits) :=
    match text.toList with
    | '-' :: rest => (true, rest)
    | '+' :: rest => (false, rest)
    | all => (false, all)
  if digits.isEmpty then none
  else
    (Uri.digits? 10 digits).filter fun value ↦
      if negative then value == 0 else decide (value ≤ 0xFFFFFFFF)

/-- Whether an option may have a value: a file has a name, and a tab size is a number. -/
def isValue (option value : String) : Bool :=
  if option = "tab-size" then (word? value).isSome else value != ""

def looksLikeFlag (argument : String) : Bool :=
  match argument.toList with
  | '-' :: _ :: _ => true
  | _ => false

/-- The flags of one argument with one hyphen. -/
def readShort (level : Level) (given : Given) : List Char → Except Halt Given
  | [] => .ok given
  | c :: rest =>
    if c = 'h' then .error .help
    else if c = 'V' ∧ level.hasVersion then .error .version
    else if c = 'v' then
      match given.addFlag "verbose" with
      | .error halt => .error halt
      | .ok given => readShort level given rest
    else .error .usage

/-- The name of an argument with two hyphens and the value attached to it. -/
def splitLong (body : List Char) : String × Option String :=
  (String.ofList (body.takeWhile (· != '=')),
    (body.dropWhile (· != '=')).tail?.map String.ofList)

/-- Takes in a flag or option with two hyphens, and perhaps the argument after it. -/
def readLong (level : Level) (given : Given) (body : List Char) (rest : List String) :
    Except Halt (Given × List String) :=
  let (name, attached) := splitLong body
  if level.options.contains name then
    match attached, rest with
    | some value, _ =>
      if isValue name value then (given.addOption name value).map (·, rest) else .error .usage
    | none, [] => .error .usage
    | none, value :: rest =>
      if looksLikeFlag value || !isValue name value then .error .usage
      else (given.addOption name value).map (·, rest)
  else if attached.isSome then .error .usage
  else if name = "help" then .error .help
  else if name = "version" ∧ level.hasVersion then .error .version
  else if level.flags.contains name then (given.addFlag name).map (·, rest)
  else .error .usage

/-- Reads the arguments of a level. No step takes less than one argument. -/
def readLevelFrom (level : Level) : Nat → Given → List String → Except Halt Given
  | _, given, [] => .ok given
  | 0, given, _ => .ok given
  | steps + 1, given, argument :: rest =>
    match argument.toList with
    | ['-', '-'] => rest.foldlM (Given.addPlain level) given
    | '-' :: '-' :: body =>
      match readLong level given body rest with
      | .error halt => .error halt
      | .ok (given, rest) => readLevelFrom level steps given rest
    | '-' :: c :: body =>
      match readShort level given (c :: body) with
      | .error halt => .error halt
      | .ok given => readLevelFrom level steps given rest
    | _ =>
      if level.commands.contains argument then .ok { given with command := some (argument, rest) }
      else
        match given.addPlain level argument with
        | .error halt => .error halt
        | .ok given => readLevelFrom level steps given rest

def readLevel (level : Level) (arguments : List String) : Except Halt Given :=
  readLevelFrom level arguments.length Given.none arguments

inductive Command
  | check (path : String)
  | format (file : String) (flags : Format.Flags) (write : Bool)
  | symbols (file : String)
  | query (request : Query.Request)
  deriving DecidableEq, Repr, Inhabited

/-- A command with what belongs to every level. -/
structure Invocation where
  config : Option String
  json : Bool
  command : Command
  deriving DecidableEq, Repr, Inhabited

/-- What belongs to every level, out of the levels from the innermost to the program's. -/
def invocation (levels : List Given) (command : Command) : Invocation where
  config := levels.findSome? (·.option? "config")
  json := levels.any (·.hasFlag "json")
  command := command

/-- The only plain argument of a level, which is a path. -/
def onlyPath (given : Given) : Except Halt String :=
  match given.plain with
  | [path] => if path = "" then .error .usage else .ok path
  | _ => .error .usage

def formatCommand (given : Given) (file : String) : Command :=
  .format file ⟨(given.option? "tab-size").bind word?, given.hasFlag "use-tabs"⟩
    (given.hasFlag "write")

def question? : String → Option Query.Question
  | "hover" => some .hover
  | "definition" => some .definition
  | "references" => some .references
  | _ => none

def readQuestion (root name : String) (given : Given) : Except Halt Command :=
  match question? name, given.plain with
  | some question, [file, line, column] =>
    match word? line, word? column with
    | some line, some column =>
      if file = "" then .error .usage else .ok (.query ⟨question, root, file, line, column⟩)
    | _, _ => .error .usage
  | _, _ => .error .usage

def readQuery (program : Given) (arguments : List String) : Except Halt Invocation := do
  let query ← readLevel .query arguments
  match query.command with
  | none => .error .usage
  | some ("help", names) => .error (Level.query.explain names)
  | some (name, rest) =>
    let question ← readLevel .question rest
    let root ← onlyPath query
    return invocation [question, query, program] (← readQuestion root name question)

/-- The command that the arguments of the program name. -/
def readArguments (arguments : List String) : Except Halt Invocation := do
  let program ← readLevel .program arguments
  match program.command with
  | some ("check", rest) =>
    let given ← readLevel .simple rest
    return invocation [given, program] (.check (← onlyPath given))
  | some ("symbols", rest) =>
    let given ← readLevel .simple rest
    return invocation [given, program] (.symbols (← onlyPath given))
  | some ("format", rest) =>
    let given ← readLevel .format rest
    return invocation [given, program] (formatCommand given (← onlyPath given))
  | some ("query", rest) => readQuery program rest
  | some (_, names) => .error (Level.program.explain names)
  | none => .error .usage

def versionText : String := "inmu 0.1.0"

/-- What the program leaves behind: its exit code, output and complaint, and the files. -/
structure Ending where
  exitCode : Nat
  output : String
  complaint : Option String
  files : Tree

def Command.run (files : Tree) (settings : Settings) (json : Bool) : Command → Outcome
  | .check path => Check.run files settings json path
  | .format file flags write =>
    Format.run files settings json (Format.style settings flags) write file
  | .symbols file => Symbols.run files settings json file
  | .query request => Query.run files settings json request

def Invocation.run (files : Tree) (invocation : Invocation) : Outcome :=
  match loadSettings files invocation.config with
  | .error failure => .failed files failure
  | .ok settings => invocation.command.run files settings invocation.json

def Outcome.ending (outcome : Outcome) : Ending :=
  match outcome.failure with
  | none => ⟨0, outcome.output, none, outcome.files⟩
  | some failure => ⟨1, outcome.output, some ("Error: " ++ failure.full), outcome.files⟩

def run (files : Tree) (arguments : List String) : Ending :=
  match readArguments arguments with
  | .ok invocation => (invocation.run files).ending
  | .error .usage => ⟨2, "", some "usage", files⟩
  | .error .version => ⟨0, line versionText, none, files⟩
  | .error .help => ⟨0, "", none, files⟩

end ScriptSense.CommandLine
