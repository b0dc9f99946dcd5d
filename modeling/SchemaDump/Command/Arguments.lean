import SchemaDump.Text.Basic
/- The arguments of the command line. -/
namespace SchemaDump

/-- The form of the output. -/
inductive OutputFormat
  | human
  | json
  deriving DecidableEq

namespace OutputFormat

def name : OutputFormat → String
  | human => "human"
  | json => "json"

def ofName? (name : String) : Option OutputFormat :=
  if name = "human" then some human
  else if name = "json" then some json
  else none

end OutputFormat

/-- What is to be done with the dumps. -/
inductive Action
  | tables
  | dialects
  | references (table : String)
  deriving DecidableEq

/-- A request as the arguments state it. -/
structure Request where
  action : Action
  files : List String
  config : Option String
  dialect : Option String
  format : Option OutputFormat
  deriving DecidableEq

/-- Arguments that state no request: a fault in them, or a question that is answered at once. -/
inductive Diversion
  | fault (message : String)
  | answer (text : String)
  deriving DecidableEq

/-- The commands whose arguments are told apart; `top` is the program itself. -/
inductive CommandName
  | top
  | show
  | detect
  | refs
  deriving DecidableEq

inductive Switch
  | verbose
  | quiet
  | help
  | version
  deriving DecidableEq

/-- An option that takes a value. -/
inductive Setting
  | config
  | dialect
  | format
  deriving DecidableEq

inductive OptionKind
  | switch (s : Switch)
  | setting (s : Setting)
  deriving DecidableEq

namespace CommandName

/-- The program as it calls itself within a command. -/
def title : CommandName → String
  | top => "ddlscope"
  | .show => "ddlscope-show"
  | detect => "ddlscope-detect"
  | refs => "ddlscope-refs"

def version (c : CommandName) : String := c.title ++ " 0.1.0-alpha.1\n"

def usage : CommandName → String
  | top => "Usage: ddlscope [OPTIONS] <COMMAND>\n"
  | .show => "Usage: ddlscope show [OPTIONS] [FILES]...\n"
  | detect => "Usage: ddlscope detect [OPTIONS] [FILES]...\n"
  | refs => "Usage: ddlscope refs [OPTIONS] <TABLE> [FILES]...\n"

/-- What a command is for. -/
def about : CommandName → String
  | top => "Inspect tables and keys in SQL schema dumps"
  | .show => "Display the tables and columns of schema dumps"
  | detect => "Report the detected dialect of schema dumps"
  | refs => "List foreign keys leaving and entering a table"

def commandsHelp : String :=
  "\nCommands:\n" ++
  "  show    " ++ about .show ++ "\n" ++
  "  detect  " ++ about detect ++ "\n" ++
  "  refs    " ++ about refs ++ "\n" ++
  "  help    Print this message or the help of the given subcommand(s)\n"

def formsHelp : String :=
  "  -d, --dialect <DIALECT>  Force a SQL dialect instead of detecting it\n" ++
  "  -f, --format <FORMAT>    Output format [possible values: human, json]\n"

def help (c : CommandName) : String :=
  c.about ++ "\n\n" ++ c.usage ++ (if c = top then commandsHelp else "") ++ "\nOptions:\n" ++
  (if c = .show || c = refs then formsHelp else "") ++
  "  -v, --verbose...         Enable verbose output\n" ++
  "  -q, --quiet              Only log errors\n" ++
  "  -c, --config <FILE>      Configuration file\n" ++
  "  -h, --help               Print help\n" ++
  "  -V, --version            Print version\n"

def ofName? (name : String) : Option CommandName :=
  if name = "show" then some .show
  else if name = "detect" then some detect
  else if name = "refs" then some refs
  else none

/-- Whether a command takes a dialect and a format. -/
def takesForm (c : CommandName) : Bool := c = .show || c = refs

def long? (c : CommandName) (name : String) : Option OptionKind :=
  if name = "verbose" then some (.switch .verbose)
  else if name = "quiet" then some (.switch .quiet)
  else if name = "help" then some (.switch .help)
  else if name = "version" then some (.switch .version)
  else if name = "config" then some (.setting .config)
  else if c.takesForm && name = "dialect" then some (.setting .dialect)
  else if c.takesForm && name = "format" then some (.setting .format)
  else none

def short? (c : CommandName) (letter : Char) : Option OptionKind :=
  if letter = 'v' then some (.switch .verbose)
  else if letter = 'q' then some (.switch .quiet)
  else if letter = 'h' then some (.switch .help)
  else if letter = 'V' then some (.switch .version)
  else if letter = 'c' then some (.setting .config)
  else if c.takesForm && letter = 'd' then some (.setting .dialect)
  else if c.takesForm && letter = 'f' then some (.setting .format)
  else none

end CommandName

/-- How an argument is written. -/
inductive ArgumentShape
  | escape
  | long (name : String) (value : Option String)
  | short (letters : Text)
  | plain
  deriving DecidableEq

def ArgumentShape.of (argument : String) : ArgumentShape :=
  match argument.toList with
  | ['-', '-'] => escape
  | '-' :: '-' :: rest =>
      let value := match rest.dropWhile (· != '=') with
        | [] => none
        | _ :: value => some (.ofList value)
      long (.ofList (rest.takeWhile (· != '='))) value
  | '-' :: c :: rest => short (c :: rest)
  | _ => plain

/-- A setting that was named, and its value once that is read. It is checked when the next
option is met or the arguments end. -/
structure Pending where
  setting : Setting
  value : Option String
  deriving DecidableEq

/-- The arguments of one command as far as they are read. -/
structure Reading where
  quiet : Bool := false
  config : Option String := none
  dialect : Option String := none
  format : Option OutputFormat := none
  operands : List String := []
  pending : Option Pending := none
  deriving DecidableEq

namespace Reading

/-- Gives a setting its value. A setting is given once; a path has to have a name. -/
def store (r : Reading) (s : Setting) (value : String) : Except Diversion Reading :=
  match s with
  | .config =>
      if value = "" then .error (.fault "a value is required for '--config <FILE>'")
      else if r.config.isSome then .error (.fault "'--config <FILE>' cannot be used multiple times")
      else .ok { r with config := some value }
  | .dialect =>
      if r.dialect.isSome then .error (.fault "'--dialect <DIALECT>' cannot be used multiple times")
      else .ok { r with dialect := some value }
  | .format =>
      match OutputFormat.ofName? value with
      | none => .error (.fault ("invalid value '" ++ value ++ "' for '--format <FORMAT>'"))
      | some format =>
          if r.format.isSome then .error (.fault "'--format <FORMAT>' cannot be used multiple times")
          else .ok { r with format := some format }

/-- Checks a setting that was named before. -/
def commit (r : Reading) : Except Diversion Reading :=
  match r.pending with
  | none => .ok r
  | some ⟨s, some value⟩ => { r with pending := none }.store s value
  | some ⟨_, none⟩ => .error (.fault "a value is required for an option")

def turn (r : Reading) (c : CommandName) : Switch → Except Diversion Reading
  | .verbose => .ok r
  | .quiet =>
      if r.quiet then .error (.fault "'--quiet' cannot be used multiple times")
      else .ok { r with quiet := true }
  | .help => .error (.answer c.help)
  | .version => .error (.answer c.version)

/-- Reads options written as letters in one argument. What follows a setting is its value. -/
def readLetters (c : CommandName) : Text → Reading → Except Diversion Reading
  | [], r => .ok r
  | letter :: letters, r =>
      match c.short? letter with
      | none => .error (.fault ("unexpected argument '-" ++ String.ofList [letter] ++ "'"))
      | some (.switch s) => do readLetters c letters (← (← r.commit).turn c s)
      | some (.setting s) => do
          let r ← r.commit
          match letters with
          | [] => .ok { r with pending := some ⟨s, none⟩ }
          | '=' :: value => r.store s (.ofList value)
          | value => r.store s (.ofList value)

def readLong (c : CommandName) (name : String) (value : Option String) (r : Reading) :
    Except Diversion Reading :=
  match c.long? name, value with
  | none, _ => .error (.fault ("unexpected argument '--" ++ name ++ "'"))
  | some (.switch _), some _ => .error (.fault ("unexpected value for '--" ++ name ++ "'"))
  | some (.switch s), none => do (← r.commit).turn c s
  | some (.setting s), some value => do (← r.commit).store s value
  | some (.setting s), none => do return { ← r.commit with pending := some ⟨s, none⟩ }

/-- Takes an argument that is no option. The program itself has none; only the first one of
`refs`, which names a table, may be empty. -/
def readOperand (c : CommandName) (argument : String) (r : Reading) : Except Diversion Reading := do
  let r ← r.commit
  if c = .top then .error (.fault ("unrecognized subcommand '" ++ argument ++ "'"))
  else if argument = "" && !(c = .refs && r.operands.isEmpty) then
    .error (.fault "a value is required for '[FILES]...'")
  else .ok { r with operands := r.operands ++ [argument] }

/-- Reads the arguments of a command: all of them, or those before the name of a command within
it, which is given with the arguments that follow. -/
def readAll (c : CommandName) : List String → Reading →
    Except Diversion (Reading × Option (String × List String))
  | [], r => .ok (r, none)
  | argument :: arguments, r =>
      match ArgumentShape.of argument with
      | .escape => do
          let r ← r.commit
          return (← arguments.foldlM (fun r argument => r.readOperand c argument) r, none)
      | .long name value => do readAll c arguments (← r.readLong c name value)
      | .short letters => do readAll c arguments (← readLetters c letters r)
      | .plain =>
          match r.pending with
          | some ⟨s, none⟩ => readAll c arguments { r with pending := some ⟨s, some argument⟩ }
          | _ =>
              if c = .top && (argument = "help" || (CommandName.ofName? argument).isSome) then
                .ok (r, some (argument, arguments))
              else do readAll c arguments (← r.readOperand c argument)

end Reading

namespace Request

/-- The help that is asked for by the names of commands. -/
def helpOn : List String → Diversion
  | [] => .answer (CommandName.help .top)
  | [name] =>
      match CommandName.ofName? name with
      | some c => .answer c.help
      | none =>
          if name = "help" then .answer (CommandName.help .top)
          else .fault ("unrecognized subcommand '" ++ name ++ "'")
  | _ :: name :: _ => .fault ("unrecognized subcommand '" ++ name ++ "'")

/-- The action of a command and the files it is for. -/
def actionOf (c : CommandName) (operands : List String) :
    Except Diversion (Action × List String) :=
  match c, operands with
  | .top, _ => .error (.fault "a subcommand is required")
  | .show, files => .ok (.tables, files)
  | .detect, files => .ok (.dialects, files)
  | .refs, table :: files => .ok (.references table, files)
  | .refs, [] => .error (.fault "the argument <TABLE> is required")

/-- The request that arguments state. An option that all commands share may stand before or
after the name of the command; the one after it counts. -/
def ofArguments (arguments : List String) : Except Diversion Request := do
  match ← Reading.readAll .top arguments {} with
  | (_, none) => .error (.fault "a subcommand is required")
  | (outer, some (name, rest)) =>
      match CommandName.ofName? name with
      | none => .error (helpOn rest)
      | some c =>
          let (inner, _) ← Reading.readAll c rest {}
          let inner ← inner.commit
          let (action, files) ← actionOf c inner.operands
          let outer ← outer.commit
          return {
            action, files
            config := inner.config <|> outer.config
            dialect := inner.dialect
            format := inner.format }

end Request
end SchemaDump
