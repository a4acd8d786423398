/-!
# Arguments

Options may stand anywhere among the arguments of a command; each is given once at most, and a value
is never empty. Two dashes end the options. Arguments are read from left to right: the first fault
or call for help decides.
-/

namespace Bindery

/-- What the program is asked to do. -/
inductive Command where
  /-- Lists what would be bound. -/
  | scan (source : String) (config : Option String)
  /-- Writes generated files into a directory. -/
  | generate (source output : String) (config : Option String)
  deriving DecidableEq, Repr

/-- What arguments come to. -/
inductive Request where
  | command (command : Command)
  | help
  | misuse
  deriving DecidableEq, Repr

/-- The options. -/
inductive Flag where
  | verbose
  | help
  | config
  | out
  deriving DecidableEq, Repr

namespace Flag

/-- The long name of an option. -/
def name : Flag → String
  | verbose => "verbose"
  | help => "help"
  | config => "config"
  | out => "out"

/-- The letter of an option. -/
def letter : Flag → Char
  | verbose => 'v'
  | help => 'h'
  | config => 'c'
  | out => 'o'

/-- Whether an option has a value. -/
def takesValue : Flag → Bool
  | config | out => true
  | verbose | help => false

end Flag

/-- What a piece of the arguments says. -/
inductive Argument where
  /-- An option without a value. -/
  | flag (flag : Flag)
  | option (flag : Flag) (value : String)
  | positional (value : String)
  /-- An option that does not exist, or that lacks its value or has one too many. -/
  | fault
  deriving DecidableEq, Repr

namespace Argument

/-- What letters behind a single dash say, given a value that follows; and whether they use it. -/
def ofLetters (flags : List Flag) (next : Option String) : List Char → List Argument × Bool
  | [] => ([], false)
  | letter :: rest =>
    match flags.find? (·.letter == letter) with
    | none => ([.fault], false)
    | some known =>
      if known.takesValue then
        match rest, next with
        | '=' :: value, _ => ([.option known (String.ofList value)], false)
        | [], some value => ([.option known value], true)
        | [], none => ([.fault], false)
        | value, _ => ([.option known (String.ofList value)], false)
      else
        let (more, used) := ofLetters flags next rest
        (.flag known :: more, used)

/-- What a name behind two dashes says, given a value that follows; and whether it uses it. -/
def ofName (flags : List Flag) (next : Option String) (text : List Char) : List Argument × Bool :=
  let name := text.takeWhile (· ≠ '=')
  match flags.find? (·.name.toList == name) with
  | none => ([.fault], false)
  | some known =>
    match text.drop name.length, known.takesValue, next with
    | _ :: value, true, _ => ([.option known (String.ofList value)], false)
    | _ :: _, false, _ => ([.fault], false)
    | [], true, some value => ([.option known value], true)
    | [], true, none => ([.fault], false)
    | [], false, _ => ([.flag known], false)

/-- The word that follows, if it can be a value: it must not look like an option. -/
def value? : List String → Option String
  | [] => none
  | next :: _ =>
    match next.toList with
    | '-' :: _ :: _ => none
    | _ => some next

/-- What a word with dashes in front says; none if it has none. -/
def ofWord? (flags : List Flag) (next : Option String) (word : String) :
    Option (List Argument × Bool) :=
  match word.toList with
  | '-' :: '-' :: name => some (ofName flags next name)
  | '-' :: letter :: letters => some (ofLetters flags next (letter :: letters))
  | _ => none

/-- What words say. -/
def ofWords (flags : List Flag) : List String → List Argument
  | [] => []
  | word :: rest =>
    if word = "--" then rest.map .positional
    else
      match ofWord? flags (value? rest) word with
      | none => .positional word :: ofWords flags rest
      | some (arguments, used) =>
        arguments ++ match used, rest with
          | true, _ :: rest => ofWords flags rest
          | _, rest => ofWords flags rest

end Argument

/-- What has been given so far. -/
structure Given where
  flags : List Flag
  options : List (Flag × String)
  positionals : List String

namespace Given

/-- Nothing is given. -/
def nothing : Given :=
  ⟨[], [], []⟩

/-- The value of an option. -/
def option? (given : Given) (flag : Flag) : Option String :=
  (given.options.find? (·.1 == flag)).map (·.2)

/-- What is given with one argument more, or the request that it settles. There is a single
positional argument. -/
def take (given : Given) : Argument → Except Request Given
  | .flag .help => .error .help
  | .flag flag =>
    if given.flags.contains flag then .error .misuse
    else .ok { given with flags := given.flags ++ [flag] }
  | .option flag value =>
    if value.isEmpty || (given.option? flag).isSome then .error .misuse
    else .ok { given with options := given.options ++ [(flag, value)] }
  | .positional value =>
    if value.isEmpty || !given.positionals.isEmpty then .error .misuse
    else .ok { given with positionals := [value] }
  | .fault => .error .misuse

end Given

namespace Request

/-- The request that something given for a command comes to. -/
def settle (words : List String) (flags : List Flag) (command? : Given → Option Command) :
    Request :=
  match (Argument.ofWords flags words).foldlM Given.take Given.nothing with
  | .error request => request
  | .ok given =>
    match command? given with
    | some result => .command result
    | none => .misuse

/-- The command to list. -/
def scan? (given : Given) : Option Command := do
  return .scan (← given.positionals.head?) (given.option? .config)

/-- The command to write. -/
def generate? (given : Given) : Option Command := do
  return .generate (← given.positionals.head?) (← given.option? .out) (given.option? .config)

/-- A call for help, which may name a command. -/
def ofHelp : List String → Request
  | [] => .help
  | [name] => if ["scan", "generate", "help"].contains name then .help else .misuse
  | _ => .misuse

/-- The request that arguments come to, given what stands before them. The first word that is no
option names the command. -/
def ofWords (given : Given) : List String → Request
  | [] => .misuse
  | "scan" :: rest => settle rest [.verbose, .help, .config] scan?
  | "generate" :: rest => settle rest [.verbose, .help, .config, .out] generate?
  | "help" :: rest => ofHelp rest
  | word :: rest =>
    match Argument.ofWord? [.verbose, .help] none word with
    | none => .misuse
    | some (arguments, _) =>
      match arguments.foldlM Given.take given with
      | .error request => request
      | .ok given => ofWords given rest

/-- The request that arguments come to. -/
def ofArguments (arguments : List String) : Request :=
  ofWords Given.nothing arguments

end Request

end Bindery
