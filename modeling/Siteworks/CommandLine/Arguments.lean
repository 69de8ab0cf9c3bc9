/-!
# Command-line arguments

A command is named first and followed by its options. An option that takes a value is given once:
its value is the next argument, or follows in the same one behind an equals sign. The next
argument is taken as a value only if it does not start with a hyphen, unless it is a hyphen alone.
Options that are not given may come from the environment.
-/

namespace Siteworks.CommandLine

/-- The options of a generation. -/
structure GenerateOptions where
  /-- The file of the spec. -/
  spec : String
  /-- The directory of scaffolds. -/
  scaffolds : String
  /-- The directory for sites. -/
  output : String
  /-- Fail on violations. -/
  strict : Bool
  /-- Print an envelope. -/
  envelope : Bool
  deriving DecidableEq, Repr

/-- What the program is asked to do. -/
inductive Command where
  | validate (spec : String)
  | repair (spec : String)
  | generate (options : GenerateOptions)
  deriving DecidableEq, Repr

/-- Why arguments name no command. -/
inductive Refusal where
  /-- The arguments are not understood. -/
  | usage
  /-- Help is asked for. -/
  | help
  deriving DecidableEq, Repr

/-- The options of all commands. -/
inductive OptionName where
  | spec
  | scaffold
  | out
  | strict
  | envelope
  deriving DecidableEq, Repr

namespace OptionName

/-- The option takes a value. -/
def takesValue : OptionName → Bool
  | .spec | .scaffold | .out => true
  | .strict | .envelope => false

/-- The value is a path, which is not empty. -/
def isPath : OptionName → Bool
  | .scaffold | .out => true
  | .spec | .strict | .envelope => false

/-- The long name of an option. -/
def name : OptionName → String
  | .spec => "spec"
  | .scaffold => "scaffold"
  | .out => "out"
  | .strict => "strict"
  | .envelope => "envelope"

end OptionName

/-- The options given so far, the last first; one without a value has an empty one. -/
abbrev Given := List (OptionName × String)

/-- The commands by name. -/
inductive CommandName where
  | validate
  | repair
  | generate
  deriving DecidableEq, Repr

namespace CommandName

/-- The command of a name. -/
def ofText? (text : String) : Option CommandName :=
  match text with
  | "validate" => some .validate
  | "repair" => some .repair
  | "generate" => some .generate
  | _ => none

/-- The options of a command. -/
def options : CommandName → List OptionName
  | .validate | .repair => [.spec]
  | .generate => [.spec, .scaffold, .out, .strict, .envelope]

end CommandName

/-- Give an option, for the first time, an admissible value. -/
def give (option : OptionName) (value : String) (given : Given) : Except Refusal Given :=
  if (given.lookup option).isSome then .error .usage
  else if option.isPath && value = "" then .error .usage
  else .ok ((option, value) :: given)

/-- The argument can be the value of the option before it. -/
def isValue (argument : String) : Bool := argument = "-" || !argument.toList.head?.any (· = '-')

/-- What an argument is. -/
inductive Word where
  /-- A long option, and what follows an equals sign. -/
  | long (name : List Char) (value : Option String)
  /-- Short options, or one and its value. -/
  | short (letters : List Char)
  /-- The end of the options. -/
  | stop
  /-- Anything else. -/
  | plain
  deriving DecidableEq, Repr

/-- Tell what an argument is. -/
def Word.ofArgument (argument : String) : Word :=
  match argument.toList with
  | ['-', '-'] => .stop
  | '-' :: '-' :: rest =>
    .long (rest.takeWhile (· ≠ '=')) (match rest.dropWhile (· ≠ '=') with
      | _ :: value => some (String.ofList value)
      | [] => none)
  | '-' :: c :: rest => .short (c :: rest)
  | _ => .plain

/-- Read the options of a command. -/
def readOptions (command : CommandName) (given : Given) : List String → Except Refusal Given
  | [] => .ok given
  | argument :: rest =>
    let withValue (option : OptionName) (value : String) (next : Given → Except Refusal Given) :=
      match give option value given with
      | .error refusal => .error refusal
      | .ok given => next given
    let named (option : OptionName) (attached : Option String) : Except Refusal Given :=
      match option.takesValue, attached with
      | true, some value => withValue option value fun given => readOptions command given rest
      | true, none =>
        match rest with
        | value :: rest =>
          if isValue value then
            withValue option value fun given => readOptions command given rest
          else .error .usage
        | [] => .error .usage
      | false, none => withValue option "" fun given => readOptions command given rest
      | false, some _ => .error .usage
    match Word.ofArgument argument with
    | .stop => if rest.isEmpty then .ok given else .error .usage
    | .plain => .error .usage
    | .long name attached =>
      match command.options.find? fun option => option.name.toList = name with
      | some option => named option attached
      | none => .error (if name = "help".toList ∧ attached = none then .help else .usage)
    | .short letters =>
      match letters with
      | 'h' :: _ => .error .help
      | 'o' :: value =>
        if OptionName.out ∈ command.options then
          match value with
          | [] => named .out none
          | '=' :: value => named .out (some (String.ofList value))
          | value => named .out (some (String.ofList value))
        else .error .usage
      | _ => .error .usage

/-- The value of an option: the one given, or that of its variable, or the usual one. -/
def valueOf (option : OptionName) (given : Given) (fromEnvironment : Option String)
    (usual : String) : Except Refusal String :=
  match given.lookup option with
  | some value => .ok value
  | none =>
    match fromEnvironment with
    | some value => if value = "" then .error .usage else .ok value
    | none => .ok usual

/-- The environment variables that stand in for options. -/
structure Environment where
  /-- The directory of scaffolds. -/
  scaffolds : Option String
  /-- The directory for sites. -/
  output : Option String
  deriving DecidableEq, Repr

/-- Make a command of its options. -/
def commandOf (name : CommandName) (given : Given) (environment : Environment) :
    Except Refusal Command :=
  match given.lookup .spec with
  | none => .error .usage
  | some spec =>
    match name with
    | .validate => .ok (.validate spec)
    | .repair => .ok (.repair spec)
    | .generate =>
      match valueOf .scaffold given environment.scaffolds "scaffold",
          valueOf .out given environment.output "out" with
      | .ok scaffolds, .ok output =>
        let has (option : OptionName) : Bool := (given.lookup option).isSome
        .ok (.generate ⟨spec, scaffolds, output, has .strict, has .envelope⟩)
      | .error refusal, _ => .error refusal
      | _, .error refusal => .error refusal

/-- Read a command. -/
def readCommand (arguments : List String) (environment : Environment) : Except Refusal Command :=
  match arguments with
  | [] => .error .usage
  | first :: rest =>
    match CommandName.ofText? first with
    | some name =>
      match readOptions name [] rest with
      | .error refusal => .error refusal
      | .ok given => commandOf name given environment
    | none =>
      if first = "help" then
        match rest with
        | [] => .error .help
        | [name] =>
          if (CommandName.ofText? name).isSome ∨ name = "help" then .error .help
          else .error .usage
        | _ => .error .usage
      else match Word.ofArgument first with
        | .long name none => .error (if name = "help".toList then .help else .usage)
        | .short ('h' :: _) => .error .help
        | _ => .error .usage

end Siteworks.CommandLine
