import CodeInsight.Engine.Task

/-!
# The command line

* a command line names a command and gives it options and operands (`Command.ofArguments`);
* an option's value follows it, as the next argument or behind an equals sign; several one-letter
  options may share a dash, and behind `--` all are operands;
* a value is judged when the next argument has been read and makes sense on its own, so of two
  faults an unknown argument may be told before a refused value that stands in front of it.
-/

namespace CodeInsight

/-! ## 1. Commands -/

/-- What `analyze` is told. -/
structure AnalyzeOptions where
  paths : List String
  priority : Priority
  config : Option String
  dataDirectory : Option String
  noPersist : Bool
  logToFile : Bool
  verbose : Bool
  deriving DecidableEq, Repr

/-- What is to be done. -/
inductive Command where
  | analyze (options : AnalyzeOptions)
  | insights (path : String) (dataDirectory : Option String)
  | clean (dataDirectory : Option String)
  deriving DecidableEq, Repr

/-- Why a command line is no command: it asks for help or the version, or something is wrong. -/
inductive UsageFault where
  | helpAsked
  | versionAsked
  | nothingAsked
  | unknownCommand
  | unknownArgument
  | operandMissing
  | valueMissing
  | valueRefused
  | valueNotTaken
  | givenTwice
  deriving DecidableEq, Repr

/-! ## 2. Options -/

/-- The options of the commands. -/
inductive OptionName where
  | priority
  | config
  | dataDirectory
  | noPersist
  | logToFile
  | verbose
  | help
  deriving DecidableEq, Repr

namespace OptionName

/-- The name behind two dashes. -/
def long : OptionName → String
  | priority => "priority"
  | config => "config"
  | dataDirectory => "data-dir"
  | noPersist => "no-persist"
  | logToFile => "log-to-file"
  | verbose => "verbose"
  | help => "help"

/-- The letter behind one dash. -/
def short? : OptionName → Option Char
  | priority => some 'p'
  | config => some 'c'
  | verbose => some 'v'
  | help => some 'h'
  | _ => none

/-- Whether a value follows. -/
def takesValue : OptionName → Bool
  | priority | config | dataDirectory => true
  | _ => false

/-- What is wrong with a value. -/
def judge (o : OptionName) (value : String) : Option UsageFault :=
  match o with
  | priority => if (Priority.ofName? value).isSome then none else some .valueRefused
  | config | dataDirectory => if value.isEmpty then some .valueMissing else none
  | _ => none

end OptionName

/-- The options a command has, and how many operands, if there is a limit. -/
structure CommandShape where
  options : List OptionName
  operandLimit : Option Nat

namespace CommandShape

/-- The shape of `analyze`. -/
def analyze : CommandShape :=
  ⟨[.priority, .config, .dataDirectory, .noPersist, .logToFile, .verbose, .help], none⟩

/-- The shape of `insights`. -/
def insights : CommandShape := ⟨[.dataDirectory, .help], some 1⟩

/-- The shape of `clean`. -/
def clean : CommandShape := ⟨[.dataDirectory, .help], some 0⟩

end CommandShape

/-! ## 3. Reading -/

/-- What was read last and is not judged yet. -/
inductive Pending where
  | nothing
  | option (o : OptionName) (value : Option String)
  | operands (values : List String)
  deriving DecidableEq, Repr

/-- What was read: the options with their values, the operands, what is not judged yet, and whether
    only operands follow. -/
structure ArgumentReader where
  given : List (OptionName × String) := []
  operands : List String := []
  pending : Pending := .nothing
  onlyOperands : Bool := false
  deriving DecidableEq, Repr

namespace ArgumentReader

/-- Takes an option with its value. -/
def accept (r : ArgumentReader) (o : OptionName) (value : String) :
    Except UsageFault ArgumentReader :=
  if r.given.any (·.1 = o) then .error .givenTwice
  else
    match o.judge value with
    | some fault => .error fault
    | none => .ok { r with given := (o, value) :: r.given }

/-- Judges what is pending. -/
def settle (r : ArgumentReader) : Except UsageFault ArgumentReader :=
  let calm := { r with pending := .nothing }
  match r.pending with
  | .nothing => .ok calm
  | .option _ none => .error .valueMissing
  | .option o (some value) => calm.accept o value
  | .operands values =>
    if values.any (·.isEmpty) then .error .valueMissing
    else .ok { calm with operands := r.operands ++ values }

/-- Takes an option that stands with its value, or without if it takes none. -/
def attach (r : ArgumentReader) (o : OptionName) (value : String) :
    Except UsageFault ArgumentReader :=
  match r.settle with
  | .error fault => .error fault
  | .ok r' => if o = .help then .error .helpAsked else r'.accept o value

/-- Takes an option whose value is to follow. -/
def expectValue (r : ArgumentReader) (o : OptionName) : Except UsageFault ArgumentReader :=
  r.settle.map fun r' => { r' with pending := .option o none }

/-- The number of operands read. -/
def operandCount (r : ArgumentReader) : Nat :=
  r.operands.length + match r.pending with
    | .operands values => values.length
    | _ => 0

/-- Takes an operand. -/
def operand (shape : CommandShape) (r : ArgumentReader) (value : String) :
    Except UsageFault ArgumentReader :=
  if shape.operandLimit.any (· ≤ r.operandCount) then .error .unknownArgument
  else
    match r.pending with
    | .operands values => .ok { r with pending := .operands (values ++ [value]) }
    | _ => r.settle.map fun r' => { r' with pending := .operands [value] }

/-- Takes what stands behind two dashes: a name, and a value behind an equals sign. -/
def long (shape : CommandShape) (r : ArgumentReader) (rest : List Char) :
    Except UsageFault ArgumentReader :=
  let name := String.ofList (rest.takeWhile (· != '='))
  let value := (rest.dropWhile (· != '=')).tail
  let hasValue := rest.contains '='
  match shape.options.find? (·.long == name) with
  | none => .error .unknownArgument
  | some o =>
    if o.takesValue then if hasValue then r.attach o (String.ofList value) else r.expectValue o
    else if hasValue then .error .valueNotTaken
    else r.attach o ""

/-- Takes what stands behind one dash: letters of options, and a value behind the last. -/
def short (shape : CommandShape) : ArgumentReader → List Char → Except UsageFault ArgumentReader
  | r, [] => .ok r
  | r, c :: rest =>
    match shape.options.find? (·.short? == some c) with
    | none => .error .unknownArgument
    | some o =>
      if o.takesValue then
        match rest with
        | [] => r.expectValue o
        | '=' :: value => r.attach o (String.ofList value)
        | value => r.attach o (String.ofList value)
      else
        match r.attach o "" with
        | .error fault => .error fault
        | .ok r' => short shape r' rest

/-- Takes an argument that is no option: the value that is waited for, or an operand. -/
def plain (shape : CommandShape) (r : ArgumentReader) (value : String) :
    Except UsageFault ArgumentReader :=
  match r.pending with
  | .option o none => .ok { r with pending := .option o (some value) }
  | _ => r.operand shape value

/-- Takes an argument. -/
def take (shape : CommandShape) (r : ArgumentReader) (argument : String) :
    Except UsageFault ArgumentReader :=
  if r.onlyOperands then r.operand shape argument
  else
    match argument.toList with
    | ['-', '-'] => .ok { r with onlyOperands := true }
    | '-' :: '-' :: rest => r.long shape rest
    | ['-'] => r.plain shape argument
    | '-' :: rest => short shape r rest
    | _ => r.plain shape argument

/-- Reads the arguments of a command to their end. -/
def run (shape : CommandShape) (r : ArgumentReader) : List String → Except UsageFault ArgumentReader
  | [] => r.settle
  | argument :: rest =>
    match r.take shape argument with
    | .error fault => .error fault
    | .ok r' => run shape r' rest

/-- The value given for an option. -/
def value? (r : ArgumentReader) (o : OptionName) : Option String := r.given.lookup o

/-- Whether an option was given. -/
def has (r : ArgumentReader) (o : OptionName) : Bool := (r.value? o).isSome

end ArgumentReader

/-! ## 4. Commands from arguments -/

namespace Command

/-- The names of the commands. -/
def names : List String := ["analyze", "insights", "clean", "help"]

/-- What `analyze` is told, with the values it takes when none is given. -/
def ofAnalyze (r : ArgumentReader) : Command :=
  .analyze {
    paths := if r.operands.isEmpty then ["."] else r.operands
    priority := ((r.value? .priority).bind Priority.ofName?).getD default
    config := r.value? .config
    dataDirectory := r.value? .dataDirectory
    noPersist := r.has .noPersist
    logToFile := r.has .logToFile
    verbose := r.has .verbose }

/-- What `insights` is told; the path must be given. -/
def ofInsights (r : ArgumentReader) : Except UsageFault Command :=
  match r.operands with
  | path :: _ => .ok (.insights path (r.value? .dataDirectory))
  | [] => .error .operandMissing

/-- What help is asked for: for the whole, or for one command. -/
def help : List String → UsageFault
  | [] => .helpAsked
  | [name] => if names.contains name then .helpAsked else .unknownCommand
  | _ => .unknownCommand

/-- What the arguments mean if the first names no command. -/
def withoutName (argument : String) (rest : List String) : UsageFault :=
  match argument.toList with
  | ['-', '-'] =>
    match rest with
    | [] => .nothingAsked
    | next :: _ => if names.contains next then .unknownArgument else .unknownCommand
  | '-' :: '-' :: name =>
    let asked := name.takeWhile (· != '=')
    if asked = "help".toList ∨ asked = "version".toList then
      if name.contains '=' then .valueNotTaken
      else if asked = "help".toList then .helpAsked
      else .versionAsked
    else .unknownArgument
  | '-' :: 'h' :: _ => .helpAsked
  | '-' :: 'V' :: _ => .versionAsked
  | '-' :: _ :: _ => .unknownArgument
  | _ => .unknownCommand

/-- **The command that arguments ask for.** -/
def ofArguments : List String → Except UsageFault Command
  | [] => .error .nothingAsked
  | "analyze" :: rest => (ArgumentReader.run .analyze {} rest).map ofAnalyze
  | "insights" :: rest => (ArgumentReader.run .insights {} rest).bind ofInsights
  | "clean" :: rest =>
    (ArgumentReader.run .clean {} rest).map fun r => .clean (r.value? .dataDirectory)
  | "help" :: rest => .error (help rest)
  | argument :: rest => .error (withoutName argument rest)

end Command

end CodeInsight
