import CmsVariables.Run.Build
import CmsVariables.Run.Rewrite

/-!
# The command line

A command line names a command and its options. An option with a value takes it from the next word,
or after an equals sign, or directly after its letter; letters can stand together after one dash. Of
two things wrong with a command line the one met first counts, and an option waiting for its value
is looked at when the next option is met or the words end.
-/

namespace CmsVariables

open Run

namespace CommandLine

/-! ## Options -/

/-- An option of a command. -/
inductive Flag where
  | sourceRoot
  | verbose
  | output
  | stdout
  | apply
  | outDir
  | help
  | version
deriving DecidableEq, Repr

namespace Flag

/-- The name after two dashes. -/
def long : Flag → String
  | sourceRoot => "source-root"
  | verbose => "verbose"
  | output => "output"
  | stdout => "stdout"
  | apply => "apply"
  | outDir => "out-dir"
  | help => "help"
  | version => "version"

/-- The letter after one dash. -/
def short? : Flag → Option Char
  | verbose => some 'v'
  | output => some 'o'
  | help => some 'h'
  | version => some 'V'
  | _ => none

/-- The option has a value. -/
def takesValue : Flag → Bool
  | sourceRoot => true
  | output => true
  | outDir => true
  | _ => false

end Flag

/-- The options that stand before a command. -/
def topFlags : List Flag := [.help, .version]

/-- The options of a build. -/
def buildFlags : List Flag := [.sourceRoot, .verbose, .output, .stdout, .help]

/-- The options of a rewriting run. -/
def rewriteFlags : List Flag := [.sourceRoot, .verbose, .apply, .outDir, .help]

/-- The options of starting a project. -/
def initFlags : List Flag := [.help]

/-! ## What a command line asks for -/

/-- A command with its options. -/
inductive Command where
  | build (options : BuildOptions)
  | rewrite (options : RewriteOptions)
  | init
deriving DecidableEq, Repr

/-- What a command line asks for instead of a run, or what is wrong with it. -/
inductive Usage where
  | displayHelp
  | displayVersion
  | invalidSubcommand
  | unknownArgument
  | invalidValue
  | tooManyValues
  | argumentConflict
deriving DecidableEq, Repr

/-- The exit status: to ask for help or the version is no mistake. -/
def Usage.exitStatus : Usage → Nat
  | displayHelp => 0
  | displayVersion => 0
  | _ => 2

/-! ## Reading options -/

/-- An option whose value is not yet looked at. -/
inductive Pending where
  | nothing
  /-- The next word is the value. -/
  | awaiting (flag : Flag)
  | held (flag : Flag) (value : String)
deriving DecidableEq, Repr

/-- The options read so far. -/
structure Given where
  options : List (Flag × String) := []
  pending : Pending := .nothing
deriving DecidableEq, Repr

namespace Given

/-- The option was read. -/
def has (g : Given) (flag : Flag) : Bool := g.options.any fun p => p.1 = flag

/-- The value of an option. -/
def value? (g : Given) (flag : Flag) : Option String := g.options.lookup flag

/-- Takes an option and its value. -/
def take (g : Given) (flag : Flag) (value : String) : Except Usage Given :=
  if g.has flag then .error .argumentConflict
  else if flag.takesValue && value == "" then .error .invalidValue
  else .ok { g with options := g.options ++ [(flag, value)] }

/-- Takes the option that was left open. -/
def close (g : Given) : Except Usage Given :=
  match g.pending with
  | .nothing => .ok g
  | .awaiting _ => .error .invalidValue
  | .held flag value => { g with pending := .nothing }.take flag value

/-- Takes an option with the value that is joined to it. -/
def takeJoined (g : Given) (flag : Flag) (value : String) : Except Usage Given :=
  match g.close with
  | .error u => .error u
  | .ok g => g.take flag value

/-- Takes an option whose value comes with the next word. -/
def await (g : Given) (flag : Flag) : Except Usage Given :=
  match g.close with
  | .error u => .error u
  | .ok g => .ok { g with pending := .awaiting flag }

/-- Takes an option without a value. -/
def takePlain (g : Given) (flag : Flag) : Except Usage Given :=
  match g.close with
  | .error u => .error u
  | .ok g =>
    match flag with
    | .help => .error .displayHelp
    | .version => .error .displayVersion
    | flag => g.take flag ""

end Given

/-- The text before the first equals sign, and the text after it. -/
def splitEquals (cs : List Char) : String × Option String :=
  (String.ofList (cs.takeWhile (· != '=')),
    match cs.dropWhile (· != '=') with
    | [] => none
    | _ :: value => some (String.ofList value))

/-- Reads a word that starts with two dashes, without them. -/
def readLong (flags : List Flag) (g : Given) (cs : List Char) : Except Usage Given :=
  let (name, value?) := splitEquals cs
  match flags.find? (·.long == name), value? with
  | none, _ => .error .unknownArgument
  | some flag, some value =>
    if flag.takesValue then g.takeJoined flag value else .error .tooManyValues
  | some flag, none => if flag.takesValue then g.await flag else g.takePlain flag

/-- Reads a word that starts with one dash, without it. -/
def readShort (flags : List Flag) (g : Given) : List Char → Except Usage Given
  | [] => .ok g
  | c :: cs =>
    match flags.find? (·.short? == some c) with
    | none => .error .unknownArgument
    | some flag =>
      if flag.takesValue then
        match cs with
        | [] => g.await flag
        | '=' :: value => g.takeJoined flag (String.ofList value)
        | value => g.takeJoined flag (String.ofList value)
      else
        match g.takePlain flag with
        | .error u => .error u
        | .ok g => readShort flags g cs

/-- Reads the words after a command. After two dashes alone no further word is an option, and no
command takes other words. -/
def readOptions (flags : List Flag) (g : Given) : List String → Except Usage Given
  | [] => g.close
  | word :: words =>
    match word.toList with
    | ['-', '-'] => if words = [] then g.close else .error .unknownArgument
    | '-' :: '-' :: cs =>
      match readLong flags g cs with
      | .error u => .error u
      | .ok g => readOptions flags g words
    | '-' :: c :: cs =>
      match readShort flags g (c :: cs) with
      | .error u => .error u
      | .ok g => readOptions flags g words
    | _ =>
      match g.pending with
      | .awaiting flag => readOptions flags { g with pending := .held flag word } words
      | _ => .error .unknownArgument

/-! ## Commands -/

/-- The options of a build that were given. -/
def buildOptions (g : Given) : BuildOptions where
  overrides :=
    { sourceRoot := (g.value? .sourceRoot).map .ofText
      output := (g.value? .output).map .ofText }
  verbose := g.has .verbose
  toStdout := g.has .stdout

/-- The options of a rewriting run that were given. To rewrite in place and to write copies exclude
each other. -/
def rewriteOptions (g : Given) : Except Usage RewriteOptions :=
  let options (mode : Mode) : RewriteOptions :=
    { sourceRoot := (g.value? .sourceRoot).map .ofText, verbose := g.has .verbose, mode := mode }
  match g.has .apply, g.value? .outDir with
  | true, some _ => .error .argumentConflict
  | true, none => .ok (options .inPlace)
  | false, some dir => .ok (options (.copies (.ofText dir)))
  | false, none => .ok (options .preview)

/-- The names of the commands. -/
def commandNames : List String := ["build", "rewrite", "init", "help"]

/-- Reads what stands after the command `help`: at most the name of one command. -/
def readHelp : List String → Usage
  | [] => .displayHelp
  | [name] => if commandNames.contains name then .displayHelp else .invalidSubcommand
  | _ => .invalidSubcommand

/-- Reads a command and the words after it. -/
def readCommand (name : String) (words : List String) : Except Usage Command :=
  match name with
  | "build" => (readOptions buildFlags {} words).map fun g => .build (buildOptions g)
  | "rewrite" => ((readOptions rewriteFlags {} words).bind rewriteOptions).map .rewrite
  | "init" => (readOptions initFlags {} words).map fun _ => .init
  | "help" => .error (readHelp words)
  | _ => .error .invalidSubcommand

/-- Reads a command line. Without a command it asks for nothing. -/
def parse : List String → Except Usage (Option Command)
  | [] => .ok none
  | word :: words =>
    if commandNames.contains word then (readCommand word words).map some
    else
      match word.toList with
      | ['-', '-'] =>
        match words with
        | [] => .ok none
        | next :: _ =>
          .error (if commandNames.contains next then .unknownArgument else .invalidSubcommand)
      | '-' :: '-' :: cs =>
        match readLong topFlags {} cs with
        | .error u => .error u
        | .ok _ => .ok none
      | '-' :: c :: cs =>
        match readShort topFlags {} (c :: cs) with
        | .error u => .error u
        | .ok _ => .ok none
      | _ => .error .invalidSubcommand

end CommandLine

end CmsVariables
