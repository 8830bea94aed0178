/-
Splitting the arguments of a command. An argument that begins with two hyphens names a flag or an option;
an option takes its value after `=` or from the next argument. `--` ends the options. Any other argument
is the name of a command or stands for itself.

`Grammar.scan` only sorts the arguments. `Scan.flag`, `Scan.option?` and `Scan.option` then check how often
each was given, and read its value.
-/
import PacketForwarder.Text.Similarity

namespace PacketForwarder.CommandLine

/-- why arguments are refused; asking for help or for the version ends the reading of arguments too -/
inductive ArgumentError where
  | unknownArgument
  /-- an unknown command that is like a known one -/
  | unknownCommand
  /-- help is asked for on a command that there is not -/
  | unknownTopic
  /-- an option without a value -/
  | emptyValue
  /-- a value that the option does not hold -/
  | invalidValue
  | missingArgument
  | repeated
  | missingCommand
  | helpRequested
  | versionRequested
  deriving DecidableEq

namespace ArgumentError

def message : ArgumentError → String
  | unknownArgument => "unknown argument"
  | unknownCommand => "unknown command"
  | unknownTopic => "no help on this command"
  | emptyValue => "an option lacks its value"
  | invalidValue => "invalid value of an option"
  | missingArgument => "a mandatory option is missing"
  | repeated => "an option is given more than once"
  | missingCommand => "one of the commands decode and encode is missing"
  | helpRequested => "usage: [--log-level LEVEL] decode [--file FILE] [--exclusive] [TXPK] | encode --freq MHZ ..."
  | versionRequested => "0.1.0"

/-- does the error make the program fail? -/
def isFailure : ArgumentError → Bool
  | helpRequested => false
  | versionRequested => false
  | _ => true

end ArgumentError

/-- a name that two hyphens introduce -/
structure Argument where
  name : String
  takesValue : Bool
  /-- may the value begin with a hyphen, in an argument of its own? -/
  hyphenValue : Bool
  deriving DecidableEq

namespace Argument

def flag (name : String) : Argument := ⟨name, false, false⟩

def option (name : String) : Argument := ⟨name, true, false⟩

def hyphenOption (name : String) : Argument := ⟨name, true, true⟩

end Argument

/-- what arguments a command has -/
structure Grammar where
  arguments : List Argument
  /-- how many arguments may stand for themselves -/
  texts : Nat
  commands : List String

/-- arguments sorted so far -/
structure Scan where
  /-- flags and options, each time they were named -/
  named : List String
  /-- values by the names of their options -/
  values : List (String × String)
  texts : List String
  /-- the option that waits for its value -/
  awaiting : Option Argument
  /-- after `--` -/
  ended : Bool
  /-- a command and the arguments after it -/
  command : Option (String × List String)

namespace Scan

def start : Scan := ⟨[], [], [], none, false, none⟩

end Scan

namespace Grammar

/-- does an argument name a flag or an option? An option that waits for its value may take any argument. -/
def startsName (awaiting : Option Argument) (arg : List Char) : Bool :=
  !awaiting.any (·.hyphenValue) &&
    match arg with
    | '-' :: _ :: _ => true
    | _ => false

/-- a name and the value after `=` -/
def splitValue (arg : List Char) : String × Option String :=
  let (name, rest) := arg.span (· ≠ '=')
  let value := match rest with
    | _ :: value => some (String.ofList (value.dropWhile (· = '=')))
    | [] => none
  (String.ofList name, value)

/-- an argument that begins with two hyphens -/
def scanName (g : Grammar) (s : Scan) (arg : List Char) : Except ArgumentError Scan :=
  let (name, value) := splitValue (arg.dropWhile (· = '-'))
  match g.arguments.find? (·.name = name) with
  | some a =>
    let s := { s with named := s.named ++ [name], awaiting := none }
    if !a.takesValue then .ok s
    else match value with
      | some v => .ok { s with values := s.values ++ [(name, v)] }
      | none => .ok { s with awaiting := some a }
  | none =>
    if name = "help" then .error .helpRequested
    else if name = "version" then .error .versionRequested
    else .error .unknownArgument

/-- an argument that begins with one hyphen: the only short names are those of help and version -/
def scanShort (arg : List Char) : ArgumentError :=
  match arg.dropWhile (· = '-') with
  | 'h' :: _ => .helpRequested
  | 'V' :: _ => .versionRequested
  | _ => .unknownArgument

/-- an argument that stands for itself -/
def scanText (g : Grammar) (s : Scan) (arg : String) : Except ArgumentError Scan :=
  if g.commands.any (Similarity.alike arg) then .error .unknownCommand
  else if s.texts.length < g.texts then .ok { s with texts := s.texts ++ [arg] }
  else .error .unknownArgument

/-- sort arguments, up to a command -/
def scan (g : Grammar) (s : Scan) : List String → Except ArgumentError Scan
  | [] => .ok s
  | arg :: rest =>
    let cs := arg.toList
    if s.ended then do scan g (← g.scanText s arg) rest
    else if arg = "--" ∧ startsName s.awaiting cs then scan g { s with ended := true } rest
    else if s.awaiting.isNone ∧ g.commands.contains arg then .ok { s with command := some (arg, rest) }
    else if startsName s.awaiting cs then
      if "--".toList.isPrefixOf cs then do scan g (← g.scanName s cs) rest
      else .error (scanShort cs)
    else match s.awaiting with
      | some a => scan g { s with values := s.values ++ [(a.name, arg)], awaiting := none } rest
      | none => do scan g (← g.scanText s arg) rest

end Grammar

namespace Scan

def valuesOf (s : Scan) (name : String) : List String :=
  s.values.filterMap fun v => if v.1 = name then some v.2 else none

/-- was a flag given? -/
def flag (s : Scan) (name : String) : Except ArgumentError Bool :=
  match s.named.count name with
  | 0 => .ok false
  | 1 => .ok true
  | _ => .error .repeated

/-- the value of an option that may be left out, but not its value -/
def option? {α : Type} (s : Scan) (name : String) (read : String → Option α) :
    Except ArgumentError (Option α) :=
  let values := s.valuesOf name
  if s.named.contains name && values.isEmpty then .error .emptyValue
  else match values.mapM read with
    | none => .error .invalidValue
    | some vs => if 1 < s.named.count name then .error .repeated else .ok vs.head?

/-- the value of an option, which is `default` when it or its value is left out -/
def option {α : Type} (s : Scan) (name : String) (default : α) (read : String → Option α) :
    Except ArgumentError α :=
  match (s.valuesOf name).mapM read with
  | none => .error .invalidValue
  | some vs => if 1 < s.named.count name then .error .repeated else .ok (vs.head?.getD default)

/-- The checks before any value is read: options that have to be given are there, and the last argument
is not an option that lacks its value and has no default. -/
def checkGiven (s : Scan) (required withoutDefault : List String) : Except ArgumentError Unit :=
  if required.any (!s.named.contains ·) then .error .missingArgument
  else if s.awaiting.any fun a => withoutDefault.contains a.name && (s.valuesOf a.name).isEmpty then
    .error .emptyValue
  else .ok ()

end Scan

end PacketForwarder.CommandLine
