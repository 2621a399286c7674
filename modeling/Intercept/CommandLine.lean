import Intercept.Config.Basic

/-!
# The command line

The program takes the path of its settings and two switches, by the rules of `clap` 4.5.

* `Invocation.parse` reads the arguments; the first mistake among them is a `UsageError`.
* `helpText` and `versionText` are what the program says about itself.

The path is the value of an option: it may be attached to it or be the next argument. An option is
only taken into account when the next one starts or the arguments end; then it is an error if it
has no value or was given before.
-/

namespace Intercept

/-- What the program is asked to do (`Args`). -/
inductive Invocation
  | help
  | version
  | serve (path : Text) (overrides : Overrides)
deriving DecidableEq, Repr

/-- A mistake in the arguments. -/
inductive UsageError
  | unexpected (argument : Text)
  | missingValue
  | repeated (option : String)
  | needlessValue (value : Text) (option : String)
deriving DecidableEq, Repr

/-- How the option with the path is named in messages. -/
def pathOption : String := "--config <CONFIG>"

namespace UsageError

/-- The text of the error. -/
def message : UsageError → String
  | unexpected argument => "unexpected argument '" ++ String.ofList argument ++ "' found"
  | missingValue => "a value is required for '" ++ pathOption ++ "' but none was supplied"
  | repeated option => "the argument '" ++ option ++ "' cannot be used multiple times"
  | needlessValue value option =>
    "unexpected value '" ++ String.ofList value ++ "' for '" ++ option ++
      "' found; no more were expected"

end UsageError

/-- Where the settings are when no path is given. -/
def defaultPath : Text := "/etc/redirproxy/config.yaml".toList

/-- What the program says about its arguments. -/
def helpText : String :=
  "Transparent-redirect TCP proxy with TLS/HTTP sniffing\n\n" ++
  "Usage: redirproxy-server [OPTIONS]\n\n" ++
  "Options:\n" ++
  "  -c, --config <CONFIG>  [default: /etc/redirproxy/config.yaml]\n" ++
  "      --transparent      Use the socket's local address as the original destination (TPROXY)\n" ++
  "      --no-sniffing      Relay every connection opaquely without protocol sniffing\n" ++
  "  -h, --help             Print help\n" ++
  "  -V, --version          Print version\n"

/-- The name and version of the program. -/
def versionText : String := "redirproxy-bin 0.1.0\n"

/-- The value of an option that has been started. -/
inductive Started
  | none
  /-- The value is still to come. -/
  | awaited
  | value (path : Text)
deriving DecidableEq, Repr

/-- The arguments so far. -/
structure Arguments where
  path : Option Text := none
  overrides : Overrides := {}
  started : Started := .none

namespace Arguments

/-- Takes a path into account. -/
def setPath (a : Arguments) (path : Text) : Except UsageError Arguments :=
  if a.path.isSome then .error (.repeated pathOption)
  else if path.isEmpty then .error .missingValue
  else .ok { a with path := some path, started := .none }

/-- Takes the option that has been started into account. -/
def close (a : Arguments) : Except UsageError Arguments :=
  match a.started with
  | .none => .ok a
  | .awaited => .error .missingValue
  | .value path => a.setPath path

/-- Starts the option with the path, whose value may be attached. -/
def startPath (a : Arguments) (value : Option Text) : Except UsageError Arguments := do
  let a ← a.close
  match value with
  | some path => a.setPath path
  | none => return { a with started := .awaited }

/-- Throws the switch for transparent mode. -/
def setTransparent (a : Arguments) : Except UsageError Arguments := do
  let a ← a.close
  if a.overrides.transparent then .error (.repeated "--transparent")
  else return { a with overrides := { a.overrides with transparent := true } }

/-- Throws the switch that turns sniffing off. -/
def setNoSniffing (a : Arguments) : Except UsageError Arguments := do
  let a ← a.close
  if a.overrides.noSniffing then .error (.repeated "--no-sniffing")
  else return { a with overrides := { a.overrides with noSniffing := true } }

end Arguments

namespace Invocation

/-- What an argument leads to: more arguments, or an invocation of its own. -/
abbrev Outcome := Except UsageError (Arguments ⊕ Invocation)

/-- Goes on with the arguments. -/
def more (a : Except UsageError Arguments) : Outcome := a.map .inl

/-- Stops with what is asked for. -/
def done (a : Arguments) (c : Invocation) : Outcome := a.close.map fun _ => .inr c

/-- Takes a switch, to which no value may be attached. -/
def switch (name : String) (value : Option Text) (go : Outcome) : Outcome :=
  match value with
  | some v => .error (.needlessValue v name)
  | none => go

/-- Takes an argument behind two dashes. -/
def long (a : Arguments) (t : Text) : Outcome :=
  let (name, value) := match cutFirst '=' t with
    | some (name, value) => (name, some value)
    | none => (t, none)
  if name = "config".toList then more (a.startPath value)
  else if name = "transparent".toList then switch "--transparent" value (more a.setTransparent)
  else if name = "no-sniffing".toList then switch "--no-sniffing" value (more a.setNoSniffing)
  else if name = "help".toList then switch "--help" value (done a .help)
  else if name = "version".toList then switch "--version" value (done a .version)
  else .error (.unexpected ('-' :: '-' :: name))

/-- Takes an argument behind one dash. -/
def short (a : Arguments) (letter : Char) (rest : Text) : Outcome :=
  if letter = 'c' then
    more (a.startPath (match rest with
      | [] => none
      | '=' :: path => some path
      | path => some path))
  else if letter = 'h' then done a .help
  else if letter = 'V' then done a .version
  else .error (.unexpected ['-', letter])

/-- Takes an argument without dashes: the value of the option before it, or a mistake. -/
def bare (a : Arguments) (t : Text) : Outcome :=
  if a.started = .awaited then .ok (.inl { a with started := .value t }) else .error (.unexpected t)

/-- What all arguments together ask for. -/
def finish (a : Arguments) : Except UsageError Invocation := do
  let a ← a.close
  return .serve (a.path.getD defaultPath) a.overrides

/-- Takes the arguments in order. Behind a lone pair of dashes there may be nothing more. -/
def parseFrom (a : Arguments) : List Text → Except UsageError Invocation
  | [] => finish a
  | ['-', '-'] :: rest =>
    match rest with
    | [] => finish a
    | t :: _ => .error (.unexpected t)
  | t :: rest =>
    let step := match t with
      | '-' :: '-' :: name => long a name
      | '-' :: letter :: cluster => short a letter cluster
      | t => bare a t
    match step with
    | .error e => .error e
    | .ok (.inr c) => .ok c
    | .ok (.inl a) => parseFrom a rest

/-- Reads the arguments (`Args`). -/
def parse (arguments : List Text) : Except UsageError Invocation := parseFrom {} arguments

end Invocation
end Intercept
