import FleetControl.Output.Format
import FleetControl.Text.Digits
import FleetControl.Workflow.Action

/-!
# The grammar of command lines

A command line is a path of commands, each with options and positional arguments of its own.

1. `Rule` is an option, `Grammar` a command with the commands below it.
2. `Check.accepts` says which values an option takes.
3. `commandLine` is the grammar of this program; the options of `globals` stand at every level.
-/

namespace FleetControl.Arguments

/-- Why a command line is refused, or what is shown in place of running it. -/
inductive Refusal where
  | unknownArgument
  | invalidSubcommand
  | missingArgument
  | invalidValue
  | failedValue
  | conflict
  | tooManyValues
  | missingSubcommand
  | help
  | helpForNothing
  | version
  deriving DecidableEq, Repr, Inhabited

/-- What the process ends with after a refusal: help and version are no failure. -/
def Refusal.exitCode : Refusal → Nat
  | .help => 0
  | .version => 0
  | _ => 2

/-- How often an option may be given, and whether it has a value. -/
inductive Arity where
  | flag
  | single
  | many
  | help
  | version
  deriving DecidableEq, Repr, Inhabited

/-- Which values an option takes. -/
inductive Check where
  | text
  | path
  | format
  | number
  | action
  deriving DecidableEq, Repr, Inhabited

/-- The number that a text of decimal digits writes, with at most a plus sign in front, if it has 64
bits. -/
def number? (s : String) : Option Nat :=
  let digits := match s.toList with
    | '+' :: rest => rest
    | cs => cs
  if digits.isEmpty || !digits.all Char.isDigit then none
  else
    let n := Text.numberOf 10 digits
    if n < UInt64.size then some n else none

def Check.accepts (check : Check) (value : String) : Except Refusal Unit :=
  match check with
  | .text => .ok ()
  | .path => if value.isEmpty then .error .invalidValue else .ok ()
  | .format => if (Format.ofText? value).isSome then .ok () else .error .invalidValue
  | .number => if (number? value).isSome then .ok () else .error .failedValue
  | .action =>
    match Action.parse value with
    | .ok _ => .ok ()
    | .error _ => .error .failedValue

/-- An option. Its value may come from the variable `fallback` of the environment; `hyphens` lets
the value begin with a hyphen. -/
structure Rule where
  name : String
  short : Option Char
  arity : Arity
  check : Check
  hyphens : Bool
  fallback : Option String
  deriving DecidableEq, Repr, Inhabited

namespace Rule

def single (name : String) (short : Option Char) (check : Check)
    (fallback : Option String) : Rule :=
  ⟨name, short, .single, check, false, fallback⟩

/-- An option that may be repeated. -/
def many (name : String) (short : Option Char) : Rule :=
  ⟨name, short, .many, .text, false, none⟩

/-- An option without a value. -/
def flag (name : String) (short : Option Char) : Rule :=
  ⟨name, short, .flag, .text, false, none⟩

def takesValue (rule : Rule) : Bool :=
  rule.arity == .single || rule.arity == .many

end Rule

/-- A command: its options, its positional arguments in order, which of both are required, and the
commands below it. -/
inductive Grammar where
  | command (rules : List Rule) (positionals required : List String)
      (subcommands : List (String × Grammar))

namespace Grammar

def rules : Grammar → List Rule
  | .command rules _ _ _ => rules

def positionals : Grammar → List String
  | .command _ positionals _ _ => positionals

def required : Grammar → List String
  | .command _ _ required _ => required

def subcommands : Grammar → List (String × Grammar)
  | .command _ _ _ subcommands => subcommands

def isGroup (grammar : Grammar) : Bool :=
  !grammar.subcommands.isEmpty

def sub? (grammar : Grammar) (name : String) : Option Grammar :=
  grammar.subcommands.lookup name

end Grammar

/-! ## This program -/

/-- The option that shows help, which every command has. -/
def helpRule : Rule := ⟨"help", some 'h', .help, .text, false, none⟩

def versionRule : Rule := ⟨"version", some 'V', .version, .text, false, none⟩

def globals : List Rule :=
  [Rule.single "api-url" none .text (some "OMNISTRATE_API_URL"),
    Rule.single "service" (some 's') .text (some "OMNISTRATE_SERVICE_ID"),
    Rule.single "environment" (some 'e') .text (some "OMNISTRATE_ENVIRONMENT_ID"),
    Rule.single "format" (some 'f') .format none,
    Rule.single "config" none .path (some "OMNISTRATE_CONFIG"),
    Rule.flag "verbose" (some 'v')]

def leaf (rules : List Rule) (positionals required : List String) : Grammar :=
  .command (rules ++ globals ++ [helpRule]) positionals (positionals ++ required) []

/-- A command that only leads to others. -/
def group (rules : List Rule) (subcommands : List (String × Grammar)) : Grammar :=
  .command (rules ++ globals ++ [helpRule]) [] [] subcommands

/-- The options of a command that may follow its workflow. -/
def waiting : List Rule :=
  [Rule.flag "wait" (some 'w'), Rule.single "poll-interval" none .number none]

def param : Rule := Rule.many "param" (some 'p')

/-- A required option without a short name. -/
def named (name : String) : Rule := Rule.single name none .text none

def instanceCommands : List (String × Grammar) :=
  let onOne := leaf waiting ["id"] []
  [("list", leaf [] [] []),
    ("describe", leaf [] ["id"] []),
    ("create", leaf ([named "resource", named "cloud-provider", named "region", param] ++ waiting)
      [] ["resource", "cloud-provider", "region"]),
    ("modify", leaf (param :: waiting) ["id"] []),
    ("delete", onOne), ("start", onOne), ("stop", onOne), ("restart", onOne),
    ("workflow", leaf [Rule.single "action" (some 'a') .action none,
      Rule.single "poll-interval" none .number none] ["id"] [])]

def snapshotCommands : List (String × Grammar) :=
  let inInstance := Rule.single "instance" (some 'i') .text none
  [("list", leaf [inInstance] [] ["instance"]),
    ("describe", leaf [inInstance] ["id"] ["instance"]),
    ("create", leaf [inInstance] [] ["instance"]),
    ("delete", leaf [inInstance] ["id"] ["instance"]),
    ("restore", leaf (inInstance :: param :: waiting) ["id"] ["instance"])]

/-- The option that names the file of the assistant. -/
def clientConfig : Rule := Rule.single "client-config" none .path none

/-- The commands on the servers of the assistant. -/
def serverCommands : List (String × Grammar) :=
  [("list", leaf [clientConfig] [] []),
    ("show", leaf [clientConfig] ["name"] []),
    ("add", leaf [named "command", ⟨"arg", none, .many, .text, true, none⟩, Rule.many "env" none,
      Rule.flag "force" none, clientConfig] ["name"] ["command"]),
    ("remove", leaf [clientConfig] ["name"] [])]

def commandLine : Grammar :=
  group [versionRule]
    [("login", leaf [named "email",
        Rule.single "password" none .text (some "OMNISTRATE_PASSWORD")] [] ["email", "password"]),
      ("logout", leaf [] [] []),
      ("instance", group [] instanceCommands),
      ("snapshot", group [] snapshotCommands),
      ("mcp", group [clientConfig] serverCommands)]

end FleetControl.Arguments
