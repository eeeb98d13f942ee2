import FleetControl.Arguments.Grammar
import FleetControl.Settings.Environment

/-!
# Matching words against a grammar

1. `readWords` reads the words of one command, up to a word that leads to a command below.
2. A value is checked when the next option or positional argument is met, or at the end of the
   words; so of two faults a later one that is met at once may win.
3. `Grammar.parse` reads a whole command line: a command below is read to its end before the values
   of the command above are settled.
-/

namespace FleetControl.Arguments

/-- The values of the options and positional arguments of one command, by name. -/
abbrev Values := List (String × List String)

namespace Values

def all (values : Values) (name : String) : List String :=
  (values.lookup name).getD []

def has (values : Values) (name : String) : Bool :=
  (values.lookup name).isSome

def add (values : Values) (name : String) (more : List String) : Values :=
  (name, values.all name ++ more) :: values.filter fun (other, _) => other != name

end Values

/-- Where the reading of a command stands: what is settled, an option that is not yet, with its
value if it has one, how many positional arguments there were, and whether only those may follow. -/
structure State where
  settled : Values
  pending : Option (Rule × List String)
  position : Nat
  trailing : Bool

namespace State

def start : State := ⟨[], none, 0, false⟩

def awaiting? (state : State) : Option Rule :=
  match state.pending with
  | some (rule, []) => some rule
  | _ => none

/-- Whether the next word is a value even if it begins with a hyphen. -/
def takesHyphens (state : State) : Bool :=
  state.awaiting?.any (·.hyphens)

def settle (state : State) (rule : Rule) (values : List String) : Except Refusal State :=
  if rule.takesValue && values.isEmpty then .error .invalidValue
  else if rule.arity != .many && state.settled.has rule.name then .error .conflict
  else do
    values.forM rule.check.accepts
    pure { state with settled := state.settled.add rule.name values }

def resolve (state : State) : Except Refusal State :=
  match state.pending with
  | none => .ok state
  | some (rule, values) => { state with pending := none }.settle rule values

/-- Meets an option, with the value attached to it. -/
def meet (state : State) (rule : Rule) (attached : Option String) : Except Refusal State := do
  let state ← state.resolve
  match rule.arity, attached with
  | .help, _ => .error .help
  | .version, _ => .error .version
  | .flag, _ => state.settle rule []
  | _, some value => state.settle rule [value]
  | _, none => pure { state with pending := some (rule, []) }

end State

def long? (grammar : Grammar) (name : String) : Option Rule :=
  grammar.rules.find? fun rule => rule.name == name

def short? (grammar : Grammar) (c : Char) : Option Rule :=
  grammar.rules.find? fun rule => rule.short == some c

def readLong (grammar : Grammar) (state : State) (cs : List Char) : Except Refusal State :=
  let (name, value) := match Text.splitChars? '=' cs with
    | some (name, value) => (name, some (String.ofList value))
    | none => (cs, none)
  match long? grammar (String.ofList name) with
  | none => .error .unknownArgument
  | some rule =>
    if !rule.takesValue && value.isSome then .error .tooManyValues else state.meet rule value

/-- Reads a word after its hyphen: options without a value, then at most one with a value. -/
def readShorts (grammar : Grammar) (state : State) : List Char → Except Refusal State
  | [] => .ok state
  | c :: rest =>
    match short? grammar c with
    | none => .error .unknownArgument
    | some rule =>
      if rule.takesValue then
        match rest with
        | [] => state.meet rule none
        | '=' :: value => state.meet rule (some (String.ofList value))
        | value => state.meet rule (some (String.ofList value))
      else do readShorts grammar (← state.meet rule none) rest

/-- The refusal of a word for which there is no place. -/
def surplus (grammar : Grammar) (state : State) (word : String) : Refusal :=
  if !grammar.isGroup then .unknownArgument
  else if state.trailing && ((grammar.sub? word).isSome || word = "help") then .unknownArgument
  else .invalidSubcommand

def readPositional (grammar : Grammar) (state : State) (word : String) : Except Refusal State :=
  match grammar.positionals[state.position]? with
  | none => .error (surplus grammar state word)
  | some name => do
    let state ← state.resolve
    pure { state with
      settled := state.settled.add name [word], position := state.position + 1 }

/-- Reads a word that names no command below. -/
def readWord (grammar : Grammar) (state : State) (word : String) : Except Refusal State :=
  let asValue : Except Refusal State := match state.awaiting? with
    | some rule => .ok { state with pending := some (rule, [word]) }
    | none => readPositional grammar state word
  if state.trailing then readPositional grammar state word
  else if state.takesHyphens then asValue
  else
    match word.toList with
    | ['-', '-'] => .ok { state with trailing := true }
    | '-' :: '-' :: cs => readLong grammar state cs
    | '-' :: c :: cs => readShorts grammar state (c :: cs)
    | _ => asValue

/-- What asking for help on a path of commands gives. -/
def helpOn (grammar : Grammar) : List String → Refusal
  | [] => .help
  | word :: rest =>
    match grammar.sub? word with
    | some sub => helpOn sub rest
    | none => if grammar.isGroup && word = "help" && rest.isEmpty then .help else .invalidSubcommand

/-- How the words of a command end: with the words, or at a command below. -/
inductive Reached where
  | finished (state : State)
  | entered (state : State) (name : String) (sub : Grammar) (rest : List String)

def readWords (grammar : Grammar) (state : State) : List String → Except Refusal Reached
  | [] => .ok (.finished state)
  | word :: rest =>
    let leads := grammar.isGroup && !state.trailing && state.awaiting?.isNone
    if leads && word = "help" then .error (helpOn grammar rest)
    else
      match (if leads then grammar.sub? word else none) with
      | some sub => .ok (.entered state word sub rest)
      | none => do readWords grammar (← readWord grammar state word) rest

/-- Adds the values that the environment has for options that were not given. -/
def addVariables (environment : Environment) :
    List Rule → Values → Except Refusal (List (String × String))
  | [], _ => .ok []
  | rule :: rest, values =>
    match (if values.has rule.name then none else rule.fallback.bind environment.get?) with
    | none => addVariables environment rest values
    | some value => do
      rule.check.accepts value
      let more ← addVariables environment rest values
      pure ((rule.name, value) :: more)

/-- A command that was read: its name, what its words gave, and what the environment added. -/
structure Matched where
  name : String
  given : Values
  inherited : List (String × String)

namespace Matched

def has (matched : Matched) (name : String) : Bool :=
  matched.given.has name || (matched.inherited.lookup name).isSome

end Matched

def finish (environment : Environment) (grammar : Grammar) (name : String) (state : State)
    (entered : Bool) : Except Refusal Matched := do
  let state ← state.resolve
  let inherited ← addVariables environment grammar.rules state.settled
  let matched : Matched := ⟨name, state.settled, inherited⟩
  if grammar.isGroup && !entered then
    .error (if state.settled.isEmpty && inherited.isEmpty then .helpForNothing
      else .missingSubcommand)
  else if grammar.required.any fun name => !matched.has name then .error .missingArgument
  else pure matched

namespace Grammar

/-- Reads a command line from a command down, by at most `fuel` commands. -/
def parseFrom (environment : Environment) :
    Nat → Grammar → String → List String → Except Refusal (List Matched)
  | 0, _, _, _ => .ok []
  | fuel + 1, grammar, name, words => do
    match ← readWords grammar .start words with
    | .finished state => do
      let matched ← finish environment grammar name state false
      pure [matched]
    | .entered state next sub rest => do
      let below ← parseFrom environment fuel sub next rest
      let matched ← finish environment grammar name state true
      pure (matched :: below)

/-- The commands of a command line from the top down. -/
def parse (environment : Environment) (grammar : Grammar) (words : List String) :
    Except Refusal (List Matched) :=
  parseFrom environment (words.length + 1) grammar "" words

end Grammar

end FleetControl.Arguments
