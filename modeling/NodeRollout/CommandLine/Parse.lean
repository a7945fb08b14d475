import NodeRollout.CommandLine.Value
/-!
Reading a command line. Options stand before and after the subcommand, as `--name value` or
`--name=value`; the level behind the subcommand is read to its end before the one in front of it.

A value that stands by itself is only looked at when the next option begins or the level ends, so a
mistake in between is reported first. What is not given is taken from the environment, then from the
defaults.
-/
namespace NodeRollout.CommandLine

abbrev Environment := String → Option String

/-- Where a value comes from; the later the stronger. -/
inductive Source where
  | default
  | environment
  | commandLine
  deriving DecidableEq, Inhabited, Repr

def Source.rank : Source → Nat
  | .default => 0
  | .environment => 1
  | .commandLine => 2

/-- The value of an option. -/
structure Given where
  name : String
  source : Source
  value : String
  deriving DecidableEq, Inhabited, Repr

/-- The subcommands. -/
inductive Subcommand where
  | operator
  | proxy
  | agent
  | crd
  deriving DecidableEq, Inhabited, Repr

namespace Subcommand

def name : Subcommand → String
  | .operator => "operator"
  | .proxy => "proxy"
  | .agent => "agent"
  | .crd => "crd"

def all : List Subcommand := [.operator, .proxy, .agent, .crd]

def ofName? (name : String) : Option Subcommand := all.find? (·.name == name)

def flags : Subcommand → List Flag
  | .operator => [
    ⟨"poll-interval-seconds", "POLL_INTERVAL_SECONDS", .unsigned, some "5"⟩,
    ⟨"completion-timeout-seconds", "COMPLETION_TIMEOUT_SECONDS", .unsigned, some "600"⟩,
    ⟨"default-max-unavailable", "DEFAULT_MAX_UNAVAILABLE", .unsigned, some "2"⟩,
    ⟨"health-port", "HEALTH_PORT", .port, some "8080"⟩,
    ⟨"metrics-port", "METRICS_PORT", .port, some "8081"⟩]
  | .proxy => [
    ⟨"node-name", "NODE_NAME", .text, none⟩,
    ⟨"socket-path", "AGENT_SOCKET", .path, some "/run/nodeup/agent.sock"⟩,
    ⟨"rpc-timeout-seconds", "RPC_TIMEOUT_SECONDS", .unsigned, some "1800"⟩,
    ⟨"health-port", "HEALTH_PORT", .port, some "8080"⟩]
  | .agent => [
    ⟨"socket-path", "AGENT_SOCKET", .path, some "/run/nodeup/agent.sock"⟩,
    ⟨"socket-group-id", "SOCKET_GROUP_ID", .group, some "0"⟩,
    ⟨"stamp-dir", "STAMP_DIR", .path, some "/var/lib/nodeup"⟩,
    ⟨"os-release-path", "OS_RELEASE_PATH", .path, some "/etc/os-release"⟩]
  | .crd => []

end Subcommand

def globalFlags : List Flag := [
  ⟨"log-format", "LOG_FORMAT", .format, some "json"⟩,
  ⟨"log-level", "LOG_LEVEL", .text, some "info"⟩]

/-- One level of the command line: in front of the subcommand, or behind one. -/
inductive Level where
  | top
  | below (subcommand : Subcommand)
  deriving DecidableEq, Inhabited, Repr

/-- The options a level knows, in the order in which the environment is asked for them. -/
def Level.flags : Level → List Flag
  | .top => globalFlags
  | .below subcommand => subcommand.flags ++ globalFlags

/-- What was read of a level: checked values, and an option whose value is not checked yet. -/
structure Progress where
  given : List Given := []
  pending : Option (Flag × Option String) := none
  deriving DecidableEq, Inhabited, Repr

namespace Progress

def has (p : Progress) (name : String) : Bool := p.given.any (·.name == name)

/-- Takes a value from the command line; an option can be given once on a level. -/
def take (p : Progress) (flag : Flag) (value : String) : Except Fault Progress := do
  if p.has flag.name then throw .argumentConflict
  flag.kind.check value
  return { p with given := p.given ++ [⟨flag.name, .commandLine, value⟩] }

def settle (p : Progress) : Except Fault Progress :=
  match p.pending with
  | none => .ok p
  | some (_, none) => .error .invalidValue
  | some (flag, some value) => { p with pending := none }.take flag value

/-- Takes what the environment gives for options that are missing. -/
def addEnvironment (env : Environment) (p : Progress) : List Flag → Except Fault Progress
  | [] => .ok p
  | flag :: rest =>
    match env flag.envName with
    | some value =>
      if p.has flag.name then p.addEnvironment env rest
      else do
        flag.kind.check value
        let found : Progress := { p with given := p.given ++ [⟨flag.name, .environment, value⟩] }
        found.addEnvironment env rest
    | none => p.addEnvironment env rest

end Progress

/-- A long option without its dashes, and the value behind an equals sign. -/
def splitLong (cs : List Char) : String × Option String :=
  let name := cs.takeWhile (· != '=')
  match cs.drop name.length with
  | _ :: value => (String.ofList name, some (String.ofList value))
  | [] => (String.ofList name, none)

/-- An option that only displays something; it cannot have a value. -/
def display (fault : Fault) (p : Progress) (value : Option String) : Except Fault Progress :=
  match value with
  | some _ => .error .tooManyValues
  | none => do
    let _ ← p.settle
    throw fault

def takeLong (level : Level) (p : Progress) (cs : List Char) : Except Fault Progress :=
  let (name, value) := splitLong cs
  match level.flags.find? (·.name == name) with
  | some flag => do
    let p ← p.settle
    match value with
    | some value => p.take flag value
    | none => return { p with pending := some (flag, none) }
  | none =>
    if name = "help" then display .displayHelp p value
    else if name = "version" ∧ level = .top then display .displayVersion p value
    else .error .unknownArgument

/-- Takes short options; the first of them decides, for it displays something or is unknown. -/
def takeShort (level : Level) (p : Progress) (c : Char) : Except Fault Progress :=
  if c = 'h' then display .displayHelp p none
  else if c = 'V' ∧ level = .top then display .displayVersion p none
  else .error .unknownArgument

def helpFault : List String → Fault
  | [] => .displayHelp
  | [name] =>
    if (Subcommand.ofName? name).isSome ∨ name = "help" then .displayHelp else .invalidSubcommand
  | _ => .invalidSubcommand

def strayWord (level : Level) (escaped : Bool) (word : String) : Fault :=
  match level with
  | .top =>
    if escaped ∧ ((Subcommand.ofName? word).isSome ∨ word = "help") then .unknownArgument
    else .invalidSubcommand
  | .below _ => .unknownArgument

/-- Reads the words of a level, up to a subcommand where there is one. -/
def scan (level : Level) (p : Progress) :
    List String → Except Fault (Progress × Option (Subcommand × List String))
  | [] => .ok (p, none)
  | word :: rest =>
    match word.toList with
    | ['-', '-'] =>
      match rest with
      | [] => .ok (p, none)
      | stray :: _ => .error (strayWord level true stray)
    | '-' :: '-' :: cs => do scan level (← takeLong level p cs) rest
    | '-' :: c :: _ => do scan level (← takeShort level p c) rest
    | _ =>
      match p.pending with
      | some (flag, none) => scan level { p with pending := some (flag, some word) } rest
      | _ =>
        match level, Subcommand.ofName? word with
        | .top, some subcommand => .ok (p, some (subcommand, rest))
        | level, _ =>
          if level = .top ∧ word = "help" then .error (helpFault rest)
          else .error (strayWord level false word)

def complete (env : Environment) (level : Level) (p : Progress) : Except Fault (List Given) := do
  let p ← p.settle
  let p ← p.addEnvironment env level.flags
  return p.given

def checkRequired (flags : List Flag) (given : List Given) : Except Fault Unit :=
  if flags.all fun flag => flag.default.isSome || given.any (·.name == flag.name) then .ok ()
  else .error .missingRequiredArgument

def parseBelow (env : Environment) (subcommand : Subcommand) (words : List String) :
    Except Fault (List Given) := do
  let (p, _) ← scan (.below subcommand) {} words
  let given ← complete env (.below subcommand) p
  checkRequired subcommand.flags given
  return given

/-- The value of an option: the strongest one, of equals the one further in, else the default. -/
def valueOf (outer inner : List Given) (flag : Flag) : String :=
  match outer.find? (·.name == flag.name), inner.find? (·.name == flag.name) with
  | some o, some i => if i.source.rank < o.source.rank then o.value else i.value
  | some o, none => o.value
  | none, some i => i.value
  | none, none => flag.default.getD ""

/-- A subcommand with the value of each option it knows. -/
structure Parsed where
  subcommand : Subcommand
  values : List (String × String)
  deriving DecidableEq, Inhabited, Repr

def parse (env : Environment) (words : List String) : Except Fault Parsed := do
  let (p, found) ← scan .top {} words
  match found with
  | some (subcommand, rest) =>
    let inner ← parseBelow env subcommand rest
    let outer ← complete env .top p
    let value (flag : Flag) := (flag.name, valueOf outer inner flag)
    return ⟨subcommand, (Level.below subcommand).flags.map value⟩
  | none =>
    let given ← complete env .top p
    throw (if given.isEmpty then .displayHelpOnMissing else .missingSubcommand)

end NodeRollout.CommandLine
