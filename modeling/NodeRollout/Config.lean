import NodeRollout.CommandLine.Parse
import NodeRollout.Wait
/-!
The configuration of the program: how it logs, and the settings of its subcommand.
-/
namespace NodeRollout

open CommandLine

/-- The coordinator of a cluster. -/
structure OperatorConfig where
  pollIntervalSeconds : Nat
  completionTimeoutSeconds : Nat
  defaultMaxUnavailable : Nat
  healthPort : Nat
  metricsPort : Nat
  deriving DecidableEq, Inhabited, Repr

/-- The settings of a pass; each is at least one. -/
def OperatorConfig.settings (config : OperatorConfig) : Settings where
  pollInterval := 1000 * max config.pollIntervalSeconds 1
  completionTimeout := 1000 * max config.completionTimeoutSeconds 1
  defaultMaxUnavailable := max config.defaultMaxUnavailable 1

/-- The forwarder of one node. -/
structure ProxyConfig where
  nodeName : String
  socketPath : String
  rpcTimeoutSeconds : Nat
  healthPort : Nat
  deriving DecidableEq, Inhabited, Repr

/-- The agent on a host. -/
structure AgentConfig where
  socketPath : String
  socketGroupId : Nat
  stampDir : String
  osReleasePath : String
  deriving DecidableEq, Inhabited, Repr

/-- What the program runs as. -/
inductive RunConfig where
  | operator (config : OperatorConfig)
  | proxy (config : ProxyConfig)
  | agent (config : AgentConfig)
  | crd
  deriving DecidableEq, Inhabited, Repr

def RunConfig.name : RunConfig → String
  | .operator _ => Subcommand.operator.name
  | .proxy _ => Subcommand.proxy.name
  | .agent _ => Subcommand.agent.name
  | .crd => Subcommand.crd.name

structure Config where
  logFormat : LogFormat
  logLevel : String
  run : RunConfig
  deriving DecidableEq, Inhabited, Repr

namespace Config

def ofParsed (parsed : Parsed) : Except CommandLine.Fault Config := do
  let value (name : String) := (parsed.values.lookup name).getD ""
  let run ← match parsed.subcommand with
    | .operator => do
      pure <| .operator {
        pollIntervalSeconds := ← readUnsigned (value "poll-interval-seconds")
        completionTimeoutSeconds := ← readUnsigned (value "completion-timeout-seconds")
        defaultMaxUnavailable := ← readUnsigned (value "default-max-unavailable")
        healthPort := ← readPort (value "health-port")
        metricsPort := ← readPort (value "metrics-port") }
    | .proxy => do
      pure <| .proxy {
        nodeName := value "node-name"
        socketPath := ← readPath (value "socket-path")
        rpcTimeoutSeconds := ← readUnsigned (value "rpc-timeout-seconds")
        healthPort := ← readPort (value "health-port") }
    | .agent => do
      pure <| .agent {
        socketPath := ← readPath (value "socket-path")
        socketGroupId := ← readGroup (value "socket-group-id")
        stampDir := ← readPath (value "stamp-dir")
        osReleasePath := ← readPath (value "os-release-path") }
    | .crd => pure .crd
  return ⟨← readLogFormat (value "log-format"), value "log-level", run⟩

/-- The configuration that a command line and the environment give. -/
def ofCommandLine (env : Environment) (words : List String) : Except CommandLine.Fault Config := do
  ofParsed (← parse env words)

end Config

end NodeRollout
