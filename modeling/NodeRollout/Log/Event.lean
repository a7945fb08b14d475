import NodeRollout.Config
import NodeRollout.Json.Printer
import NodeRollout.Log.Filter
/-!
The events a run of the program writes, each with a level, the part of the program it comes from, a
message and its fields.
-/
namespace NodeRollout.Log

structure Event where
  level : Level
  target : String
  message : String
  fields : List (String × Json.Value) := []

namespace Event

/-- The names of the fields that directives may ask for; the message is one of them. -/
def fieldNames (event : Event) : List String := "message" :: event.fields.map (·.1)

/-- The event as an object, its fields beside level and message. -/
def object (event : Event) : Json.Value :=
  .object ([("level", .string event.level.name), ("message", .string event.message)] ++
    event.fields ++ [("target", .string event.target)])

def readable (event : Event) : String :=
  let fields := event.fields.map fun (name, value) => s!" {name}={value.text}"
  s!"{event.level.name} {event.target}: {event.message}{String.join fields}"

def line (format : CommandLine.LogFormat) (event : Event) : String :=
  match format with
  | .json => event.object.text
  | .pretty => event.readable

def natural (n : Nat) : Json.Value := .number (.natural n)

def loggingInitialized (config : Config) : Event where
  level := .debug
  target := "nodeup::logging"
  message := "Logging initialized"
  fields := [
    ("log_format", .string (match config.logFormat with
      | .json => "Json"
      | .pretty => "Pretty")),
    ("log_level", .string config.logLevel)]

def starting (version : String) (config : Config) : Event where
  level := .info
  target := "nodeup"
  message := "Starting nodeup"
  fields := [("version", .string version), ("command", .string config.run.name)]

def operatorConfigured (config : OperatorConfig) : Event where
  level := .info
  target := "nodeup::config"
  message := "Operator configuration initialized"
  fields := [
    ("poll_interval_seconds", natural config.pollIntervalSeconds),
    ("completion_timeout_seconds", natural config.completionTimeoutSeconds),
    ("default_max_unavailable", natural config.defaultMaxUnavailable),
    ("health_port", natural config.healthPort),
    ("metrics_port", natural config.metricsPort)]

def proxyConfigured (config : ProxyConfig) : Event where
  level := .info
  target := "nodeup::config"
  message := "Proxy configuration initialized"
  fields := [
    ("node", .string config.nodeName),
    ("socket", .string config.socketPath),
    ("rpc_timeout_seconds", natural config.rpcTimeoutSeconds),
    ("health_port", natural config.healthPort)]

def agentConfigured (config : AgentConfig) : Event where
  level := .info
  target := "nodeup::config"
  message := "Agent configuration initialized"
  fields := [
    ("socket", .string config.socketPath),
    ("socket_group_id", natural config.socketGroupId),
    ("stamp_dir", .string config.stampDir),
    ("os_release_path", .string config.osReleasePath)]

def failed (cause : String) : Event where
  level := .error
  target := "nodeup"
  message := "nodeup failed"
  fields := [("error", .string cause)]

end Event

end NodeRollout.Log
