import NodeRollout.Agent.Socket
import NodeRollout.Log.Event
import NodeRollout.Manifest
/-!
A run of the program from its command line to its exit code: the short runs that only print something,
and the services, which run until a signal stops them.
-/
namespace NodeRollout

/-- What a run tells its user, apart from its log. -/
inductive Complaint where
  | commandLine (fault : CommandLine.Fault)
  | leftOut (directive : String)
  | tornFilter

/-- What a run asks of the world. -/
inductive ServiceCall where
  | print (text : String)
  | complain (complaint : Complaint)
  | record (format : CommandLine.LogFormat) (event : Log.Event)
  | connect
  /-- Answer requests over the network at a port; health and metrics are both read this way. -/
  | listen (port : Nat)
  | control
  | files (call : SocketCall)
  /-- Answer connections at the socket until a signal comes. -/
  | answer (config : AgentConfig)

def ServiceCall.Answer : ServiceCall → Type
  | .print _ | .complain _ | .record .. | .control | .answer _ => Unit
  | .connect => Except String Unit
  | .listen _ | .files _ => Except IoCause Unit

def ServiceWorld : Interface := ⟨ServiceCall, ServiceCall.Answer⟩

/-- How a service writes its log. -/
structure Logger where
  format : CommandLine.LogFormat
  filter : Log.Filter

def Logger.record (logger : Logger) (event : Log.Event) : Program ServiceWorld Unit :=
  if logger.filter.allows event.target event.fieldNames event.level then
    Program.call (I := ServiceWorld) (.record logger.format event)
  else return

namespace Service

def version : String := "0.1.0"

def versionLine : String := s!"nodeup {version}\n"

def info (target message : String) (fields : List (String × Json.Value) := []) : Log.Event :=
  ⟨.info, target, message, fields⟩

/-- A server of a control loop. -/
structure Server where
  name : String
  target : String

def health : Server := ⟨"Health", "nodeup::health"⟩

def metrics : Server := ⟨"Metrics", "nodeup::metrics"⟩

/-- Opens the port of a server; a port that cannot be opened is reported, and the rest goes on. -/
def openServer (logger : Logger) (server : Server) (owner : String) (port : Nat) :
    Program ServiceWorld Unit := do
  match ← Program.call (I := ServiceWorld) (.listen port) with
  | .ok () =>
    logger.record (info server.target s!"{server.name} server listening"
      [("port", Log.Event.natural port)])
  | .error cause =>
    logger.record ⟨.error, owner, s!"{server.name} server failed",
      [("error", .string cause.message)]⟩

/-- The operator from its connection to the signal; it may fail before it is ready. -/
def operator (logger : Logger) (config : OperatorConfig) :
    Program ServiceWorld (Except String Unit) := do
  logger.record (.operatorConfigured config)
  match ← Program.call (I := ServiceWorld) .connect with
  | .error cause => return .error cause
  | .ok () =>
    let target := "nodeup::controller::operator"
    logger.record (info target "Connected to Kubernetes API server")
    openServer logger health target config.healthPort
    openServer logger metrics target config.metricsPort
    logger.record (info health.target "Marked as ready")
    logger.record (info target "Starting Upgrade controller")
    Program.call (I := ServiceWorld) .control
    logger.record (info target "Operator stopped")
    return .ok ()

/-- The proxy from its connection to the signal; it may fail before it is ready. -/
def proxy (logger : Logger) (config : ProxyConfig) :
    Program ServiceWorld (Except String Unit) := do
  logger.record (.proxyConfigured config)
  match ← Program.call (I := ServiceWorld) .connect with
  | .error cause => return .error cause
  | .ok () =>
    let target := "nodeup::controller::proxy"
    logger.record (info target "Connected to Kubernetes API server")
    openServer logger health target config.healthPort
    logger.record (info health.target "Marked as ready")
    logger.record (info target "Starting node controller" [("node", .string config.nodeName)])
    Program.call (I := ServiceWorld) .control
    logger.record (info target "Proxy stopped")
    return .ok ()

def onFiles {α : Type} : Program SocketFiles α → Program ServiceWorld α
  | .done result => .done result
  | .ask call next => .ask (.files call) fun answer => onFiles (next answer)

/-- The agent from its socket to the signal; it may fail to bind the socket. -/
def agent (logger : Logger) (config : AgentConfig) :
    Program ServiceWorld (Except String Unit) := do
  logger.record (.agentConfigured config)
  match ← onFiles (Socket.bind config.socketPath (some config.socketGroupId)).run with
  | .error failure => return .error failure.message
  | .ok () =>
    logger.record (info "nodeup::rpc::server" "Agent socket bound"
      [("socket", .string config.socketPath), ("mode", .string "660")])
    Program.call (I := ServiceWorld) (.answer config)
    logger.record (info "nodeup" "Received SIGINT/SIGTERM, shutting down")
    match ← Program.call (I := ServiceWorld) (.files (.removeFile config.socketPath)) with
    | .ok () => return .ok ()
    | .error cause =>
      logger.record ⟨.warn, "nodeup", "Failed to remove agent socket",
        [("socket", .string config.socketPath), ("error", .string cause.message)]⟩
      return .ok ()

def tornFilterCode : Nat := 101

/-- A service with this configuration and its log, to its exit code. -/
def serve (config : Config) (logger : Logger)
    (service : Program ServiceWorld (Except String Unit)) : Program ServiceWorld Nat := do
  logger.record (.loggingInitialized config)
  logger.record (.starting version config)
  match ← service with
  | .ok () => return 0
  | .error cause =>
    logger.record (.failed cause)
    return 1

/-- Opens the log of a service before the service starts, and tells which directives are left out of
its filter. -/
def withLog (environment : Option String) (config : Config)
    (service : Logger → Program ServiceWorld (Except String Unit)) : Program ServiceWorld Nat :=
  match Log.Filter.choose environment config.logLevel with
  | some (filter, leftOut) => do
    leftOut.forM fun directive => Program.call (I := ServiceWorld) (.complain (.leftOut directive))
    let logger : Logger := ⟨config.logFormat, filter⟩
    serve config logger (service logger)
  | none => do
    Program.call (I := ServiceWorld) (.complain .tornFilter)
    return tornFilterCode

/-- The run that a configuration asks for. A manifest is printed without any log around it. -/
def ofConfig (environment : Option String) (config : Config) : Program ServiceWorld Nat :=
  match config.run with
  | .crd => do
    Program.call (I := ServiceWorld) (.print Manifest.text)
    return 0
  | .operator run => withLog environment config (operator · run)
  | .proxy run => withLog environment config (proxy · run)
  | .agent run => withLog environment config (agent · run)

def run (env : CommandLine.Environment) (words : List String) : Program ServiceWorld Nat :=
  match Config.ofCommandLine env words with
  | .ok config => ofConfig (env "RUST_LOG") config
  | .error .displayVersion => do
    Program.call (I := ServiceWorld) (.print versionLine)
    return 0
  | .error fault => do
    Program.call (I := ServiceWorld) (.complain (.commandLine fault))
    return fault.exitCode

end Service

end NodeRollout
