import Dalila.Auth
import Dalila.Cluster
import Dalila.Lib.Monitor

/-!
# `dalila start`

The program of the command over the operations it asks of the system (`StartOp`): `check` before
anything else, the binds, the tasks it spawns, the join, and `shutDown`. `execute` puts them
together.
-/

namespace Dalila

open Program

/-! ## The key -/

/-- Shortest secret taken. -/
def MIN_SECRET_LEN : ℕ := 32

namespace ClusterKey

-- HMAC-SHA256, by its key
variable (hmac : Bytes → ClusterKey)

/-- The key from what `--key` was given. The error never repeats the secret. -/
def fromSecret (secret : String) : Except ℕ ClusterKey :=
  if secret.utf8ByteSize < MIN_SECRET_LEN then .error secret.utf8ByteSize
  else .ok (hmac secret.toByteArray.data.toList)

/-- For a cluster run without `--key`. -/
def none : ClusterKey :=
  hmac []

end ClusterKey

/-! ## What the command is given -/

/-- `cli::StartArgs` -/
structure StartArgs where
  bind : SocketAddr
  advertise : Option SocketAddr
  join : List SocketAddr
  key : Option String
  tags : List String
  proxy : Option SocketAddr
  proxyTo : Option String
  backendPort : Option UInt16
  api : Option SocketAddr

/-- What clap lets through: `--proxy` and `--api` need `--backend-port`, `--proxy-to` needs
`--proxy`. -/
structure StartArgs.Accepted (args : StartArgs) : Prop where
  proxy : args.proxy.isSome → args.backendPort.isSome
  proxyTo : args.proxyTo.isSome → args.proxy.isSome
  api : args.api.isSome → args.backendPort.isSome

/-- `proxy::Config` -/
structure ProxyConfig where
  listen : SocketAddr
  backendPort : UInt16
  tag : Option String

/-- `api::Config` -/
structure ApiConfig where
  listen : SocketAddr
  backendPort : UInt16

/-- `start::Config` -/
structure StartConfig where
  bind : SocketAddr
  advertise : Option SocketAddr
  seeds : List SocketAddr
  key : Option String
  tags : List String
  backendPort : Option UInt16
  proxy : Option ProxyConfig
  api : Option ApiConfig

inductive Listener where
  | cluster
  | proxy
  | api

/-- The loops that `execute` spawns. -/
inductive Service where
  | accept
  | udp
  | health (backendPort : UInt16)
  | proxy (backendPort : UInt16) (tag : Option String)
  | api (backendPort : UInt16)
  | detector
  | sync
deriving DecidableEq

inductive StartOp where
  | bindTcp (listener : Listener) (addr : SocketAddr)
  | localAddr (listener : Listener)
  | bindUdp (addr : SocketAddr)
  /-- `LocalNode::new`, under a random id. -/
  | newNode (key : ClusterKey) (addr : SocketAddr) (tags : List String)
  | spawn (service : Service)
  | join (seeds : List SocketAddr)
  | shutdownSignal
  | leave
  | abort (service : Service)
  | announceLeave

/-- A bind, a join and the wait for a signal may fail. -/
@[reducible] def StartOp.Res : StartOp → Type
  | .bindTcp _ _ => Bool
  | .localAddr _ => Option SocketAddr
  | .bindUdp _ => Bool
  | .newNode _ _ _ => NodeId
  | .spawn _ => Unit
  | .join _ => Bool
  | .shutdownSignal => Bool
  | .leave => Unit
  | .abort _ => Unit
  | .announceLeave => ℕ

abbrev Startup := Program StartOp StartOp.Res

abbrev StartOp.call (o : StartOp) : Startup o.Res := Program.call o

inductive StartError where
  /-- `--advertise` isn't an address peers can connect to. -/
  | advertise (addr : SocketAddr)
  /-- `--bind` listens on every interface. -/
  | bind (addr : SocketAddr)
  | tags (err : TagsError)
  | key (length : ℕ)
  | couldNotBind (addr : SocketAddr)
  | couldNotBindUdp (addr : SocketAddr)
  | couldNotBindProxy (addr : SocketAddr)
  | couldNotBindApi (addr : SocketAddr)
  | localAddr
  /-- None of the seeds accepted the join. -/
  | join (seeds : ℕ)
  | signal

namespace StartConfig

variable (hmac : Bytes → ClusterKey) (cfg : StartConfig)

/-- What is checked before anything is bound. -/
def check : Except StartError ClusterKey :=
  if (cfg.advertise.getD cfg.bind).ip.isUnspecified then
    match cfg.advertise with
    | some advertise => .error (.advertise advertise)
    | none => .error (.bind cfg.bind)
  else
    match checkTags cfg.tags with
    | .error err => .error (.tags err)
    | .ok () =>
      match cfg.key with
      | some secret => (ClusterKey.fromSecret hmac secret).mapError .key
      | none => .ok (.none hmac)

/-- Bind before joining: once the seed has recorded us, it can hand our address to the next node
to join, which must find us listening. -/
def bindCluster : Startup (Except StartError SocketAddr) := do
  if ← StartOp.call (.bindTcp .cluster cfg.bind) then
    match ← StartOp.call (.localAddr .cluster) with
    | some bound => do
      -- same address and port as TCP
      if ← StartOp.call (.bindUdp bound) then pure (.ok bound)
      else pure (.error (.couldNotBindUdp bound))
    | none => pure (.error .localAddr)
  else pure (.error (.couldNotBind cfg.bind))

/-- A listener that may not have been asked for. -/
def bindListener (listener : Listener) (err : SocketAddr → StartError) :
    Option SocketAddr → Startup (Except StartError Unit)
  | some addr => do
    if ← StartOp.call (.bindTcp listener addr) then pure (.ok ())
    else pure (.error (err addr))
  | none => pure (.ok ())

/-- Also before joining: if the port is taken, fail now. -/
def bindOthers : Startup (Except StartError Unit) := do
  match ← bindListener .proxy .couldNotBindProxy (cfg.proxy.map ProxyConfig.listen) with
  | .error err => pure (.error err)
  | .ok () => bindListener .api .couldNotBindApi (cfg.api.map ApiConfig.listen)

/-! The services that may not have been asked for. -/

def healthService : Option Service :=
  cfg.backendPort.map .health

def proxyService : Option Service :=
  cfg.proxy.map fun proxy => .proxy proxy.backendPort proxy.tag

def apiService : Option Service :=
  cfg.api.map fun api => .api api.backendPort

/-- What runs while the node joins. -/
def spawnEarly : Startup Unit := do
  StartOp.call (.spawn .accept)
  StartOp.call (.spawn .udp)
  match cfg.healthService with
  | some health => StartOp.call (.spawn health)
  | none => pure ()

/-- Without seeds there is nothing to join. -/
def joinSeeds : Startup Bool :=
  if cfg.seeds.isEmpty then pure true
  else StartOp.call (.join cfg.seeds)

/-- A service that serves clients says where it listens. -/
def spawnListening (listener : Listener) : Option Service → Startup (Except StartError Unit)
  | some service => do
    match ← StartOp.call (.localAddr listener) with
    | some _ => do
      StartOp.call (.spawn service)
      pure (.ok ())
    | none => pure (.error .localAddr)
  | none => pure (.ok ())

/-- These start after the join, so the first round already has the cluster in it. -/
def spawnLate : Startup (Except StartError Unit) := do
  match ← spawnListening .proxy cfg.proxyService with
  | .error err => pure (.error err)
  | .ok () => do
    match ← spawnListening .api cfg.apiService with
    | .error err => pure (.error err)
    | .ok () => do
      StartOp.call (.spawn .detector)
      StartOp.call (.spawn .sync)
      pure (.ok ())

def abortAll : List Service → Startup Unit
  | [] => pure ()
  | service :: services => do
    StartOp.call (.abort service)
    abortAll services

/-- The order in which the services are told to stop. -/
def goesDown : List Service :=
  [.accept, .udp, .detector, .sync] ++ cfg.proxyService.toList ++ cfg.apiService.toList ++
    cfg.healthService.toList

/-- First of all the node leaves, so nothing still running can refute its death from here on. -/
def shutDown : Startup Unit := do
  StartOp.call .leave
  abortAll cfg.goesDown
  let _ ← StartOp.call .announceLeave
  pure ()

def execute : Startup (Except StartError Unit) :=
  match cfg.check hmac with
  | .error err => pure (.error err)
  | .ok key => do
    match ← cfg.bindCluster with
    | .error err => pure (.error err)
    | .ok bound => do
      match ← cfg.bindOthers with
      | .error err => pure (.error err)
      | .ok () => do
        -- without --advertise, the bound address
        let _ ← StartOp.call (.newNode key (cfg.advertise.getD bound) cfg.tags)
        cfg.spawnEarly
        if ← cfg.joinSeeds then do
          match ← cfg.spawnLate with
          | .error err => pure (.error err)
          | .ok () => do
            if ← StartOp.call .shutdownSignal then do
              cfg.shutDown
              pure (.ok ())
            else pure (.error .signal)
        else pure (.error (.join cfg.seeds.length))

end StartConfig

end Dalila
