/-
The sandbox tiers (orchestrator/sandbox.py), and the proxy their commands
are pointed at.

# Processes

What becomes of a process is the platform's. An invocation of
`subprocess.run` does not start, raises once it has, takes longer than it
was given, or ends with a code and the bytes that were written. The bytes
are read as text, which is UTF-8 and raises for others.

# The proxy

The thread of `_serve` waits in `accept` for 0.2 s at most before it looks
at the flag again, and `stop` waits two seconds for it. So a `stop` sees
the `accept` the thread is in end, and then the thread. Each connection
has a thread of `_handle` of its own, which nobody waits for: it reads the
request, for three seconds a time, decides, answers, and closes the
connection. When it does is the platform's, as is what it is asked for.

# The host

One call runs at a time. What a call leaves behind on the host is kept:
the containers it made and did not remove, its proxy as it left it, and
what it appended to the audit log of its runtime.
-/
import SdlcOs.Index.Queries

namespace SdlcOs.Orchestrator.Sandbox

open Data (Dict)
open Index (slice)

-- ==== processes

/-- What a `TimeoutExpired` has of a stream. -/
inductive Captured : Type where
  | none
  | bytes (b : ByteArray)
  | str (s : String)

/-- `(exc.stdout or "") if isinstance(exc.stdout, str) else ""`. -/
def Captured.text : Captured → String
  | .none => ""
  | .bytes _ => ""
  | .str s => s

/-- How an invocation of `subprocess.run` ends. -/
inductive Ended : Type where
  | notStarted
  | raised
  | timedOut (stdout stderr : Captured)
  | exited (returncode : Int) (stdout stderr : ByteArray)

/-- There was a process. -/
def Ended.started : Ended → Bool
  | .notStarted => false
  | .raised => true
  | .timedOut _ _ => true
  | .exited _ _ _ => true

/-- What `subprocess.run` raises. -/
inductive Exn : Type where
  | timeoutExpired (stdout stderr : Captured)
  | unicodeDecodeError
  | other

/-- `CompletedProcess`. -/
structure CompletedProcess where
  returncode : Int
  stdout : String
  stderr : String

/-- The line ends of a text stream. -/
def translateNewlines : List Char → List Char
  | [] => []
  | '\r' :: '\n' :: cs => '\n' :: translateNewlines cs
  | '\r' :: cs => '\n' :: translateNewlines cs
  | c :: cs => c :: translateNewlines cs

/-- What a stream's bytes are read as. -/
def decode (bytes : ByteArray) : Option String :=
  (String.fromUTF8? bytes).map fun s => .ofList (translateNewlines s.toList)

/-- `subprocess.run(.., capture_output=True, text=True)`. -/
def subprocessRun : Ended → Except Exn CompletedProcess
  | .notStarted => .error .other
  | .raised => .error .other
  | .timedOut stdout stderr => .error (.timeoutExpired stdout stderr)
  | .exited returncode stdout stderr =>
    match decode stdout, decode stderr with
    | some stdout, some stderr => .ok ⟨returncode, stdout, stderr⟩
    | _, _ => .error .unicodeDecodeError

/-- What `subprocess.run` is called with. -/
structure Invocation where
  args : List String
  cwd : Option String
  env : Option (Dict String String)
  /-- What `preexec_fn` sets of CPU seconds and of bytes of memory. -/
  rlimits : Option (Int × Int)
  timeout : Option ℚ

-- ==== limits

/-- `SandboxTier`. -/
inductive SandboxTier : Type where
  | microVM
  | gVisor
  | container
  | dockerContainer
  deriving DecidableEq, Repr

/-- `SandboxTier.value`. -/
def SandboxTier.value : SandboxTier → String
  | .microVM => "microvm"
  | .gVisor => "gvisor"
  | .container => "container"
  | .dockerContainer => "docker_ephemeral_container"

/-- `ResourceLimits`. -/
structure ResourceLimits where
  cpuSeconds : Int := 5
  memoryBytes : Int := 256 * 1024 * 1024
  maxOutputBytes : Int := 1024 * 1024
  timeoutSeconds : ℚ := 10

/-- `text[:limits.max_output_bytes]`. -/
def ResourceLimits.clip (limits : ResourceLimits) (text : String) : String :=
  .ofList (slice text.toList 0 limits.maxOutputBytes)

/-- `ExecutionResult`. -/
structure ExecutionResult where
  returncode : Option Int
  stdout : String
  stderr : String
  timedOut : Bool
  resourceLimited : Bool

/-- What a `DockerAuditRecord` has besides. -/
structure ContainerFields where
  containerName : String
  image : String
  networkMode : String
  egressDecisions : List (String × Bool)
  deriving DecidableEq, Repr

/-- `AuditRecord`. -/
structure AuditRecord where
  tier : String
  command : List String
  resourceLimits : ResourceLimits
  egressAllowlist : List String
  startedAt : String
  returncode : Option Int
  timedOut : Bool
  docker : Option ContainerFields

-- ==== the proxy

/-- How `accept` ends: with its timeout, with an `OSError`, or with a
connection, for which a thread of `_handle` is started. -/
inductive Accept : Type where
  | timeout
  | osError
  | connection (conn : Nat)
  deriving DecidableEq, Repr

/-- What a thread of `_handle` does: it decides about the host that it is
asked for, or it ends, and its connection is closed. -/
inductive Handling : Type where
  | asked (conn : Nat) (host : String)
  | closed (conn : Nat)
  deriving DecidableEq, Repr

/-- What happens at a proxy next, in one of its threads. -/
inductive Event : Type where
  | accept (a : Accept)
  | handle (t : Handling)
  deriving DecidableEq, Repr

/-- `AllowlistProxy`: `serving` while its thread is in `_serve`, and
`handling` the connections whose threads are in `_handle`. -/
structure AllowlistProxy where
  allowedHosts : List String
  host : String
  port : Nat
  listening : Bool
  stopSet : Bool
  serving : Bool
  handling : List Nat
  decisions : List (String × Bool)
  deriving DecidableEq, Repr

namespace AllowlistProxy

/-- `AllowlistProxy(..)`, and `start`. -/
def start (allowedHosts : List String) (host : String) (port : Nat) :
    AllowlistProxy :=
  ⟨allowedHosts, host, port, true, false, true, [], []⟩

/-- `url`. -/
def url (p : AllowlistProxy) : String :=
  "http://" ++ p.host ++ ":" ++ toString p.port

/-- `accept` ended. -/
def accepted (p : AllowlistProxy) : Accept → AllowlistProxy
  | .timeout => p
  | .osError => { p with serving := false }
  | .connection conn => { p with handling := p.handling ++ [conn] }

/-- `while not self._stop.is_set()`. -/
def check (p : AllowlistProxy) : AllowlistProxy :=
  { p with serving := p.serving && !p.stopSet }

/-- One pass of the loop of `_serve`, from `accept` to the next check. -/
def pass (p : AllowlistProxy) (a : Accept) : AllowlistProxy :=
  if p.serving then (p.accepted a).check else p

/-- `_handle`, from one of these to the next. -/
def handle (p : AllowlistProxy) : Handling → AllowlistProxy
  | .asked conn host =>
    if conn ∈ p.handling then
      { p with decisions :=
          p.decisions ++ [(host, decide (host ∈ p.allowedHosts))] }
    else p
  | .closed conn =>
    { p with handling := p.handling.filter fun c => c ≠ conn }

/-- One of the threads goes on. -/
def event (p : AllowlistProxy) : Event → AllowlistProxy
  | .accept a => p.pass a
  | .handle t => p.handle t

/-- The threads, as far as they have got. -/
def serve (p : AllowlistProxy) (events : List Event) : AllowlistProxy :=
  events.foldl event p

/-- `stop`, with what the `accept` that the thread is in ends with, and what
the others do until the call is over. -/
def stop (p : AllowlistProxy) (pending : Accept) (rest : List Handling) :
    AllowlistProxy :=
  { rest.foldl handle
      (AllowlistProxy.pass { p with stopSet := true } pending) with
    listening := false }

end AllowlistProxy

-- ==== calls

/-- What a call of `execute` finds outside. -/
structure Platform where
  /-- How an invocation ends. -/
  machine : Invocation → Ended
  /-- `os.environ`. -/
  environ : Dict String String
  /-- `datetime.now(timezone.utc).isoformat()`. -/
  now : String
  /-- The port the proxy is given. -/
  port : Nat
  /-- What happens at the proxy until it is stopped or left, how the last
  `accept` ends, and what its connections do then. -/
  events : List Event
  pending : Accept
  rest : List Handling
  /-- `uuid.uuid4().hex`. -/
  hex : String
  /-- The daemon makes the container it is asked for. -/
  made : Bool

/-- A call of `execute`. -/
structure Call where
  command : List String
  resourceLimits : ResourceLimits
  egressAllowlist : Option (List String)
  cwd : Option String
  env : Option (Dict String String)
  platform : Platform

/-- `egress_allowlist or []`. -/
def Call.allowlist (call : Call) : List String := call.egressAllowlist.getD []

/-- The proxy of a call, started. -/
def Call.proxy (call : Call) (host : String) : Option AllowlistProxy :=
  if call.allowlist = [] then none
  else some (.start call.allowlist host call.platform.port)

/-- The proxy while the call goes on. -/
def Call.served (call : Call) (host : String) : Option AllowlistProxy :=
  (call.proxy host).map fun p => p.serve call.platform.events

/-- `if proxy is not None: proxy.stop()`. -/
def Call.stopped (call : Call) (host : String) : Option AllowlistProxy :=
  (call.served host).map fun p =>
    p.stop call.platform.pending call.platform.rest

/-- What the calls have left behind; a runtime's audit log is found by the
number of the runtime. -/
structure Host where
  containers : List String
  proxies : List AllowlistProxy
  auditLogs : Nat → List AuditRecord

namespace Host

/-- Before the first call. -/
def fresh : Host := ⟨[], [], fun _ => []⟩

/-- A call is left, and its proxy as it is. -/
def leave (h : Host) (proxy : Option AllowlistProxy) : Host :=
  { h with proxies := h.proxies ++ proxy.toList }

/-- `self.audit_log.append(record)`. -/
def append (h : Host) (runtime : Nat) (record : AuditRecord) : Host :=
  { h with auditLogs := fun n =>
      if n = runtime then h.auditLogs n ++ [record] else h.auditLogs n }

end Host

-- ==== execute

/-- A runtime: its number, and its tier. -/
structure SandboxRuntime where
  number : Nat
  tier : SandboxTier
  deriving DecidableEq, Repr

/-- `SubprocessSandboxRuntime()`. -/
def subprocessSandboxRuntime (number : Nat) : SandboxRuntime :=
  ⟨number, .container⟩

namespace SandboxRuntime

/-- `dict(env or os.environ)`. -/
def ownEnv (call : Call) : Dict String String :=
  match call.env with
  | none => call.platform.environ
  | some env => if env.entries = [] then call.platform.environ else env

/-- `run_env`. -/
def runEnv (call : Call) : Dict String String :=
  match call.proxy "127.0.0.1" with
  | none => ownEnv call
  | some p => ((ownEnv call).set "HTTP_PROXY" p.url).set "HTTPS_PROXY" p.url

/-- The invocation of a call. -/
def invocation (call : Call) : Invocation where
  args := call.command
  cwd := call.cwd
  env := some (runEnv call)
  rlimits :=
    some (call.resourceLimits.cpuSeconds, call.resourceLimits.memoryBytes)
  timeout := some call.resourceLimits.timeoutSeconds

/-- The `try`, without its `finally`. -/
def attempt (limits : ResourceLimits) (ended : Ended) :
    Except Exn ExecutionResult :=
  match subprocessRun ended with
  | .ok proc =>
    .ok ⟨some proc.returncode, limits.clip proc.stdout,
      limits.clip proc.stderr, false, proc.returncode < 0⟩
  | .error (.timeoutExpired stdout stderr) =>
    .ok ⟨none, limits.clip stdout.text, limits.clip stderr.text, true,
      false⟩
  | .error exn => .error exn

/-- What is appended of a result. -/
def record (rt : SandboxRuntime) (call : Call) (r : ExecutionResult) :
    AuditRecord :=
  ⟨rt.tier.value, call.command, call.resourceLimits, call.allowlist,
    call.platform.now, r.returncode, r.timedOut, none⟩

/-- `SandboxRuntime.execute`. -/
def execute (rt : SandboxRuntime) (call : Call) (h : Host) :
    Except Exn ExecutionResult × Host :=
  let ended := call.platform.machine (invocation call)
  let h := h.leave (call.stopped "127.0.0.1")
  match attempt call.resourceLimits ended with
  | .error exn => (.error exn, h)
  | .ok r => (.ok r, h.append rt.number (rt.record call r))

end SandboxRuntime

end SdlcOs.Orchestrator.Sandbox
