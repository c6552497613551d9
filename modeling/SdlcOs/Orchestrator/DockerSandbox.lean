/-
The tier of single-use containers (orchestrator/docker_sandbox.py).

A call makes its container, looks at how it ended, and removes it, each by
an invocation of the `docker` command. `docker rm -f` removes the container
it names once it is started; what it says is not read. Nothing but the
timeout of `docker run` is caught.
-/
import SdlcOs.Orchestrator.Sandbox

namespace SdlcOs.Orchestrator.Sandbox

open Data (Dict)
open Gates (strip)

/-- `DockerContainerSandboxRuntime`. -/
structure DockerContainerSandboxRuntime where
  number : Nat
  image : String := "python:3.11-alpine"
  dockerBin : String := "docker"
  deriving DecidableEq, Repr

namespace DockerContainerSandboxRuntime

variable (rt : DockerContainerSandboxRuntime) (call : Call)

-- ==== the commands

/-- `container_name`. -/
def containerName : String :=
  "sdlc-sandbox-" ++ String.ofList (call.platform.hex.toList.take 12)

/-- `container_env`. -/
def containerEnv : Dict String String :=
  let env := call.env.getD .empty
  match call.proxy "0.0.0.0" with
  | none => env
  | some p =>
    let url := "http://host.docker.internal:" ++ toString p.port
    (env.set "HTTP_PROXY" url).set "HTTPS_PROXY" url

/-- The options for the network. -/
def networkArgs : List String :=
  if call.allowlist = [] then ["--network", "none"]
  else ["--add-host", "host.docker.internal:host-gateway"]

/-- `network_mode`. -/
def networkMode : String :=
  if call.allowlist = [] then "none" else "bridge+allowlist-proxy"

/-- `docker_cmd`. -/
def dockerCmd : List String :=
  [rt.dockerBin, "run", "--name", containerName call, "--init",
    "--cpus", "1",
    "--memory", toString call.resourceLimits.memoryBytes,
    "--memory-swap", toString call.resourceLimits.memoryBytes,
    "--ulimit", "cpu=" ++ toString call.resourceLimits.cpuSeconds,
    "--pids-limit", "256"] ++
  networkArgs call ++
  (containerEnv call).entries.flatMap (fun e => ["-e", e.1 ++ "=" ++ e.2]) ++
  (match call.cwd with
    | none => []
    | some cwd => ["-w", cwd]) ++
  rt.image :: call.command

/-- How `docker run` ends. -/
def runEnded : Ended :=
  call.platform.machine
    ⟨dockerCmd rt call, none, none, none,
      some call.resourceLimits.timeoutSeconds⟩

/-- How another of the commands about the container ends. -/
def commandEnded (args : List String) : Ended :=
  call.platform.machine ⟨rt.dockerBin :: args, none, none, none, none⟩

/-- `docker kill`. -/
def killEnded : Ended := commandEnded rt call ["kill", containerName call]

/-- `docker inspect`. -/
def inspectEnded : Ended :=
  commandEnded rt call
    ["inspect", "--format", "\x7b\x7b.State.OOMKilled\x7d\x7d",
      containerName call]

/-- `docker rm -f`. -/
def rmEnded : Ended := commandEnded rt call ["rm", "-f", containerName call]

-- ==== the steps

/-- What the `try` leaves of the run: its code, its output, and whether it
timed out. -/
structure Run where
  returncode : Option Int
  stdout : String
  stderr : String
  timedOut : Bool

/-- The `try`. -/
def attempt : Except Exn Run :=
  match subprocessRun (runEnded rt call) with
  | .ok proc => .ok ⟨some proc.returncode, proc.stdout, proc.stderr, false⟩
  | .error (.timeoutExpired stdout stderr) =>
    (subprocessRun (killEnded rt call)).map fun _ =>
      ⟨none, stdout.text, stderr.text, true⟩
  | .error exn => .error exn

/-- `_was_resource_limited`. -/
def wasResourceLimited : Option Int → Except Exn Bool
  | none => .ok false
  | some returncode =>
    (subprocessRun (inspectEnded rt call)).map fun inspect =>
      (inspect.returncode = 0 && strip inspect.stdout = "true") ||
        128 ≤ returncode

/-- What is appended of a run. -/
def record (run : Run) : AuditRecord :=
  ⟨SandboxTier.dockerContainer.value, call.command, call.resourceLimits,
    call.allowlist, call.platform.now, run.returncode, run.timedOut,
    some ⟨containerName call, rt.image, networkMode call,
      ((call.served "0.0.0.0").map AllowlistProxy.decisions).getD []⟩⟩

/-- What is returned of a run. -/
def result (run : Run) (resourceLimited : Bool) : ExecutionResult :=
  ⟨run.returncode, call.resourceLimits.clip run.stdout,
    call.resourceLimits.clip run.stderr, run.timedOut, resourceLimited⟩

/-- The container, once `docker run` has ended. -/
def make (h : Host) : Host :=
  if (runEnded rt call).started && call.platform.made then
    { h with containers := containerName call :: h.containers }
  else h

/-- The container, once `docker rm -f` has ended. -/
def remove (h : Host) : Host :=
  if (rmEnded rt call).started then
    { h with containers :=
        h.containers.filter fun name => name ≠ containerName call }
  else h

/-- `DockerContainerSandboxRuntime.execute`. -/
def execute (h : Host) : Except Exn ExecutionResult × Host :=
  let h := make rt call h
  match attempt rt call with
  | .error exn => (.error exn, h.leave (call.served "0.0.0.0"))
  | .ok run =>
    match wasResourceLimited rt call run.returncode with
    | .error exn => (.error exn, h.leave (call.served "0.0.0.0"))
    | .ok resourceLimited =>
      let h := remove rt call h
      match subprocessRun (rmEnded rt call) with
      | .error exn => (.error exn, h.leave (call.served "0.0.0.0"))
      | .ok _ =>
        (.ok (result call run resourceLimited),
          (h.leave (call.stopped "0.0.0.0")).append rt.number
            (record rt call run))

end DockerContainerSandboxRuntime

end SdlcOs.Orchestrator.Sandbox
