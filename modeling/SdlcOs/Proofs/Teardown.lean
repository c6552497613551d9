/-
What a sandbox leaves behind.

# What is promised

After each call the containers that were made are gone, no proxy is in its
loop or at one of its connections, each command that was started has one
record in the audit log of its runtime, and what was returned of its output
encodes to no more bytes than were allowed (`TornDown`).

# Where it is kept

The proxy of a subprocess is stopped by a `finally`, but its record is
appended after that: an exception that is not the timeout, as that for
output which is not text, leaves a command without one. In a container's
call nothing is in a `finally`: the same exception, or one of `docker kill`,
`docker inspect` or `docker rm`, leaves the proxy too, and all but the last
leave the container. A proxy that is stopped is out of its loop, but its
connections have threads of their own, which a call waits for as little as
`stop` does. The output is cut off by its characters, so it is no longer
than allowed if it was not to begin with, or if it is ASCII up to there.
`Contained` says all this of a call, and is exact
(`torn_down_iff_contained`).
-/
import SdlcOs.Data.Weights
import SdlcOs.Orchestrator.DockerSandbox

namespace SdlcOs.Orchestrator.Sandbox

open Data (weight weight_take_le_iff utf8ByteSize_eq_weight)
open Index (slice sliceBound)

-- ==== outputs

/-- What a runtime has of the output of a command that has ended. -/
def Ended.outputs : Ended → Option (String × String)
  | .notStarted => none
  | .raised => none
  | .timedOut stdout stderr => some (stdout.text, stderr.text)
  | .exited _ stdout stderr =>
    (decode stdout).bind fun stdout =>
      (decode stderr).map fun stderr => (stdout, stderr)

/-- A command that ends, and whose output is text. -/
def Ended.Returns : Ended → Prop
  | .notStarted => False
  | .raised => False
  | .timedOut _ _ => False
  | .exited _ stdout stderr =>
    (decode stdout).isSome = true ∧ (decode stderr).isSome = true

theorem returns_iff {e : Ended} :
    e.Returns ↔ ∃ proc, subprocessRun e = .ok proc := by
  constructor
  · intro h
    cases e with
    | notStarted => exact h.elim
    | raised => exact h.elim
    | timedOut stdout stderr => exact h.elim
    | exited returncode stdout stderr =>
      obtain ⟨out, hout⟩ := Option.isSome_iff_exists.1 h.1
      obtain ⟨err, herr⟩ := Option.isSome_iff_exists.1 h.2
      rw [subprocessRun, hout, herr]
      exact ⟨_, rfl⟩
  · intro h
    obtain ⟨proc, hproc⟩ := h
    cases e with
    | notStarted => cases hproc
    | raised => cases hproc
    | timedOut stdout stderr => cases hproc
    | exited returncode stdout stderr =>
      rw [subprocessRun] at hproc
      rw [Ended.Returns]
      cases hout : decode stdout with
      | none =>
        rw [hout] at hproc
        cases hproc
      | some out =>
        cases herr : decode stderr with
        | none =>
          rw [hout, herr] at hproc
          cases hproc
        | some err => exact ⟨rfl, rfl⟩

theorem started_of_outputs {e : Ended} {out : String × String}
    (h : e.outputs = some out) : e.started = true := by
  cases e with
  | notStarted => cases h
  | raised => rfl
  | timedOut stdout stderr => rfl
  | exited returncode stdout stderr => rfl

-- ==== clipped

/-- A text that is no longer than allowed once it is cut off: it is none
too long, or ASCII as far as it is kept. -/
def Fits (limits : ResourceLimits) (text : String) : Prop :=
  0 ≤ limits.maxOutputBytes ∧
    ((text.utf8ByteSize : Int) ≤ limits.maxOutputBytes ∨
      ∀ c ∈ text.toList.take limits.maxOutputBytes.toNat, c.val ≤ 127)

theorem slice_zero {α : Type} (l : List α) {n : Int} (h : 0 ≤ n) :
    slice l 0 n = l.take n.toNat := by
  unfold slice
  have hzero : sliceBound l.length 0 = 0 := by
    rw [sliceBound, if_neg (by omega)]
    exact Nat.zero_min _
  rw [hzero, List.drop_zero, sliceBound, if_neg (by omega)]
  exact (List.take_eq_take_min ..).symm

theorem clip_le_iff {limits : ResourceLimits} {text : String} :
    ((limits.clip text).utf8ByteSize : Int) ≤ limits.maxOutputBytes ↔
      Fits limits text := by
  by_cases hn : 0 ≤ limits.maxOutputBytes
  · obtain ⟨n, hmax⟩ := Int.eq_ofNat_of_zero_le hn
    have htext : text.utf8ByteSize = weight Char.utf8Size text.toList := by
      rw [← utf8ByteSize_eq_weight, String.ofList_toList]
    unfold Fits ResourceLimits.clip
    rw [slice_zero _ hn, utf8ByteSize_eq_weight, htext, hmax,
      Int.toNat_natCast, Int.ofNat_le, Int.ofNat_le,
      weight_take_le_iff Char.utf8Size_pos]
    simp only [Char.utf8Size_eq_one_iff, Int.natCast_nonneg, true_and]
  · refine ⟨fun h => absurd (Int.le_trans (Int.natCast_nonneg _) h) hn, ?_⟩
    exact fun h => absurd h.1 hn

-- ==== the proxy

namespace AllowlistProxy

variable {p : AllowlistProxy}

/-- What `accept` ends with does not touch the flag, and only an `OSError`
ends the loop. -/
theorem accepted_eq (p : AllowlistProxy) (a : Accept) :
    (p.accepted a).stopSet = p.stopSet ∧
      (p.accepted a).serving = (p.serving && decide (a ≠ .osError)) := by
  cases a with
  | timeout => exact ⟨rfl, (Bool.and_true _).symm⟩
  | osError => exact ⟨rfl, (Bool.and_false _).symm⟩
  | connection conn => exact ⟨rfl, (Bool.and_true _).symm⟩

theorem pass_eq (p : AllowlistProxy) (a : Accept) :
    (p.pass a).stopSet = p.stopSet ∧
      (p.pass a).serving =
        (p.serving && decide (a ≠ .osError) && !(p.serving && p.stopSet)) := by
  obtain ⟨hstop, hserving⟩ := p.accepted_eq a
  unfold pass
  cases h : p.serving with
  | false => exact ⟨rfl, h⟩
  | true =>
    refine ⟨hstop, ?_⟩
    show ((p.accepted a).serving && !(p.accepted a).stopSet) = _
    rw [hstop, hserving, h, Bool.true_and, Bool.true_and]

theorem asked_eq (p : AllowlistProxy) (conn : Nat) (host : String) :
    ∃ decisions, p.handle (.asked conn host) =
      { p with decisions := decisions } := by
  by_cases h : conn ∈ p.handling
  · exact ⟨_, if_pos h⟩
  · exact ⟨_, if_neg h⟩

theorem handle_eq (p : AllowlistProxy) (t : Handling) :
    (p.handle t).stopSet = p.stopSet ∧
      (p.handle t).serving = p.serving := by
  cases t with
  | asked conn host =>
    obtain ⟨decisions, hasked⟩ := p.asked_eq conn host
    rw [hasked]
    exact ⟨rfl, rfl⟩
  | closed conn => exact ⟨rfl, rfl⟩

theorem handles_serving (p : AllowlistProxy) (ts : List Handling) :
    (ts.foldl handle p).serving = p.serving := by
  induction ts generalizing p with
  | nil => rfl
  | cons t ts ih => exact (ih _).trans (handle_eq p t).2

theorem stop_serving (a : Accept) (rest : List Handling) :
    (p.stop a rest).serving = false := by
  show (rest.foldl handle _).serving = false
  rw [handles_serving, (pass_eq _ a).2]
  show (p.serving && decide (a ≠ .osError) && !(p.serving && true)) = false
  cases p.serving <;> simp

theorem event_stopSet (p : AllowlistProxy) (e : Event) :
    (p.event e).stopSet = p.stopSet := by
  cases e with
  | accept a => exact (p.pass_eq a).1
  | handle t => exact (p.handle_eq t).1

theorem event_serving (h : p.stopSet = false) (e : Event) :
    (p.event e).serving = (p.serving && decide (e ≠ .accept .osError)) := by
  cases e with
  | accept a =>
    show (p.pass a).serving = _
    rw [(p.pass_eq a).2, h]
    simp
  | handle t =>
    show (p.handle t).serving = _
    rw [(p.handle_eq t).2]
    simp

theorem serve_serving (h : p.stopSet = false) (events : List Event) :
    (p.serve events).serving =
      (p.serving && decide (Event.accept .osError ∉ events)) := by
  unfold serve
  induction events generalizing p with
  | nil => simp
  | cons e events ih =>
    rw [List.foldl_cons, ih ((p.event_stopSet e).trans h),
      event_serving h, Bool.and_assoc, ← Bool.decide_and]
    simp only [List.mem_cons, not_or, ne_eq, eq_comm]

end AllowlistProxy

-- ==== the connections

/-- One of these accepts the connection, the loop being still there, and
none after that closes it. -/
def Open (events : List Event) (conn : Nat) : Prop :=
  ∃ before after, events = before ++ .accept (.connection conn) :: after ∧
    .accept .osError ∉ before ∧ .handle (.closed conn) ∉ after

theorem open_cons {e : Event} {events : List Event} {conn : Nat} :
    Open (e :: events) conn ↔
      (e = .accept (.connection conn) ∧ .handle (.closed conn) ∉ events) ∨
        (e ≠ .accept .osError ∧ Open events conn) := by
  constructor
  · rintro ⟨before, after, hsplit, hloop, hclosed⟩
    cases before with
    | nil =>
      cases hsplit
      exact Or.inl ⟨rfl, hclosed⟩
    | cons e' before =>
      cases hsplit
      rw [List.mem_cons, not_or] at hloop
      exact Or.inr ⟨Ne.symm hloop.1, before, after, rfl, hloop.2, hclosed⟩
  · rintro (⟨rfl, hclosed⟩ | ⟨he, before, after, rfl, hloop, hclosed⟩)
    · exact ⟨[], events, rfl, List.not_mem_nil, hclosed⟩
    · refine ⟨e :: before, after, rfl, ?_, hclosed⟩
      rw [List.mem_cons, not_or]
      exact ⟨Ne.symm he, hloop⟩

/-- Each connection that the loop accepts is closed later on. -/
def AllClosed (events : List Event) : Prop :=
  ∀ before conn after,
    events = before ++ .accept (.connection conn) :: after →
    .accept .osError ∉ before → .handle (.closed conn) ∈ after

theorem allClosed_iff {events : List Event} :
    AllClosed events ↔ ∀ conn, ¬ Open events conn := by
  constructor
  · rintro h conn ⟨before, after, hsplit, hloop, hclosed⟩
    exact hclosed (h before conn after hsplit hloop)
  · intro h before conn after hsplit hloop
    by_contra hclosed
    exact h conn ⟨before, after, hsplit, hloop, hclosed⟩

namespace AllowlistProxy

variable {p : AllowlistProxy}

theorem mem_event (e : Event) (conn : Nat) :
    conn ∈ (p.event e).handling ↔
      (conn ∈ p.handling ∧ e ≠ .handle (.closed conn)) ∨
        (p.serving = true ∧ e = .accept (.connection conn)) := by
  cases e with
  | accept a =>
    show conn ∈ (p.pass a).handling ↔ _
    unfold pass
    by_cases hserving : p.serving = true
    · rw [if_pos hserving]
      cases a <;> simp [accepted, check, hserving, eq_comm]
    · rw [if_neg hserving]
      simp [hserving]
  | handle t =>
    cases t with
    | asked c host =>
      obtain ⟨decisions, hasked⟩ := p.asked_eq c host
      show conn ∈ (p.handle (.asked c host)).handling ↔ _
      rw [hasked]
      simp
    | closed c =>
      show conn ∈ p.handling.filter _ ↔ _
      simp only [List.mem_filter, ne_eq, decide_eq_true_eq,
        Event.handle.injEq, Handling.closed.injEq, reduceCtorEq,
        and_false, or_false]
      rw [eq_comm]

/-- The connections at work are those that were and are not closed, and
those that were accepted and are open. -/
theorem mem_handling (h : p.stopSet = false) (events : List Event)
    (conn : Nat) :
    conn ∈ (p.serve events).handling ↔
      (conn ∈ p.handling ∧ .handle (.closed conn) ∉ events) ∨
        (p.serving = true ∧ Open events conn) := by
  unfold serve
  induction events generalizing p with
  | nil =>
    have hnone : ¬ Open [] conn := by
      rintro ⟨before, after, hsplit, -⟩
      cases before <;> cases hsplit
    simp [hnone]
  | cons e events ih =>
    rw [List.foldl_cons, ih ((p.event_stopSet e).trans h), mem_event,
      event_serving h, open_cons, List.mem_cons, not_or]
    simp only [Bool.and_eq_true, decide_eq_true_eq]
    -- An event that accepts the connection does not close it.
    have hne : e = .accept (.connection conn) →
        e ≠ .handle (.closed conn) := by
      rintro rfl
      nofun
    tauto

theorem handling_eq_nil (hstop : p.stopSet = false)
    (hserving : p.serving = true) (hnone : p.handling = [])
    (events : List Event) :
    (p.serve events).handling = [] ↔ AllClosed events := by
  rw [allClosed_iff, List.eq_nil_iff_forall_not_mem]
  refine forall_congr' fun conn => not_congr ?_
  rw [mem_handling hstop, hnone, hserving]
  simp

theorem handles_handling {q : AllowlistProxy} (h : p.handling = q.handling)
    (ts : List Handling) :
    (ts.foldl handle p).handling = (ts.foldl handle q).handling := by
  induction ts generalizing p q with
  | nil => exact h
  | cons t ts ih =>
    refine ih ?_
    cases t with
    | asked conn host =>
      obtain ⟨decisions, hp⟩ := p.asked_eq conn host
      obtain ⟨decisions', hq⟩ := q.asked_eq conn host
      rw [hp, hq]
      exact h
    | closed conn => exact congrArg (List.filter fun c => c ≠ conn) h

/-- The connections of a proxy that is stopped are those it would have had
anyway: the flag keeps the loop from accepting more of them only. -/
theorem stop_handling (a : Accept) (rest : List Handling) :
    (p.stop a rest).handling =
      (p.serve (.accept a :: rest.map .handle)).handling := by
  have hpass : (AllowlistProxy.pass { p with stopSet := true } a).handling =
      (p.pass a).handling := by
    unfold pass
    cases p.serving with
    | false => rfl
    | true => cases a <;> rfl
  show (rest.foldl handle _).handling = _
  rw [handles_handling hpass, serve, List.foldl_cons, List.foldl_map]
  rfl

end AllowlistProxy

/-- No proxy of these is in its loop, or at one of its connections. -/
def Quiet (proxies : List AllowlistProxy) : Prop :=
  ∀ p ∈ proxies, p.serving = false ∧ p.handling = []

theorem quiet_append {ps qs : List AllowlistProxy} :
    Quiet (ps ++ qs) ↔ Quiet ps ∧ Quiet qs :=
  List.forall_mem_append

/-- The connections of a proxy that is stopped are closed by the end of the
call. -/
def Call.Handled (call : Call) : Prop :=
  call.allowlist = [] ∨
    AllClosed (call.platform.events ++
      .accept call.platform.pending :: call.platform.rest.map .handle)

theorem quiet_stopped {call : Call} {host : String} :
    Quiet (call.stopped host).toList ↔ call.Handled := by
  unfold Call.stopped Call.served Call.proxy Call.Handled
  by_cases h : call.allowlist = []
  · rw [if_pos h]
    exact ⟨fun _ => Or.inl h, fun _ p hp => (by cases hp)⟩
  · rw [if_neg h, or_iff_right h, Option.map_some, Option.map_some,
      Option.toList_some]
    unfold Quiet
    rw [List.forall_mem_singleton,
      and_iff_right (AllowlistProxy.stop_serving _ _),
      AllowlistProxy.stop_handling, AllowlistProxy.serve,
      AllowlistProxy.serve, ← List.foldl_append]
    exact AllowlistProxy.handling_eq_nil rfl rfl rfl _

/-- A proxy that is not stopped is quiet if it was never started, or died
and its connections are closed. -/
theorem quiet_served {call : Call} {host : String} :
    Quiet (call.served host).toList ↔
      call.allowlist = [] ∨
        .accept .osError ∈ call.platform.events ∧
          AllClosed call.platform.events := by
  unfold Call.served Call.proxy
  by_cases h : call.allowlist = []
  · rw [if_pos h]
    exact ⟨fun _ => Or.inl h, fun _ p hp => (by cases hp)⟩
  · rw [if_neg h, or_iff_right h, Option.map_some, Option.toList_some]
    unfold Quiet
    rw [List.forall_mem_singleton,
      AllowlistProxy.handling_eq_nil rfl rfl rfl,
      AllowlistProxy.serve_serving rfl, AllowlistProxy.start, Bool.true_and,
      decide_eq_false_iff_not, not_not]

-- ==== runs

/-- A runtime of either kind. -/
inductive Runtime : Type where
  | subprocess (rt : SandboxRuntime)
  | docker (rt : DockerContainerSandboxRuntime)

namespace Runtime

/-- Its number. -/
def number : Runtime → Nat
  | .subprocess rt => rt.number
  | .docker rt => rt.number

/-- `execute`. -/
def execute : Runtime → Call → Host → Except Exn ExecutionResult × Host
  | .subprocess rt => rt.execute
  | .docker rt => rt.execute

/-- How the invocation with the command ends. -/
def ended : Runtime → Call → Ended
  | .subprocess _, call =>
    call.platform.machine (SandboxRuntime.invocation call)
  | .docker rt, call => rt.runEnded call

end Runtime

/-- A call that was made: what it found, what it ended with, and what it
left. -/
structure Step where
  runtime : Runtime
  call : Call
  before : Host
  result : Except Exn ExecutionResult
  after : Host

/-- A call, made. -/
def stepOf (rt : Runtime) (call : Call) (h : Host) : Step :=
  ⟨rt, call, h, (rt.execute call h).1, (rt.execute call h).2⟩

/-- Some calls, one after the other. -/
def run : List (Runtime × Call) → Host → List Step
  | [], _ => []
  | (rt, call) :: calls, h =>
    stepOf rt call h :: run calls (stepOf rt call h).after

/-- A command that was started has one record, and there are no others. -/
def Step.Audited (s : Step) : Prop :=
  ∃ records : List AuditRecord,
    (∀ n, s.after.auditLogs n =
      if n = s.runtime.number then s.before.auditLogs n ++ records
      else s.before.auditLogs n) ∧
    records.map AuditRecord.command =
      if (s.runtime.ended s.call).started then [s.call.command] else []

/-- What is promised after a call. -/
structure Step.TornDown (s : Step) : Prop where
  /-- No container whose run was started still exists. -/
  removed : s.after.containers = []
  /-- No proxy is still serving, in any of its threads. -/
  quiet : Quiet s.after.proxies
  /-- Each command that was started has its record. -/
  audited : s.Audited
  /-- What is returned is no longer than allowed. -/
  bounded : ∀ r, s.result = .ok r →
    (r.stdout.utf8ByteSize : Int) ≤ s.call.resourceLimits.maxOutputBytes ∧
      (r.stderr.utf8ByteSize : Int) ≤ s.call.resourceLimits.maxOutputBytes

-- ==== condition

/-- A command's output is text, and fits. -/
def Output (call : Call) (ended : Ended) : Prop :=
  ∃ out, ended.outputs = some out ∧
    Fits call.resourceLimits out.1 ∧ Fits call.resourceLimits out.2

namespace DockerContainerSandboxRuntime

/-- What is asked of the daemon between `docker run` and `docker rm`. -/
def between (rt : DockerContainerSandboxRuntime) (call : Call) : Ended :=
  match rt.runEnded call with
  | .timedOut _ _ => rt.killEnded call
  | _ => rt.inspectEnded call

end DockerContainerSandboxRuntime

/-- When a call keeps what is promised. -/
def Runtime.Contained : Runtime → Call → Prop
  | .subprocess rt, call =>
    call.Handled ∧
      (((Runtime.subprocess rt).ended call).started = true →
        Output call ((Runtime.subprocess rt).ended call))
  | .docker rt, call =>
    if (rt.runEnded call).started then
      Output call (rt.runEnded call) ∧ (rt.between call).Returns ∧
        (rt.rmEnded call).Returns ∧ call.Handled
    else
      call.allowlist = [] ∨
        .accept .osError ∈ call.platform.events ∧
          AllClosed call.platform.events

/-- Nothing has been left behind so far. -/
structure Host.Clean (h : Host) : Prop where
  removed : h.containers = []
  quiet : Quiet h.proxies

-- ==== records

section Records

variable {s : Step}

theorem audited_of_append {record : AuditRecord}
    (hlogs : s.after.auditLogs =
      (s.before.append s.runtime.number record).auditLogs)
    (hcommand : record.command = s.call.command)
    (hstarted : (s.runtime.ended s.call).started = true) : s.Audited := by
  refine ⟨[record], fun n => ?_, ?_⟩
  · rw [hlogs]
    rfl
  · rw [if_pos hstarted, List.map_singleton, hcommand]

theorem audited_iff_of_eq (hlogs : s.after.auditLogs = s.before.auditLogs) :
    s.Audited ↔ (s.runtime.ended s.call).started = false := by
  constructor
  · rintro ⟨records, happend, hcommands⟩
    have hself := happend s.runtime.number
    rw [hlogs, if_pos rfl] at hself
    rw [List.self_eq_append_right.1 hself, List.map_nil] at hcommands
    by_contra hstarted
    rw [Bool.not_eq_false] at hstarted
    rw [if_pos hstarted] at hcommands
    cases hcommands
  · intro hstarted
    refine ⟨[], fun n => ?_, ?_⟩
    · rw [hlogs, List.append_nil, ite_self]
    · rw [hstarted]
      rfl

end Records

-- ==== subprocess

section Subprocess

variable {rt : SandboxRuntime} {call : Call} {h : Host}

theorem attempt_ok (limits : ResourceLimits) {ended : Ended}
    {out : String × String} (hout : ended.outputs = some out) :
    ∃ r, SandboxRuntime.attempt limits ended = .ok r ∧
      r.stdout = limits.clip out.1 ∧ r.stderr = limits.clip out.2 := by
  cases ended with
  | notStarted => cases hout
  | raised => cases hout
  | timedOut stdout stderr =>
    cases hout
    exact ⟨_, rfl, rfl, rfl⟩
  | exited returncode stdout stderr =>
    unfold SandboxRuntime.attempt
    rw [subprocessRun]
    rw [Ended.outputs] at hout
    obtain ⟨o, ho, hout⟩ := Option.bind_eq_some_iff.1 hout
    obtain ⟨e, he, rfl⟩ := Option.map_eq_some_iff.1 hout
    rw [ho, he]
    exact ⟨_, rfl, rfl, rfl⟩

theorem attempt_error (limits : ResourceLimits) {ended : Ended}
    (hout : ended.outputs = none) :
    ∃ exn, SandboxRuntime.attempt limits ended = .error exn := by
  cases ended with
  | notStarted => exact ⟨_, rfl⟩
  | raised => exact ⟨_, rfl⟩
  | timedOut stdout stderr => cases hout
  | exited returncode stdout stderr =>
    unfold SandboxRuntime.attempt
    rw [subprocessRun]
    rw [Ended.outputs] at hout
    cases ho : decode stdout with
    | none => exact ⟨_, rfl⟩
    | some o =>
      cases he : decode stderr with
      | none => exact ⟨_, rfl⟩
      | some e =>
        rw [ho, he] at hout
        cases hout

theorem execute_subprocess_ok {out : String × String}
    (hout : ((Runtime.subprocess rt).ended call).outputs = some out) :
    ∃ r record, rt.execute call h =
        (.ok r, (h.leave (call.stopped "127.0.0.1")).append rt.number record) ∧
      record.command = call.command ∧
      r.stdout = call.resourceLimits.clip out.1 ∧
      r.stderr = call.resourceLimits.clip out.2 := by
  obtain ⟨r, hr, hstdout, hstderr⟩ :=
    attempt_ok call.resourceLimits hout
  refine ⟨r, rt.record call r, ?_, rfl, hstdout, hstderr⟩
  have hr' : SandboxRuntime.attempt call.resourceLimits
      (call.platform.machine (SandboxRuntime.invocation call)) = .ok r := hr
  simp only [SandboxRuntime.execute, hr']

theorem execute_subprocess_error
    (hout : ((Runtime.subprocess rt).ended call).outputs = none) :
    ∃ exn, rt.execute call h =
      (.error exn, h.leave (call.stopped "127.0.0.1")) := by
  obtain ⟨exn, hr⟩ := attempt_error call.resourceLimits hout
  have hr' : SandboxRuntime.attempt call.resourceLimits
      (call.platform.machine (SandboxRuntime.invocation call)) =
        .error exn := hr
  refine ⟨exn, ?_⟩
  simp only [SandboxRuntime.execute, hr']

end Subprocess

-- ==== containers

namespace DockerContainerSandboxRuntime

variable {rt : DockerContainerSandboxRuntime} {call : Call} {h : Host}

theorem judged {out : String × String}
    (hout : (rt.runEnded call).outputs = some out)
    (hbetween : (rt.between call).Returns) :
    ∃ run limited, attempt rt call = .ok run ∧
      wasResourceLimited rt call run.returncode = .ok limited ∧
      run.stdout = out.1 ∧ run.stderr = out.2 := by
  obtain ⟨proc, hproc⟩ := returns_iff.1 hbetween
  unfold between at hproc
  unfold attempt
  cases hrun : rt.runEnded call with
  | notStarted =>
    rw [hrun] at hout
    cases hout
  | raised =>
    rw [hrun] at hout
    cases hout
  | timedOut stdout stderr =>
    rw [hrun] at hout hproc
    cases hout
    refine ⟨⟨none, stdout.text, stderr.text, true⟩, false, ?_, rfl, rfl, rfl⟩
    have hkill : subprocessRun (rt.killEnded call) = .ok proc := hproc
    show Except.map _ (subprocessRun (rt.killEnded call)) = _
    rw [hkill]
    rfl
  | exited returncode stdout stderr =>
    rw [hrun] at hout hproc
    rw [Ended.outputs] at hout
    obtain ⟨o, ho, hout⟩ := Option.bind_eq_some_iff.1 hout
    obtain ⟨e, he, rfl⟩ := Option.map_eq_some_iff.1 hout
    have hinspect : subprocessRun (rt.inspectEnded call) = .ok proc := hproc
    have hlimited : ∃ limited,
        wasResourceLimited rt call (some returncode) = .ok limited := by
      rw [wasResourceLimited, hinspect]
      exact ⟨_, rfl⟩
    obtain ⟨limited, hlimited⟩ := hlimited
    refine ⟨⟨some returncode, o, e, false⟩, limited, ?_, hlimited, rfl, rfl⟩
    rw [subprocessRun, ho, he]

theorem judged_inv {run : Run} {limited : Bool}
    (hattempt : attempt rt call = .ok run)
    (hlimited : wasResourceLimited rt call run.returncode = .ok limited) :
    (∃ out, (rt.runEnded call).outputs = some out) ∧
      (rt.between call).Returns := by
  unfold attempt at hattempt
  unfold between
  rw [returns_iff]
  cases hrun : rt.runEnded call with
  | notStarted =>
    rw [hrun] at hattempt
    cases hattempt
  | raised =>
    rw [hrun] at hattempt
    cases hattempt
  | timedOut stdout stderr =>
    refine ⟨⟨_, rfl⟩, ?_⟩
    rw [hrun, subprocessRun] at hattempt
    cases hkill : subprocessRun (rt.killEnded call) with
    | error exn =>
      simp only [hkill, Except.map] at hattempt
      cases hattempt
    | ok proc => exact ⟨proc, rfl⟩
  | exited returncode stdout stderr =>
    rw [hrun, subprocessRun] at hattempt
    cases ho : decode stdout with
    | none =>
      rw [ho] at hattempt
      cases hattempt
    | some o =>
      cases he : decode stderr with
      | none =>
        rw [ho, he] at hattempt
        cases hattempt
      | some e =>
        rw [ho, he] at hattempt
        cases hattempt
        refine ⟨⟨(o, e), ?_⟩, ?_⟩
        · rw [Ended.outputs, ho, he]
          rfl
        · cases hinspect : subprocessRun (rt.inspectEnded call) with
          | error exn =>
            rw [wasResourceLimited, hinspect] at hlimited
            cases hlimited
          | ok proc => exact ⟨proc, rfl⟩

theorem started_of_attempt {run : Run}
    (hattempt : attempt rt call = .ok run) :
    (rt.runEnded call).started = true := by
  unfold attempt at hattempt
  cases hrun : rt.runEnded call with
  | notStarted =>
    rw [hrun] at hattempt
    cases hattempt
  | raised => rfl
  | timedOut stdout stderr => rfl
  | exited returncode stdout stderr => rfl

theorem execute_ok {out : String × String}
    (hout : (rt.runEnded call).outputs = some out)
    (hbetween : (rt.between call).Returns)
    (hrm : (rt.rmEnded call).Returns) :
    ∃ r record, execute rt call h =
        (.ok r, ((remove rt call (make rt call h)).leave
          (call.stopped "0.0.0.0")).append rt.number record) ∧
      record.command = call.command ∧
      r.stdout = call.resourceLimits.clip out.1 ∧
      r.stderr = call.resourceLimits.clip out.2 := by
  obtain ⟨run, limited, hattempt, hlimited, hstdout, hstderr⟩ :=
    judged hout hbetween
  obtain ⟨proc, hproc⟩ := returns_iff.1 hrm
  refine ⟨result call run limited, record rt call run, ?_, rfl, ?_, ?_⟩
  · simp only [execute, hattempt, hlimited, hproc]
  · rw [← hstdout]
    rfl
  · rw [← hstderr]
    rfl

theorem execute_error
    (hnot : ¬ ((∃ out, (rt.runEnded call).outputs = some out) ∧
      (rt.between call).Returns ∧ (rt.rmEnded call).Returns)) :
    ∃ exn after, execute rt call h = (.error exn, after) ∧
      after.auditLogs = h.auditLogs ∧
      after.proxies = h.proxies ++ (call.served "0.0.0.0").toList ∧
      ((rt.runEnded call).started = false →
        after.containers = h.containers) := by
  have hmake : (make rt call h).auditLogs = h.auditLogs ∧
      (make rt call h).proxies = h.proxies := by
    unfold make
    split <;> exact ⟨rfl, rfl⟩
  have hremove : ∀ g : Host, (remove rt call g).auditLogs = g.auditLogs ∧
      (remove rt call g).proxies = g.proxies := by
    intro g
    unfold remove
    split <;> exact ⟨rfl, rfl⟩
  unfold execute
  cases hattempt : attempt rt call with
  | error exn =>
    refine ⟨exn, _, rfl, hmake.1, ?_, fun hstarted => ?_⟩
    · show (make rt call h).proxies ++ _ = _
      rw [hmake.2]
    · show (make rt call h).containers = _
      unfold make
      rw [hstarted]
      rfl
  | ok run =>
    have hstarted := started_of_attempt hattempt
    simp only
    cases hlimited : wasResourceLimited rt call run.returncode with
    | error exn =>
      refine ⟨exn, _, rfl, hmake.1, ?_, fun hno => ?_⟩
      · show (make rt call h).proxies ++ _ = _
        rw [hmake.2]
      · rw [hno] at hstarted
        cases hstarted
    | ok limited =>
      simp only
      cases hproc : subprocessRun (rt.rmEnded call) with
      | error exn =>
        refine ⟨exn, _, rfl, ?_, ?_, fun hno => ?_⟩
        · exact (hremove _).1.trans hmake.1
        · show (remove rt call (make rt call h)).proxies ++ _ = _
          rw [(hremove _).2, hmake.2]
        · rw [hno] at hstarted
          cases hstarted
      | ok proc =>
        obtain ⟨hout, hbetween⟩ := judged_inv hattempt hlimited
        exact absurd ⟨hout, hbetween, returns_iff.2 ⟨proc, hproc⟩⟩ hnot

end DockerContainerSandboxRuntime

-- ==== a call

section Call

variable {s : Step} {call : Call} {h : Host}

theorem output_iff {ended : Ended} {out : String × String}
    (hout : ended.outputs = some out) :
    Output call ended ↔
      Fits call.resourceLimits out.1 ∧ Fits call.resourceLimits out.2 := by
  unfold Output
  rw [hout]
  constructor
  · rintro ⟨out', hout', hfits⟩
    cases hout'
    exact hfits
  · exact fun hfits => ⟨out, rfl, hfits⟩

theorem tornDown_ok {r : ExecutionResult} {out : String × String}
    (hresult : s.result = .ok r) (hremoved : s.after.containers = [])
    (haudited : s.Audited)
    (hstdout : r.stdout = s.call.resourceLimits.clip out.1)
    (hstderr : r.stderr = s.call.resourceLimits.clip out.2) :
    s.TornDown ↔ Quiet s.after.proxies ∧ Fits s.call.resourceLimits out.1 ∧
      Fits s.call.resourceLimits out.2 := by
  rw [← clip_le_iff, ← clip_le_iff, ← hstdout, ← hstderr]
  constructor
  · exact fun hs => ⟨hs.quiet, hs.bounded r hresult⟩
  · rintro ⟨hquiet, hle⟩
    refine ⟨hremoved, hquiet, haudited, fun r' hr' => ?_⟩
    rw [hresult] at hr'
    cases hr'
    exact hle

theorem tornDown_error {exn : Exn} (hresult : s.result = .error exn)
    (hlogs : s.after.auditLogs = s.before.auditLogs) :
    s.TornDown ↔ s.after.containers = [] ∧ Quiet s.after.proxies ∧
      (s.runtime.ended s.call).started = false := by
  rw [← audited_iff_of_eq hlogs]
  constructor
  · exact fun hs => ⟨hs.removed, hs.quiet, hs.audited⟩
  · rintro ⟨hremoved, hquiet, haudited⟩
    refine ⟨hremoved, hquiet, haudited, fun r' hr' => ?_⟩
    rw [hresult] at hr'
    cases hr'

theorem tornDown_subprocess (hc : h.Clean) (rt : SandboxRuntime) :
    (stepOf (.subprocess rt) call h).TornDown ↔
      (Runtime.subprocess rt).Contained call := by
  have hquiet : Quiet (h.leave (call.stopped "127.0.0.1")).proxies ↔
      call.Handled :=
    quiet_append.trans
      ((and_iff_right hc.quiet).trans quiet_stopped)
  cases hout : ((Runtime.subprocess rt).ended call).outputs with
  | some out =>
    obtain ⟨r, record, hexecute, hcommand, hstdout, hstderr⟩ :=
      execute_subprocess_ok (h := h) hout
    have hstarted := started_of_outputs hout
    have hresult : (stepOf (.subprocess rt) call h).result = .ok r :=
      congrArg Prod.fst hexecute
    have hafter : (stepOf (.subprocess rt) call h).after = _ :=
      congrArg Prod.snd hexecute
    have hlogs : (stepOf (.subprocess rt) call h).after.auditLogs =
        (h.append rt.number record).auditLogs := by
      rw [hafter]
      rfl
    have haudited : (stepOf (.subprocess rt) call h).Audited :=
      audited_of_append hlogs hcommand hstarted
    have hremoved :
        (stepOf (.subprocess rt) call h).after.containers = [] := by
      rw [hafter]
      exact hc.removed
    have hstill : Quiet (stepOf (.subprocess rt) call h).after.proxies ↔
        call.Handled := by
      rw [hafter]
      exact hquiet
    rw [tornDown_ok hresult hremoved haudited hstdout hstderr, hstill,
      Runtime.Contained, output_iff hout]
    exact and_congr_right fun _ =>
      ⟨fun hfits _ => hfits, fun hfits => hfits hstarted⟩
  | none =>
    obtain ⟨exn, hexecute⟩ := execute_subprocess_error (h := h) hout
    have hresult : (stepOf (.subprocess rt) call h).result = .error exn :=
      congrArg Prod.fst hexecute
    have hafter : (stepOf (.subprocess rt) call h).after = _ :=
      congrArg Prod.snd hexecute
    have hlogs : (stepOf (.subprocess rt) call h).after.auditLogs =
        h.auditLogs := by
      rw [hafter]
      rfl
    rw [tornDown_error hresult hlogs, hafter, hquiet, Runtime.Contained]
    constructor
    · rintro ⟨-, hhandled, hno⟩
      refine ⟨hhandled, fun hstarted => ?_⟩
      exact absurd (hno.symm.trans hstarted) Bool.false_ne_true
    · rintro ⟨hhandled, hcontained⟩
      refine ⟨hc.removed, hhandled, ?_⟩
      by_contra hstarted
      rw [Bool.not_eq_false] at hstarted
      obtain ⟨out, hsome, -⟩ := hcontained hstarted
      rw [hout] at hsome
      cases hsome

theorem started_of_returns {e : Ended} (h : e.Returns) : e.started = true := by
  cases e with
  | notStarted => exact h.elim
  | raised => rfl
  | timedOut stdout stderr => rfl
  | exited returncode stdout stderr => rfl

theorem removed_containers {rt : DockerContainerSandboxRuntime}
    (hc : h.Clean) (hrm : (rt.rmEnded call).Returns) :
    (rt.remove call (rt.make call h)).containers = [] := by
  unfold DockerContainerSandboxRuntime.remove
  rw [if_pos (started_of_returns hrm)]
  unfold DockerContainerSandboxRuntime.make
  split
  · simp [hc.removed]
  · simp [hc.removed]

theorem removed_proxies {rt : DockerContainerSandboxRuntime} :
    (rt.remove call (rt.make call h)).proxies = h.proxies ∧
      (rt.remove call (rt.make call h)).auditLogs = h.auditLogs := by
  unfold DockerContainerSandboxRuntime.remove DockerContainerSandboxRuntime.make
  split <;> split <;> exact ⟨rfl, rfl⟩

theorem tornDown_docker (hc : h.Clean) (rt : DockerContainerSandboxRuntime) :
    (stepOf (.docker rt) call h).TornDown ↔
      (Runtime.docker rt).Contained call := by
  rw [Runtime.Contained]
  by_cases hreturns : (∃ out, (rt.runEnded call).outputs = some out) ∧
    (rt.between call).Returns ∧ (rt.rmEnded call).Returns
  · obtain ⟨⟨out, hout⟩, hbetween, hrm⟩ := hreturns
    obtain ⟨r, record, hexecute, hcommand, hstdout, hstderr⟩ :=
      DockerContainerSandboxRuntime.execute_ok (h := h) hout hbetween hrm
    have hstarted := started_of_outputs hout
    have hresult : (stepOf (.docker rt) call h).result = .ok r :=
      congrArg Prod.fst hexecute
    have hafter : (stepOf (.docker rt) call h).after = _ :=
      congrArg Prod.snd hexecute
    have hremoved : (stepOf (.docker rt) call h).after.containers = [] :=
      (congrArg Host.containers hafter).trans (removed_containers hc hrm)
    have hstill : Quiet (stepOf (.docker rt) call h).after.proxies ↔
        call.Handled := by
      rw [hafter]
      show Quiet ((rt.remove call (rt.make call h)).proxies ++ _) ↔ _
      rw [removed_proxies.1, quiet_append, and_iff_right hc.quiet,
        quiet_stopped]
    have hlogs : (stepOf (.docker rt) call h).after.auditLogs =
        (h.append rt.number record).auditLogs := by
      rw [hafter]
      unfold Host.append Host.leave
      rw [removed_proxies.2]
    have haudited : (stepOf (.docker rt) call h).Audited :=
      audited_of_append hlogs hcommand hstarted
    rw [tornDown_ok hresult hremoved haudited hstdout hstderr, hstill,
      if_pos hstarted, output_iff hout]
    constructor
    · rintro ⟨hhandled, hfits⟩
      exact ⟨hfits, hbetween, hrm, hhandled⟩
    · rintro ⟨hfits, -, -, hhandled⟩
      exact ⟨hhandled, hfits⟩
  · obtain ⟨exn, after, hexecute, hlogs, hproxies, hcontainers⟩ :=
      DockerContainerSandboxRuntime.execute_error (h := h) hreturns
    have hresult : (stepOf (.docker rt) call h).result = .error exn :=
      congrArg Prod.fst hexecute
    have hafter : (stepOf (.docker rt) call h).after = after :=
      congrArg Prod.snd hexecute
    have hsame : (stepOf (.docker rt) call h).after.auditLogs =
        h.auditLogs := by
      rw [hafter]
      exact hlogs
    rw [tornDown_error hresult hsame, hafter, hproxies, quiet_append, quiet_served]
    by_cases hstarted : (rt.runEnded call).started = true
    · rw [if_pos hstarted]
      constructor
      · intro hs
        exact absurd (hs.2.2.symm.trans hstarted) Bool.false_ne_true
      · rintro ⟨⟨out, hout, -⟩, hbetween, hrm, -⟩
        exact absurd ⟨⟨out, hout⟩, hbetween, hrm⟩ hreturns
    · rw [if_neg hstarted]
      have hno := Bool.eq_false_iff.2 hstarted
      rw [hcontainers hno, hc.removed]
      exact ⟨fun hs => hs.2.1.2, fun hquiet => ⟨rfl, ⟨hc.quiet, hquiet⟩, hno⟩⟩

theorem tornDown_iff (hc : h.Clean) (rt : Runtime) :
    (stepOf rt call h).TornDown ↔ rt.Contained call := by
  cases rt with
  | subprocess rt => exact tornDown_subprocess hc rt
  | docker rt => exact tornDown_docker hc rt

end Call

-- ==== calls

/-- From a clean host on, all calls keep what is promised exactly when
each is contained: the first that is not would be seen. -/
theorem run_iff {calls : List (Runtime × Call)} : ∀ {h : Host}, h.Clean →
    ((∀ s ∈ run calls h, s.TornDown) ↔
      ∀ c ∈ calls, Runtime.Contained c.1 c.2) := by
  induction calls with
  | nil =>
    intro h _
    exact ⟨fun _ c hc => (by cases hc), fun _ s hs => (by cases hs)⟩
  | cons c calls ih =>
    intro h hc
    rw [run, List.forall_mem_cons, List.forall_mem_cons, tornDown_iff hc]
    refine and_congr_right fun hcontained => ih ?_
    have htorn := (tornDown_iff hc c.1).2 hcontained
    exact ⟨htorn.removed, htorn.quiet⟩

/-- Whatever the calls and their outcomes, all are torn down and audited
exactly when each is contained. -/
theorem torn_down_iff_contained (calls : List (Runtime × Call)) :
    (∀ s ∈ run calls Host.fresh, s.TornDown) ↔
      ∀ c ∈ calls, Runtime.Contained c.1 c.2 :=
  run_iff ⟨rfl, fun _ hp => (by cases hp)⟩

-- ==== undecodable bytes

namespace Undecodable

/-- A command that prints the byte 0xFF, which is no text. -/
def platform : Platform where
  machine := fun _ => .exited 0 ⟨#[0xFF]⟩ ⟨#[]⟩
  environ := .empty
  now := "2026-01-01T00:00:00+00:00"
  port := 49152
  events := []
  pending := .timeout
  rest := []
  hex := "0123456789abcdef0123456789abcdef"
  made := true

def call : Call :=
  ⟨["printf", "\\377"], {}, some ["pypi.org"], none, none, platform⟩

def runtime : Runtime := .docker { number := 0 }

/-- Its container is there, its proxy is in its loop, and it has no
record. -/
theorem left :
    (stepOf runtime call Host.fresh).after.containers =
        ["sdlc-sandbox-0123456789ab"] ∧
      (stepOf runtime call Host.fresh).after.proxies.map
        AllowlistProxy.serving = [true] ∧
      (stepOf runtime call Host.fresh).after.auditLogs 0 = [] := by
  refine ⟨?_, ?_, ?_⟩
  · decide
  · decide
  · exact List.eq_nil_of_length_eq_zero (by decide)

end Undecodable

/-- Output that is not text leaves the container, the proxy, and no
record. -/
theorem undecodable_output_left_running :
    ¬ ∀ calls : List (Runtime × Call),
      ∀ s ∈ run calls Host.fresh, s.TornDown := by
  intro h
  have htorn := h [(Undecodable.runtime, Undecodable.call)] _
    List.mem_cons_self
  have hremoved := htorn.removed
  rw [Undecodable.left.1] at hremoved
  cases hremoved

end SdlcOs.Orchestrator.Sandbox
