/-
The event sink and its backing file.

# Writing

`emit` numbers an event with the sink's own counter, keeps it in memory
and writes one line of JSON, flushed and synced before it returns. The
counter starts at 1 in every new sink, whatever the file holds. A sink
that was closed keeps events in memory only.

# Crashes

The process may die inside the write of a line: a prefix of its bytes has
arrived (`Act.die`). A restart opens a new sink on the same file, at its
end. The file is ASCII, so its bytes are its characters.

# Reading

`read_events_from_file` takes the file line by line and makes an event of
every line that is not blank. A line that is not JSON raises, and so does
a value that does not have exactly an event's fields. The fields hold
whatever JSON value they were given: nothing checks their types.
-/
import SdlcOs.Gates.Service
import SdlcOs.Json.Layout

namespace SdlcOs.Observability

open Json (Json FloatText loads compact)

variable {φ : Type}

-- ==== events

structure Event (φ : Type) where
  eventId : Json φ
  kind : Json φ
  name : Json φ
  traceId : Json φ
  spanId : Json φ
  runId : Json φ
  tenantId : Json φ
  attributes : Json φ
  timestampNs : Json φ
  sequence : Json φ

/-- `asdict`: the fields in their order. -/
def Event.toJsonDict (e : Event φ) : List (String × Json φ) :=
  [("event_id", e.eventId), ("kind", e.kind), ("name", e.name),
    ("trace_id", e.traceId), ("span_id", e.spanId), ("run_id", e.runId),
    ("tenant_id", e.tenantId), ("attributes", e.attributes),
    ("timestamp_ns", e.timestampNs), ("sequence", e.sequence)]

/-- The parameters of `Event`. -/
def fieldNames : List String :=
  ["event_id", "kind", "name", "trace_id", "span_id", "run_id", "tenant_id",
    "attributes", "timestamp_ns", "sequence"]

/-- `d[key]`: of a key that is written twice, the last value. -/
def member (d : List (String × Json φ)) (key : String) : Option (Json φ) :=
  ((d.filter (·.1 = key)).getLast?).map Prod.snd

/-- `Event(**d)`: a `TypeError` unless the keys are the parameters. -/
def Event.fromJsonDict : Json φ → Option (Event φ)
  | .obj d =>
    if d.all (fun m => m.1 ∈ fieldNames) = false then none
    else do
      let eventId ← member d "event_id"
      let kind ← member d "kind"
      let name ← member d "name"
      let traceId ← member d "trace_id"
      let spanId ← member d "span_id"
      let runId ← member d "run_id"
      let tenantId ← member d "tenant_id"
      let attributes ← member d "attributes"
      let timestampNs ← member d "timestamp_ns"
      let sequence ← member d "sequence"
      some { eventId, kind, name, traceId, spanId, runId, tenantId
             attributes, timestampNs, sequence }
  | _ => none

-- ==== reading

/-- A text's lines, in text mode: `\n`, `\r` and `\r\n` end one. What
ends a line is not kept, since the reader strips it. -/
def linesFrom (line : List Char) : List Char → List (List Char)
  | [] => if line = [] then [] else [line]
  | '\r' :: '\n' :: s => line :: linesFrom [] s
  | c :: s =>
    if c = '\n' ∨ c = '\r' then line :: linesFrom [] s
    else linesFrom (line ++ [c]) s

/-- `line.strip()`. -/
def strip (line : List Char) : List Char :=
  ((line.dropWhile Gates.isSpace).reverse.dropWhile Gates.isSpace).reverse

inductive ReadError : Type where
  | jsonDecodeError
  | typeError
  deriving DecidableEq, Repr

variable (F : FloatText φ)

/-- The event of a line that is not blank. -/
def readEvent (line : List Char) : Except ReadError (Event φ) :=
  match loads F line with
  | none => .error .jsonDecodeError
  | some v =>
    match Event.fromJsonDict v with
    | none => .error .typeError
    | some e => .ok e

def readLines : List (List Char) → Except ReadError (List (Event φ))
  | [] => .ok []
  | line :: rest =>
    if strip line = [] then readLines rest
    else
      match readEvent F (strip line) with
      | .error x => .error x
      | .ok e =>
        match readLines rest with
        | .error x => .error x
        | .ok es => .ok (e :: es)

/-- `read_events_from_file`. -/
def readEventsFromFile : Option (List Char) →
    Except ReadError (List (Event φ))
  | none => .ok []
  | some text => readLines F (linesFrom [] text)

-- ==== emitting

/-- What `emit` is called with, and what it takes from the clock and from
`uuid4`. Attributes that `json.dumps` has no text for are `none`. -/
structure EmitArgs (φ : Type) where
  kind : String
  name : String
  traceId : Option String := none
  spanId : Option String := none
  runId : Option String := none
  tenantId : Option String := none
  attributes : Option (List (String × Json φ)) := some []
  eventId : String
  timestampNs : Int

/-- `None` or a string. -/
def optional : Option String → Json φ
  | none => .null
  | some s => .str s

/-- The event of a call, numbered. -/
def EmitArgs.event (a : EmitArgs φ) (attributes : List (String × Json φ))
    (sequence : Nat) : Event φ where
  eventId := .str a.eventId
  kind := .str a.kind
  name := .str a.name
  traceId := optional a.traceId
  spanId := optional a.spanId
  runId := optional a.runId
  tenantId := optional a.tenantId
  attributes := .obj attributes
  timestampNs := .int a.timestampNs
  sequence := .int sequence

/-- `json.dumps(ev.to_json_dict())`. -/
def text (e : Event φ) : List Char := compact.dumps F (.obj e.toJsonDict)

/-- The line that is written. -/
def line (e : Event φ) : List Char := text F e ++ ['\n']

/-- An `EventSink`: the next number, and whether the file is still
open. -/
structure EventSink where
  seq : Nat
  isOpen : Bool

def EventSink.init : EventSink := ⟨1, true⟩

/-- The backing file, the sink of the process that runs, if one does, and
what happened: the events whose `emit` returned, those whose text arrived
whole in the file, and the ids that were used. -/
structure State (φ : Type) where
  file : Option (List Char)
  sink : Option EventSink
  returned : List (Event φ)
  written : List (Event φ)
  ids : List String

def State.init : State φ := ⟨none, none, [], [], []⟩

/-- What happens to the file and its sinks. `die` is a crash in `emit`
after `stop` bytes of the line; `kill` is one between two calls. -/
inductive Act (φ : Type) : Type where
  | start
  | emit (a : EmitArgs φ)
  | die (a : EmitArgs φ) (stop : Nat)
  | close
  | kill

/-- The file after the first bytes of a line were appended. -/
def State.wrote (s : State φ) (e : Event φ) (stop : Nat) : State φ :=
  { s with
      file := some (s.file.getD [] ++ (line F e).take stop)
      written := if (text F e).length ≤ stop then s.written ++ [e]
        else s.written }

/-- `emit`, to its end or to a crash. An id is never given twice, and
nothing is emitted where no process runs. -/
def State.emit (s : State φ) (a : EmitArgs φ) (stop : Option Nat) :
    Option (State φ) :=
  match s.sink with
  | none => none
  | some sink =>
    if a.eventId ∈ s.ids then none
    else
      -- the counter moves before anything can raise
      let s := { s with
        sink := if stop = none then some { sink with seq := sink.seq + 1 }
          else none
        ids := a.eventId :: s.ids }
      match a.attributes with
      | none => some s
      | some attributes =>
        let e := a.event attributes sink.seq
        match stop with
        | some stop => some (if sink.isOpen then s.wrote F e stop else s)
        | none =>
          let s := if sink.isOpen then
            s.wrote F e (line F e).length else s
          some { s with returned := s.returned ++ [e] }

def State.step (s : State φ) : Act φ → Option (State φ)
  | .start => some { s with
      file := some (s.file.getD []), sink := some .init }
  | .emit a => s.emit F a none
  | .die a stop => s.emit F a (some stop)
  | .close => some { s with
      sink := s.sink.map fun sink => { sink with isOpen := false } }
  | .kill => some { s with sink := none }

end SdlcOs.Observability
