/-
The chain of hooks around a tool call (orchestrator/hooks.py).

# Values

Arguments are JSON values: a call has an object of them, and it is one
object that the hooks, the tool and, where nothing is redacted, the record
share. A tool's result is of any type. What `str.lower` does and what
`str` makes of a value that is no text are the platform's affair.

# Hooks and tools

A hook is what its two methods do in the call at hand, a tool what it
makes of the arguments. Each may raise, and each leaves the arguments as it
likes, for whoever comes next. What is raised is an `Exception` or, like an
interrupt, is not; only the first kind is caught, and an `Exception` whose
text is asked for may raise in turn.

# A dispatch

`dispatch` gives what is returned or raised, the audit log, and what the
tool was called with, call by call.
-/
import SdlcOs.Json.Text

namespace SdlcOs.Hooks

open Json (Json)

-- ==== contexts

/-- `HookDecision`. -/
inductive HookDecision : Type where
  | allow
  | block
  deriving DecidableEq, Repr

/-- `ToolCallContext.arguments`. -/
abbrev Arguments (φ : Type) : Type := List (String × Json φ)

/-- `ToolCallContext`. -/
structure ToolCallContext (φ : Type) where
  toolName : String
  arguments : Arguments φ
  invokingSkill : String
  stage : String
  runId : String

/-- The context once its arguments have become what somebody left of
them. -/
def ToolCallContext.leaving {φ : Type} (ctx : ToolCallContext φ)
    (left : Arguments φ) : ToolCallContext φ :=
  { ctx with arguments := left }

/-- `HookResult`. -/
structure HookResult where
  decision : HookDecision
  reason : String := ""
  deriving DecidableEq, Repr

variable {φ ρ : Type}

/-- What is raised. -/
inductive Raised (φ : Type) : Type where
  /-- An `Exception`, by its type and its text. -/
  | exception (type text : String)
  /-- An `Exception` whose `__str__` raises. -/
  | unprintable (type : String) (raises : Raised φ)
  /-- A `BaseException` that is no `Exception`. -/
  | interrupt (type text : String)
  /-- `HookChainBlockedError`. -/
  | hookChainBlocked (hookName reason : String) (ctx : ToolCallContext φ)

/-- What `except Exception` catches. -/
def Raised.isException : Raised φ → Bool
  | .exception _ _ => true
  | .unprintable _ _ => true
  | .interrupt _ _ => false
  | .hookChainBlocked _ _ _ => true

/-- `str(exc)`. -/
def Raised.text : Raised φ → Except (Raised φ) String
  | .exception _ text => .ok text
  | .unprintable _ raises => .error raises
  | .interrupt _ text => .ok text
  | .hookChainBlocked hookName reason ctx =>
    .ok (hookName ++ " blocked tool call '" ++ ctx.toolName ++ "': " ++
      reason)

/-- `ToolCallRecord`. -/
structure ToolCallRecord (φ ρ : Type) where
  ctx : ToolCallContext φ
  /-- The class of the hook that blocked the call. -/
  blockedBy : Option String
  reason : Option String
  result : Option ρ
  error : Option String := none

-- ==== hooks

/-- A `Hook`. Either method ends in some way, and leaves the arguments in
some state. -/
structure Hook (φ ρ : Type) where
  className : String
  preToolUse : ToolCallContext φ →
      Except (Raised φ) HookResult × Arguments φ :=
    fun ctx => (.ok ⟨.allow, ""⟩, ctx.arguments)
  postToolUse : ToolCallContext φ → ρ →
      Except (Raised φ) Unit × Arguments φ :=
    fun ctx _ => (.ok (), ctx.arguments)
  /-- Whether it is a `SecretRedactionHook`. -/
  redacts : Bool := false

/-- The platform's texts and numbers. -/
structure Platform (φ : Type) where
  lower : String → String
  /-- `str` of a value that is no text. -/
  strOther : Json φ → String
  /-- Whether a float is other than zero. -/
  nonzero : φ → Bool

variable (P : Platform φ)

/-- `part in text`. -/
def isIn (part text : String) : Bool :=
  text.toList.tails.any part.toList.isPrefixOf

/-- `str(value)`. -/
def str : Json φ → String
  | .str s => s
  | v => P.strOther v

/-- `bool(value)`. -/
def truthy : Json φ → Bool
  | .null => false
  | .bool b => b
  | .int n => n ≠ 0
  | .float x => P.nonzero x
  | .str s => s ≠ ""
  | .arr items => !items.isEmpty
  | .obj members => !members.isEmpty

/-- `_DESTRUCTIVE_SHELL_PATTERNS`. -/
def destructiveShellPatterns : List String :=
  ["rm -rf", "rm -r -f", "git push --force", "git push -f",
    "git reset --hard", "drop table", "drop database"]

/-- `_DESTRUCTIVE_TOOL_FLAGS.get(tool_name, ())`. -/
def destructiveToolFlags (toolName : String) : List String :=
  if toolName = "git_push" then ["force"] else []

/-- `str(ctx.arguments.get("command", "")).lower()`. -/
def commandOf (ctx : ToolCallContext φ) : String :=
  P.lower (str P ((ctx.arguments.lookup "command").getD (.str "")))

/-- `DestructiveCommandHook.pre_tool_use`. -/
def DestructiveCommandHook.preToolUse (ctx : ToolCallContext φ) :
    HookResult :=
  match destructiveShellPatterns.find? fun p => isIn p (commandOf P ctx) with
  | some p =>
    ⟨.block, "destructive command pattern '" ++ p ++
      "' requires human-approved escalation (Section 10.2)"⟩
  | none =>
    match (destructiveToolFlags ctx.toolName).find? fun flag =>
        (ctx.arguments.lookup flag).any (truthy P) with
    | some flag =>
      ⟨.block, "tool '" ++ ctx.toolName ++
        "' invoked with destructive flag '" ++ flag ++
        "' (Section 10.2)"⟩
    | none => ⟨.allow, ""⟩

/-- `DestructiveCommandHook`. -/
def destructiveCommandHook : Hook φ ρ where
  className := "DestructiveCommandHook"
  preToolUse := fun ctx =>
    (.ok (DestructiveCommandHook.preToolUse P ctx), ctx.arguments)

/-- `_SECRET_KEY_MARKERS`. -/
def secretKeyMarkers : List String :=
  ["token", "secret", "password", "api_key", "credential"]

/-- `any(marker in k.lower() for marker in self._SECRET_KEY_MARKERS)`. -/
def isMarked (k : String) : Bool :=
  secretKeyMarkers.any fun marker => isIn marker (P.lower k)

/-- What stands in a record in the place of a secret. -/
def placeholder : Json φ := .str "***REDACTED***"

/-- `SecretRedactionHook.redact`. -/
def redact (arguments : Arguments φ) : Arguments φ :=
  arguments.map fun a => (a.1, if isMarked P a.1 then placeholder else a.2)

/-- `SecretRedactionHook`. -/
def secretRedactionHook : Hook φ ρ where
  className := "SecretRedactionHook"
  redacts := true

-- ==== the chain

/-- What `record_tool_call` is told. -/
structure ToolCallEvent where
  traceId : String
  runId : String
  toolName : String
  stage : String
  blockedBy : Option String
  error : Option String
  invokingSkill : String
  deriving DecidableEq, Repr

/-- `HookChain`. -/
structure HookChain (φ ρ : Type) where
  hooks : List (Hook φ ρ)
  auditLog : List (ToolCallRecord φ ρ) := []
  /-- `record_tool_call` of the observability client, and what it
  raises. -/
  observability : Option (ToolCallEvent → Except (Raised φ) Unit) := none
  traceId : Option String := none

/-- A tool: how it ends, and what it leaves of the arguments. -/
abbrev Tool (φ ρ : Type) : Type :=
  Arguments φ → Except (Raised φ) ρ × Arguments φ

/-- What a dispatch comes to. -/
structure Dispatched (φ ρ : Type) where
  outcome : Except (Raised φ) ρ
  auditLog : List (ToolCallRecord φ ρ)
  /-- What the tool was called with. -/
  toolCalls : List (Arguments φ) := []

namespace HookChain

variable (chain : HookChain φ ρ) (ctx : ToolCallContext φ)

/-- `_redacted_ctx`. -/
def redactedCtx : ToolCallContext φ :=
  { ctx with
    arguments :=
      (chain.hooks.filter (·.redacts)).foldl (fun a _ => redact P a)
        ctx.arguments }

/-- `_ship_tool_call_event`. -/
def shipToolCallEvent (record : ToolCallRecord φ ρ) :
    Except (Raised φ) Unit :=
  match chain.observability, chain.traceId with
  | some recordToolCall, some traceId => recordToolCall
      { traceId := traceId
        runId := ctx.runId
        toolName := ctx.toolName
        stage := ctx.stage
        blockedBy := record.blockedBy
        error := record.error
        invokingSkill := ctx.invokingSkill }
  | _, _ => .ok ()

/-- The loop over `pre_tool_use`: what is raised, or the name and reason
of a hook that blocks, and what is left of the arguments. -/
def runPre (ctx : ToolCallContext φ) : List (Hook φ ρ) →
    Except (Raised φ ⊕ (String × String)) Unit × Arguments φ
  | [] => (.ok (), ctx.arguments)
  | hook :: hooks =>
    match hook.preToolUse ctx with
    | (.error exc, left) => (.error (.inl exc), left)
    | (.ok pre, left) =>
      if pre.decision = .block then
        (.error (.inr (hook.className, pre.reason)), left)
      else runPre (ctx.leaving left) hooks

/-- The loop over `post_tool_use`. -/
def runPost (ctx : ToolCallContext φ) (result : ρ) : List (Hook φ ρ) →
    Except (Raised φ) Unit × Arguments φ
  | [] => (.ok (), ctx.arguments)
  | hook :: hooks =>
    match hook.postToolUse ctx result with
    | (.error exc, left) => (.error exc, left)
    | (.ok (), left) => runPost (ctx.leaving left) result hooks

/-- Append a record, ship its event, and end as told. -/
def close (record : ToolCallRecord φ ρ) (outcome : Except (Raised φ) ρ)
    (toolCalls : List (Arguments φ)) : Dispatched φ ρ where
  outcome := chain.shipToolCallEvent ctx record >>= fun _ => outcome
  auditLog := chain.auditLog ++ [record]
  toolCalls := toolCalls

/-- `dispatch`. -/
def dispatch (toolFn : Tool φ ρ) : Dispatched φ ρ :=
  match runPre ctx chain.hooks with
  | (.error (.inl exc), _) => ⟨.error exc, chain.auditLog, []⟩
  | (.error (.inr (hookName, reason)), left) =>
    chain.close ctx
      { ctx := chain.redactedCtx P (ctx.leaving left)
        blockedBy := some hookName
        reason := some reason
        result := none }
      (.error (.hookChainBlocked hookName reason (ctx.leaving left))) []
  | (.ok (), given) =>
    match toolFn given with
    | (.error exc, left) =>
      if exc.isException then
        match exc.text with
        | .error again => ⟨.error again, chain.auditLog, [given]⟩
        | .ok text =>
          chain.close ctx
            { ctx := chain.redactedCtx P (ctx.leaving left)
              blockedBy := none
              reason := none
              result := none
              error := some text }
            (.error exc) [given]
      else ⟨.error exc, chain.auditLog, [given]⟩
    | (.ok result, left) =>
      match runPost (ctx.leaving left) result chain.hooks with
      | (.error exc, _) => ⟨.error exc, chain.auditLog, [given]⟩
      | (.ok (), kept) =>
        chain.close ctx
          { ctx := chain.redactedCtx P (ctx.leaving kept)
            blockedBy := none
            reason := none
            result := some result }
          (.ok result) [given]

end HookChain

end SdlcOs.Hooks
