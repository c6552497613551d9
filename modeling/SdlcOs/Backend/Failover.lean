/-
Calls of a model on Bedrock: retries in one region, and fail-over to
others and to other models (orchestrator/bedrock_backend.py).

# The outside

What a call of `converse` comes to may depend on all calls before it. A
call that times out is left to itself. The waits between attempts and the
log are left out, and so are the fields of the configuration that only
they read.

# Errors

An error keeps the configuration of the entry it is about and what its
text says of the cause.
-/
import Mathlib.Data.Rat.Defs

namespace SdlcOs.Failover

-- ==== the calls

/-- `BedrockBackendConfig`. -/
structure BedrockBackendConfig where
  modelId : String
  regionName : String := "us-east-1"
  timeoutSeconds : ℚ := 180
  maxRetries : Int := 3
  deriving DecidableEq, Repr

/-- The arguments of `converse`: `modelId`, if there is one, and the
others. -/
structure RequestKwargs (κ : Type) where
  modelId : Option String
  others : κ
  deriving DecidableEq, Repr

/-- A call of `converse`. -/
structure Converse (γ κ : Type) where
  client : γ
  request : RequestKwargs κ
  deriving DecidableEq, Repr

/-- What a call comes to. -/
inductive Outcome (ρ : Type) : Type where
  | response (r : ρ)
  | timeout
  /-- `ClientError`, with the code and message of its response. -/
  | clientError (code message : String) (httpStatusCode : Option Int)
  | botoCoreError (text : String)
  deriving DecidableEq, Repr

/-- What was worth another attempt. -/
inductive Transient : Type where
  | timeout
  | throttling (code message : String)
  | connection (text : String)
  deriving DecidableEq, Repr

/-- What is raised. -/
inductive BedrockError : Type where
  /-- `BedrockThrottledError`. -/
  | throttled (config : BedrockBackendConfig) (last : Option Transient)
  /-- `BedrockAccessDeniedError`. -/
  | accessDenied (config : BedrockBackendConfig) (code message : String)
  /-- `BedrockInvocationError`. -/
  | invocation (config : BedrockBackendConfig) (code message : String)
      (httpStatusCode : Option Int)
  | assertionError
  deriving DecidableEq, Repr

/-- `_THROTTLING_ERROR_CODES`. -/
def throttlingErrorCodes : List String :=
  ["ThrottlingException", "TooManyRequestsException",
    "ServiceUnavailableException", "ModelTimeoutException",
    "ModelNotReadyException", "InternalServerException"]

/-- `_ACCESS_DENIED_ERROR_CODES`. -/
def accessDeniedErrorCodes : List String :=
  ["AccessDeniedException", "UnrecognizedClientException",
    "ExpiredTokenException"]

variable {γ κ ρ : Type}

/-- What a call comes to, by all calls up to it. -/
abbrev Oracle (γ κ ρ : Type) : Type := List (Converse γ κ) → Outcome ρ

section Calls

variable (oracle : Oracle γ κ ρ)

-- ==== one region

/-- The loop of `_call_converse_with_retry_one_region`, with as many
attempts as are left, after some calls. -/
def attemptLoop (call : Converse γ κ) (config : BedrockBackendConfig) :
    Nat → List (Converse γ κ) →
      Except BedrockError ρ × List (Converse γ κ)
  | 0, calls => (.error (.throttled config none), calls)
  | left + 1, calls =>
    match oracle (calls ++ [call]) with
    | .response r => (.ok r, calls ++ [call])
    | .timeout =>
      if left = 0 then
        (.error (.throttled config (some .timeout)), calls ++ [call])
      else attemptLoop call config left (calls ++ [call])
    | .clientError code message httpStatusCode =>
      if code ∈ accessDeniedErrorCodes then
        (.error (.accessDenied config code message), calls ++ [call])
      else if code ∈ throttlingErrorCodes then
        if left = 0 then
          (.error (.throttled config (some (.throttling code message))),
            calls ++ [call])
        else attemptLoop call config left (calls ++ [call])
      else
        (.error (.invocation config code message httpStatusCode),
          calls ++ [call])
    | .botoCoreError text =>
      if left = 0 then
        (.error (.throttled config (some (.connection text))),
          calls ++ [call])
      else attemptLoop call config left (calls ++ [call])

/-- `_call_converse_with_retry_one_region`. -/
def callConverseWithRetryOneRegion (client : γ) (request : RequestKwargs κ)
    (config : BedrockBackendConfig) (calls : List (Converse γ κ)) :
    Except BedrockError ρ × List (Converse γ κ) :=
  attemptLoop oracle ⟨client, request⟩ config config.maxRetries.toNat calls

-- ==== fail-over

/-- An entry of `attempts`. -/
structure Attempt (γ : Type) where
  client : γ
  config : BedrockBackendConfig
  modelId : String
  deriving DecidableEq, Repr

/-- `attempts`: every region for one model, then for the next. -/
def attemptsOf (client : γ) (config : BedrockBackendConfig)
    (fallbackClients : List (γ × String)) (fallbackModels : List String) :
    List (Attempt γ) :=
  (config.modelId :: fallbackModels.filter (· ≠ config.modelId)).flatMap
    fun modelId => ((client, config.regionName) :: fallbackClients).map
      fun region => ⟨region.1,
        { config with regionName := region.2, modelId := modelId }, modelId⟩

/-- `attempts[index]` for each `index` in `order`, from `start` on. -/
def orderFrom (start : Nat) (attempts : List (Attempt γ)) :
    List (Attempt γ × Nat) :=
  attempts.zipIdx.drop start ++ attempts.zipIdx.take start

/-- `attempt_request_kwargs`. -/
def attemptRequest (request : RequestKwargs κ) (modelId : String) :
    RequestKwargs κ :=
  if request.modelId = some modelId then request
  else { request with modelId := some modelId }

/-- The loop of `call_converse_with_retry`: its result, the index of the
entry that answered, and all calls. -/
def failoverLoop (request : RequestKwargs κ) :
    List (Attempt γ × Nat) → Option BedrockError → List (Converse γ κ) →
      Except BedrockError ρ × Option Nat × List (Converse γ κ)
  | [], lastError, calls =>
    (.error (lastError.getD .assertionError), none, calls)
  | (attempt, index) :: rest, _, calls =>
    match callConverseWithRetryOneRegion oracle attempt.client
      (attemptRequest request attempt.modelId) attempt.config calls with
    | (.ok r, calls) => (.ok r, some index, calls)
    | (.error (.throttled config last), calls) =>
      failoverLoop request rest (some (.throttled config last)) calls
    | (.error e, calls) => (.error e, none, calls)

/-- What `call_converse_with_retry` comes to: its result, `sticky_state`
after it, and the calls it made. -/
structure Answer (γ κ ρ : Type) where
  result : Except BedrockError ρ
  stickyState : Option (Option Int)
  calls : List (Converse γ κ)

/-- `start`; `sticky_state` may be `None`, and may have no index yet. -/
def startOf (stickyState : Option (Option Int)) (count : Nat) : Nat :=
  (stickyState.elim 0 fun index => index.getD 0 % count).toNat

/-- `call_converse_with_retry`. -/
def callConverseWithRetry (client : γ) (request : RequestKwargs κ)
    (config : BedrockBackendConfig) (fallbackClients : List (γ × String))
    (fallbackModels : List String) (stickyState : Option (Option Int)) :
    Answer γ κ ρ :=
  let attempts := attemptsOf client config fallbackClients fallbackModels
  let answer := failoverLoop oracle request
    (orderFrom (startOf stickyState attempts.length) attempts) none []
  ⟨answer.1,
    answer.2.1.elim stickyState fun index =>
      stickyState.map fun _ => some (index : Int),
    answer.2.2⟩

end Calls

end SdlcOs.Failover
