/-
What the chain of hooks promises of a tool call, and when it keeps it.

# The audit log

A dispatch has five ends: a hook raises before the tool runs, or blocks
it, the tool raises, a hook raises after it, or all goes well; shipping
the event may raise besides. The record is written before anything is
shipped, so shipping loses none. It is lost when a hook raises after the
tool has run, and when the tool raises what is no `Exception`, or one that
raises in turn when its text is asked for (`every_call_audited`).

# Secrets

Redaction looks at the keys of the arguments themselves and at none
below, and at the arguments as they are once the call is over: hooks and
tool have had the same object in hand. A record hides what it must, and
shows the rest as it was, exactly if what they leave of each argument that
has no marked key has no secret in it and is otherwise as it was
(`secrets_hidden`).

# Destructive commands

What a command does is in its words; what the hook looks for is a fixed
text. A destructive command is stopped exactly if its text has one of the
spellings that are looked for (`destructive_stopped`).
-/
import Mathlib.Data.List.Forall2
import SdlcOs.Gates.Service
import SdlcOs.Orchestrator.Hooks

namespace SdlcOs.Hooks

open Json (Json)

variable {φ ρ : Type} (P : Platform φ)

-- ==== before a call

/-- The hooks let a call pass, one after the other, and leave it with some
arguments. -/
inductive Passes : List (Hook φ ρ) → ToolCallContext φ → Arguments φ → Prop
  | nil {ctx : ToolCallContext φ} : Passes [] ctx ctx.arguments
  | cons {hook : Hook φ ρ} {hooks : List (Hook φ ρ)}
      {ctx : ToolCallContext φ} {reason : String}
      {left given : Arguments φ} :
      hook.preToolUse ctx = (.ok ⟨.allow, reason⟩, left) →
      Passes hooks (ctx.leaving left) given →
      Passes (hook :: hooks) ctx given

/-- Of the hooks that are asked, all but the last let a call pass, and the
last one blocks it. -/
inductive BlockedBy : List (Hook φ ρ) → ToolCallContext φ → String →
    String → Arguments φ → Prop
  | here {hook : Hook φ ρ} {hooks : List (Hook φ ρ)}
      {ctx : ToolCallContext φ} {reason : String} {left : Arguments φ} :
      hook.preToolUse ctx = (.ok ⟨.block, reason⟩, left) →
      BlockedBy (hook :: hooks) ctx hook.className reason left
  | later {hook : Hook φ ρ} {hooks : List (Hook φ ρ)}
      {ctx : ToolCallContext φ} {r hookName reason : String}
      {left last : Arguments φ} :
      hook.preToolUse ctx = (.ok ⟨.allow, r⟩, left) →
      BlockedBy hooks (ctx.leaving left) hookName reason last →
      BlockedBy (hook :: hooks) ctx hookName reason last

variable {P} {ctx : ToolCallContext φ} {hooks : List (Hook φ ρ)}
variable {given left kept : Arguments φ}

theorem runPre_ok :
    HookChain.runPre ctx hooks = (.ok (), given) ↔
      Passes hooks ctx given := by
  constructor
  · intro h
    induction hooks generalizing ctx with
    | nil =>
      rw [HookChain.runPre, Prod.mk.injEq] at h
      rw [← h.2]
      exact .nil
    | cons hook hooks ih =>
      rw [HookChain.runPre] at h
      rcases hpre : hook.preToolUse ctx with ⟨exc | pre, left⟩
      · rw [hpre] at h
        cases h
      · obtain ⟨decision, reason⟩ := pre
        rw [hpre] at h
        cases decision with
        | allow => exact .cons hpre (ih h)
        | block => cases h
  · intro h
    induction h with
    | nil => rfl
    | cons hpre _ ih =>
      rw [HookChain.runPre, hpre]
      exact ih

theorem runPre_blocked {hookName reason : String} :
    HookChain.runPre ctx hooks = (.error (.inr (hookName, reason)), left) ↔
      BlockedBy hooks ctx hookName reason left := by
  constructor
  · intro h
    induction hooks generalizing ctx with
    | nil => cases h
    | cons hook hooks ih =>
      rw [HookChain.runPre] at h
      rcases hpre : hook.preToolUse ctx with ⟨exc | pre, between⟩
      · rw [hpre] at h
        cases h
      · obtain ⟨decision, r⟩ := pre
        rw [hpre] at h
        cases decision with
        | allow => exact .later hpre (ih h)
        | block =>
          cases h
          exact .here hpre
  · intro h
    induction h with
    | here hpre =>
      rw [HookChain.runPre, hpre]
      rfl
    | later hpre _ ih =>
      rw [HookChain.runPre, hpre]
      exact ih

theorem Passes.split {before after : List (Hook φ ρ)}
    (h : Passes (before ++ after) ctx given) :
    ∃ shown, Passes before ctx shown ∧
      Passes after (ctx.leaving shown) given := by
  induction before generalizing ctx with
  | nil => exact ⟨ctx.arguments, .nil, h⟩
  | cons hook before ih =>
    cases h with
    | cons hpre hrest =>
      obtain ⟨shown, hbefore, hafter⟩ := ih hrest
      exact ⟨shown, .cons hpre hbefore, hafter⟩

-- ==== after a call

/-- No hook raises after a call, and they leave it with some arguments. -/
inductive Follows (result : ρ) : List (Hook φ ρ) → ToolCallContext φ →
    Arguments φ → Prop
  | nil {ctx : ToolCallContext φ} : Follows result [] ctx ctx.arguments
  | cons {hook : Hook φ ρ} {hooks : List (Hook φ ρ)}
      {ctx : ToolCallContext φ} {left kept : Arguments φ} :
      hook.postToolUse ctx result = (.ok (), left) →
      Follows result hooks (ctx.leaving left) kept →
      Follows result (hook :: hooks) ctx kept

theorem runPost_ok {result : ρ} :
    HookChain.runPost ctx result hooks = (.ok (), kept) ↔
      Follows result hooks ctx kept := by
  constructor
  · intro h
    induction hooks generalizing ctx with
    | nil =>
      rw [HookChain.runPost, Prod.mk.injEq] at h
      rw [← h.2]
      exact .nil
    | cons hook hooks ih =>
      rw [HookChain.runPost] at h
      rcases hpost : hook.postToolUse ctx result with ⟨exc | u, left⟩
      · rw [hpost] at h
        cases h
      · rw [hpost] at h
        exact .cons hpost (ih h)
  · intro h
    induction h with
    | nil => rfl
    | cons hpost _ ih =>
      rw [HookChain.runPost, hpost]
      exact ih

-- ==== the ends

variable {chain : HookChain φ ρ} {toolFn : Tool φ ρ}

theorem dispatch_blocked {hookName reason : String}
    (h : BlockedBy chain.hooks ctx hookName reason left) :
    chain.dispatch P ctx toolFn =
      chain.close ctx
        { ctx := chain.redactedCtx P (ctx.leaving left)
          blockedBy := some hookName
          reason := some reason
          result := none }
        (.error (.hookChainBlocked hookName reason (ctx.leaving left)))
        [] := by
  rw [HookChain.dispatch, runPre_blocked.mpr h]

theorem dispatch_prevented
    (hblocked : ¬ ∃ hookName reason left,
      BlockedBy chain.hooks ctx hookName reason left)
    (hpasses : ¬ ∃ given, Passes chain.hooks ctx given) :
    (chain.dispatch P ctx toolFn).auditLog = chain.auditLog ∧
      (chain.dispatch P ctx toolFn).toolCalls = [] := by
  rw [HookChain.dispatch]
  rcases hpre : HookChain.runPre ctx chain.hooks with ⟨e | u, left⟩
  · cases e with
    | inl exc => exact ⟨rfl, rfl⟩
    | inr b =>
      exact absurd ⟨b.1, b.2, left, runPre_blocked.mp hpre⟩ hblocked
  · exact absurd ⟨left, runPre_ok.mp hpre⟩ hpasses

theorem dispatch_passed (h : Passes chain.hooks ctx given) :
    (chain.dispatch P ctx toolFn).toolCalls = [given] := by
  rw [HookChain.dispatch, runPre_ok.mpr h]
  dsimp only
  rcases toolFn given with ⟨exc | result, left⟩
  · dsimp only
    split
    · cases exc.text with
      | error again => rfl
      | ok text => rfl
    · rfl
  · dsimp only
    rcases HookChain.runPost (ctx.leaving left) result chain.hooks with
      ⟨exc | u, kept⟩
    · rfl
    · rfl

theorem dispatch_raised {exc : Raised φ} {text : String}
    (h : Passes chain.hooks ctx given)
    (htool : toolFn given = (.error exc, left))
    (hexc : exc.isException = true) (htext : exc.text = .ok text) :
    (chain.dispatch P ctx toolFn).auditLog =
      chain.auditLog ++
        [{ ctx := chain.redactedCtx P (ctx.leaving left)
           blockedBy := none
           reason := none
           result := none
           error := some text }] := by
  rw [HookChain.dispatch, runPre_ok.mpr h]
  dsimp only
  rw [htool]
  dsimp only
  rw [if_pos hexc, htext]
  rfl

theorem dispatch_lost {exc : Raised φ} (h : Passes chain.hooks ctx given)
    (htool : toolFn given = (.error exc, left))
    (hexc : ¬ (exc.isException = true ∧ ∃ text, exc.text = .ok text)) :
    (chain.dispatch P ctx toolFn).auditLog = chain.auditLog := by
  rw [HookChain.dispatch, runPre_ok.mpr h]
  dsimp only
  rw [htool]
  dsimp only
  split
  · rename_i hcaught
    cases htext : exc.text with
    | error again => rfl
    | ok text => exact absurd ⟨hcaught, text, htext⟩ hexc
  · rfl

theorem dispatch_returned {result : ρ} (h : Passes chain.hooks ctx given)
    (htool : toolFn given = (.ok result, left))
    (hpost : Follows result chain.hooks (ctx.leaving left) kept) :
    (chain.dispatch P ctx toolFn).auditLog =
      chain.auditLog ++
        [{ ctx := chain.redactedCtx P (ctx.leaving kept)
           blockedBy := none
           reason := none
           result := some result }] := by
  rw [HookChain.dispatch, runPre_ok.mpr h]
  dsimp only
  rw [htool]
  dsimp only
  rw [runPost_ok.mpr hpost]
  rfl

theorem dispatch_unrecorded {result : ρ} (h : Passes chain.hooks ctx given)
    (htool : toolFn given = (.ok result, left))
    (hpost : ¬ ∃ kept, Follows result chain.hooks (ctx.leaving left) kept) :
    (chain.dispatch P ctx toolFn).auditLog = chain.auditLog := by
  rw [HookChain.dispatch, runPre_ok.mpr h]
  dsimp only
  rw [htool]
  dsimp only
  rcases hrun : HookChain.runPost (ctx.leaving left) result chain.hooks with
    ⟨exc | u, kept⟩
  · rfl
  · exact absurd ⟨kept, runPost_ok.mp hrun⟩ hpost

-- ==== the audit

/-- What the audit log is for. -/
structure Audited (P : Platform φ) (chain : HookChain φ ρ)
    (ctx : ToolCallContext φ) (toolFn : Tool φ ρ) : Prop where
  once : (chain.dispatch P ctx toolFn).toolCalls.length ≤ 1
  allowed : ∀ given ∈ (chain.dispatch P ctx toolFn).toolCalls,
    Passes chain.hooks ctx given
  blocked : ∀ hookName reason left,
    BlockedBy chain.hooks ctx hookName reason left →
    ∃ record : ToolCallRecord φ ρ,
      (chain.dispatch P ctx toolFn).auditLog = chain.auditLog ++ [record] ∧
      record.blockedBy = some hookName ∧ record.reason = some reason ∧
      record.error = none ∧ record.result = none
  raised : ∀ given ∈ (chain.dispatch P ctx toolFn).toolCalls,
    ∀ exc, (toolFn given).1 = .error exc →
    ∃ (record : ToolCallRecord φ ρ) (text : String),
      (chain.dispatch P ctx toolFn).auditLog = chain.auditLog ++ [record] ∧
      record.blockedBy = none ∧ exc.text = .ok text ∧
      record.error = some text ∧ record.result = none
  returned : ∀ given ∈ (chain.dispatch P ctx toolFn).toolCalls,
    ∀ result, (toolFn given).1 = .ok result →
    ∃ record : ToolCallRecord φ ρ,
      (chain.dispatch P ctx toolFn).auditLog = chain.auditLog ++ [record] ∧
      record.blockedBy = none ∧ record.error = none ∧
      record.result = some result

theorem toolCalls_eq (P : Platform φ) (chain : HookChain φ ρ)
    (ctx : ToolCallContext φ) (toolFn : Tool φ ρ) :
    (∃ given, Passes chain.hooks ctx given ∧
        (chain.dispatch P ctx toolFn).toolCalls = [given]) ∨
      (¬ ∃ given, Passes chain.hooks ctx given) ∧
        (chain.dispatch P ctx toolFn).toolCalls = [] := by
  by_cases hpasses : ∃ given, Passes chain.hooks ctx given
  · obtain ⟨given, h⟩ := hpasses
    exact .inl ⟨given, h, dispatch_passed h⟩
  · refine .inr ⟨hpasses, ?_⟩
    by_cases hblocked : ∃ hookName reason left,
        BlockedBy chain.hooks ctx hookName reason left
    · obtain ⟨hookName, reason, left, h⟩ := hblocked
      rw [dispatch_blocked h]
      rfl
    · exact (dispatch_prevented hblocked hpasses).2

theorem passes_of_toolCalls
    (h : given ∈ (chain.dispatch P ctx toolFn).toolCalls) :
    Passes chain.hooks ctx given := by
  rcases toolCalls_eq P chain ctx toolFn with hcalls | hcalls
  · obtain ⟨passed, hpasses, hcalls⟩ := hcalls
    rw [hcalls, List.mem_singleton] at h
    rw [h]
    exact hpasses
  · rw [hcalls.2] at h
    cases h

theorem log_ne {log : List (ToolCallRecord φ ρ)}
    {record : ToolCallRecord φ ρ} (h : log = log ++ [record]) : False := by
  have hlength := congrArg List.length h
  rw [List.length_append, List.length_singleton] at hlength
  omega

/-- Every call is audited if, once all hooks let it pass, the tool raises
nothing but exceptions that have a text, and no hook raises after the
tool. -/
theorem every_call_audited (P : Platform φ) (chain : HookChain φ ρ)
    (ctx : ToolCallContext φ) (toolFn : Tool φ ρ) :
    Audited P chain ctx toolFn ↔
      ∀ given, Passes chain.hooks ctx given →
        (∀ exc left, toolFn given = (.error exc, left) →
          exc.isException = true ∧ ∃ text, exc.text = .ok text) ∧
        ∀ result left, toolFn given = (.ok result, left) →
          ∃ kept, Follows result chain.hooks (ctx.leaving left) kept := by
  constructor
  · intro haudited given hpasses
    have hcalled : given ∈ (chain.dispatch P ctx toolFn).toolCalls := by
      rw [dispatch_passed hpasses]
      exact List.mem_singleton.mpr rfl
    constructor
    · intro exc left htool
      by_contra hexc
      obtain ⟨record, text, hlog, -⟩ :=
        haudited.raised given hcalled exc (by rw [htool])
      rw [dispatch_lost hpasses htool hexc] at hlog
      exact log_ne hlog
    · intro result left htool
      by_contra hpost
      obtain ⟨record, hlog, -⟩ :=
        haudited.returned given hcalled result (by rw [htool])
      rw [dispatch_unrecorded hpasses htool hpost] at hlog
      exact log_ne hlog
  · intro h
    constructor
    · rcases toolCalls_eq P chain ctx toolFn with hcalls | hcalls
      · obtain ⟨given, -, hcalls⟩ := hcalls
        rw [hcalls]
        exact Nat.le_refl 1
      · rw [hcalls.2]
        exact Nat.zero_le 1
    · intro given hcalled
      exact passes_of_toolCalls hcalled
    · intro hookName reason left hblocked
      rw [dispatch_blocked hblocked]
      exact ⟨_, rfl, rfl, rfl, rfl, rfl⟩
    · intro given hcalled exc hraised
      have hpasses := passes_of_toolCalls hcalled
      have htool : toolFn given = (.error exc, (toolFn given).2) := by
        rw [← hraised]
      obtain ⟨hexc, text, htext⟩ := (h given hpasses).1 exc _ htool
      rw [dispatch_raised hpasses htool hexc htext]
      exact ⟨_, text, rfl, rfl, htext, rfl, rfl⟩
    · intro given hcalled result hreturned
      have hpasses := passes_of_toolCalls hcalled
      have htool : toolFn given = (.ok result, (toolFn given).2) := by
        rw [← hreturned]
      obtain ⟨kept, hpost⟩ := (h given hpasses).2 result _ htool
      rw [dispatch_returned hpasses htool hpost]
      exact ⟨_, rfl, rfl, rfl, rfl⟩

/-- A platform with the lower case of ASCII. -/
def asciiPlatform : Platform Unit where
  lower := fun s => .ofList (s.toList.map Char.toLower)
  strOther := fun _ => ""
  nonzero := fun _ => true

/-- A call with some arguments. -/
def callWith (arguments : Arguments Unit) : ToolCallContext Unit where
  toolName := "shell_exec"
  arguments := arguments
  invokingSkill := "release-cutter"
  stage := "implementation"
  runId := "run-1"

/-- A tool that leaves its arguments alone and has no more to say. -/
def quietTool : Tool Unit Nat :=
  fun arguments => (.ok 0, arguments)

/-- A hook that raises after the tool. -/
def postHookThatRaises : Hook Unit Nat where
  className := "AuditHook"
  postToolUse := fun ctx _ =>
    (.error (.exception "ValueError" "no room"), ctx.arguments)

/-- A tool that has run, and of which the log knows nothing. -/
theorem call_unrecorded :
    ¬ Audited asciiPlatform ⟨[postHookThatRaises], [], none, none⟩
      (callWith [("command", .str "ls")]) quietTool := by
  intro haudited
  obtain ⟨record, hlog, -⟩ := haudited.returned
    [("command", .str "ls")] (List.mem_singleton.mpr rfl) 0 rfl
  cases hlog

-- ==== secrets

variable (P)

mutual

/-- A value with what stands under a marked key hidden, at any depth. -/
def redactValue : Json φ → Json φ
  | .null => .null
  | .bool b => .bool b
  | .int n => .int n
  | .float x => .float x
  | .str s => .str s
  | .arr items => .arr (redactItems items)
  | .obj members => .obj (redactMembers members)

/-- The items of an array, each with its secrets hidden. -/
def redactItems : List (Json φ) → List (Json φ)
  | [] => []
  | v :: vs => redactValue v :: redactItems vs

/-- The members of an object, with their secrets hidden. -/
def redactMembers : List (String × Json φ) → List (String × Json φ)
  | [] => []
  | (k, v) :: ms =>
    (k, if isMarked P k then placeholder else redactValue v) ::
      redactMembers ms

end

mutual

/-- No marked key in a value holds anything but the placeholder, unless it
stands below another marked key. -/
def Clean : Json φ → Prop
  | .null => True
  | .bool _ => True
  | .int _ => True
  | .float _ => True
  | .str _ => True
  | .arr items => CleanItems items
  | .obj members => CleanMembers members

/-- The items of a clean array. -/
def CleanItems : List (Json φ) → Prop
  | [] => True
  | v :: vs => Clean v ∧ CleanItems vs

/-- The members of a clean object. -/
def CleanMembers : List (String × Json φ) → Prop
  | [] => True
  | (k, v) :: ms =>
    (if isMarked P k then v = placeholder else Clean v) ∧ CleanMembers ms

end

variable {P}

mutual

theorem redactValue_eq : ∀ v : Json φ, redactValue P v = v ↔ Clean P v
  | .null => by simp [redactValue, Clean]
  | .bool b => by simp [redactValue, Clean]
  | .int n => by simp [redactValue, Clean]
  | .float x => by simp [redactValue, Clean]
  | .str s => by simp [redactValue, Clean]
  | .arr items => by
    rw [redactValue, Clean, Json.arr.injEq]
    exact redactItems_eq items
  | .obj members => by
    rw [redactValue, Clean, Json.obj.injEq]
    exact redactMembers_eq members

theorem redactItems_eq :
    ∀ vs : List (Json φ), redactItems P vs = vs ↔ CleanItems P vs
  | [] => by simp [redactItems, CleanItems]
  | v :: vs => by
    rw [redactItems, CleanItems, List.cons.injEq, redactValue_eq v,
      redactItems_eq vs]

theorem redactMembers_eq :
    ∀ ms : List (String × Json φ),
      redactMembers P ms = ms ↔ CleanMembers P ms
  | [] => by simp [redactMembers, CleanMembers]
  | (k, v) :: ms => by
    rw [redactMembers, CleanMembers, List.cons.injEq, Prod.mk.injEq,
      redactMembers_eq ms]
    by_cases hk : isMarked P k = true
    · rw [if_pos hk, if_pos hk]
      simp [eq_comm]
    · rw [if_neg hk, if_neg hk, redactValue_eq v]
      simp

end

/-- What is left of some arguments has their keys, in their order, and
under each that is not marked their value, with its secrets hidden. -/
def Alike (P : Platform φ) (left arguments : Arguments φ) : Prop :=
  List.Forall₂
    (fun a b => a.1 = b.1 ∧
      (isMarked P b.1 = false → a.2 = redactValue P b.2))
    left arguments

/-- The redaction of what is left agrees with the one that looks below the
arguments' own keys if what is left is like the arguments. -/
theorem redact_eq {left arguments : Arguments φ} :
    redact P left = redactMembers P arguments ↔
      Alike P left arguments := by
  induction arguments generalizing left with
  | nil => simp [redact, redactMembers, Alike]
  | cons b rest ih =>
    cases left with
    | nil => simp [redact, redactMembers, Alike]
    | cons a left =>
      obtain ⟨k, v⟩ := b
      rw [Alike, List.forall₂_cons, ← Alike, ← ih, redact,
        List.map_cons, redactMembers, List.cons.injEq, Prod.mk.injEq,
        ← redact]
      by_cases hk : a.1 = k
      · by_cases hmarked : isMarked P k = true
        · simp [hk, hmarked]
        · simp [hk, hmarked]
      · simp [hk]

/-- Arguments are like themselves if what is under their unmarked keys is
clean. -/
theorem alike_self {arguments : Arguments φ} :
    Alike P arguments arguments ↔
      ∀ a ∈ arguments, isMarked P a.1 = false → Clean P a.2 := by
  rw [Alike, List.forall₂_same]
  apply forall₂_congr
  intro a _
  rw [eq_comm (b := redactValue P a.2), redactValue_eq]
  simp

theorem redact_redact (arguments : Arguments φ) :
    redact P (redact P arguments) = redact P arguments := by
  rw [redact, redact, List.map_map]
  apply List.map_congr_left
  intro a _
  by_cases hk : isMarked P a.1 = true
  · simp [hk]
  · simp [hk]

theorem foldl_redact (hooks : List (Hook φ ρ)) (arguments : Arguments φ) :
    hooks.foldl (fun a _ => redact P a) (redact P arguments) =
      redact P arguments := by
  induction hooks with
  | nil => rfl
  | cons hook hooks ih =>
    rw [List.foldl_cons, redact_redact]
    exact ih

theorem redactedCtx_eq (h : ∃ hook ∈ chain.hooks, hook.redacts = true) :
    (chain.redactedCtx P ctx).arguments = redact P ctx.arguments := by
  show (chain.hooks.filter _).foldl _ _ = _
  obtain ⟨hook, hmem, hredacts⟩ := h
  cases hfilter : chain.hooks.filter (·.redacts) with
  | nil =>
    rw [List.filter_eq_nil_iff] at hfilter
    exact absurd hredacts (hfilter hook hmem)
  | cons first rest =>
    rw [List.foldl_cons]
    exact foldl_redact rest ctx.arguments

variable (P chain ctx toolFn)

/-- The inputs on which a record is written, and the arguments as they are
at that moment. -/
def Recorded (chain : HookChain φ ρ) (ctx : ToolCallContext φ)
    (toolFn : Tool φ ρ) (kept : Arguments φ) : Prop :=
  (∃ hookName reason,
      BlockedBy chain.hooks ctx hookName reason kept) ∨
    ∃ given, Passes chain.hooks ctx given ∧
      ((∃ exc text, toolFn given = (.error exc, kept) ∧
          exc.isException = true ∧ exc.text = .ok text) ∨
        ∃ result left, toolFn given = (.ok result, left) ∧
          Follows result chain.hooks (ctx.leaving left) kept)

/-- The records of a call show its arguments with their secrets hidden and
nothing else changed, and the tool gets the arguments as they are. -/
structure Hidden (P : Platform φ) (chain : HookChain φ ρ)
    (ctx : ToolCallContext φ) (toolFn : Tool φ ρ) : Prop where
  recorded : ∃ records,
    (chain.dispatch P ctx toolFn).auditLog = chain.auditLog ++ records ∧
    ∀ record ∈ records,
      record.ctx.arguments = redactMembers P ctx.arguments
  real : ∀ arguments ∈ (chain.dispatch P ctx toolFn).toolCalls,
    arguments = ctx.arguments

variable {P chain ctx toolFn}

/-- On the inputs on which a record is written, one is, with the context
as it is redacted. -/
theorem log_recorded (h : Recorded chain ctx toolFn kept) :
    ∃ record : ToolCallRecord φ ρ,
      (chain.dispatch P ctx toolFn).auditLog = chain.auditLog ++ [record] ∧
      record.ctx = chain.redactedCtx P (ctx.leaving kept) := by
  rcases h with h | h
  · obtain ⟨hookName, reason, hblocked⟩ := h
    rw [dispatch_blocked hblocked]
    exact ⟨_, rfl, rfl⟩
  · obtain ⟨given, hpasses, hraised | hreturned⟩ := h
    · obtain ⟨exc, text, htool, hexc, htext⟩ := hraised
      rw [dispatch_raised hpasses htool hexc htext]
      exact ⟨_, rfl, rfl⟩
    · obtain ⟨result, left, htool, hpost⟩ := hreturned
      rw [dispatch_returned hpasses htool hpost]
      exact ⟨_, rfl, rfl⟩

theorem log_unrecorded (h : ¬ ∃ kept, Recorded chain ctx toolFn kept) :
    (chain.dispatch P ctx toolFn).auditLog = chain.auditLog := by
  by_cases hpasses : ∃ given, Passes chain.hooks ctx given
  · obtain ⟨given, hpasses⟩ := hpasses
    rcases htool : toolFn given with ⟨exc | result, left⟩
    · apply dispatch_lost hpasses htool
      intro hexc
      obtain ⟨hexc, text, htext⟩ := hexc
      exact h ⟨left, .inr ⟨given, hpasses,
        .inl ⟨exc, text, htool, hexc, htext⟩⟩⟩
    · apply dispatch_unrecorded hpasses htool
      intro hpost
      obtain ⟨kept, hpost⟩ := hpost
      exact h ⟨kept, .inr ⟨given, hpasses,
        .inr ⟨result, left, htool, hpost⟩⟩⟩
  · refine (dispatch_prevented ?_ hpasses).1
    intro hblocked
    obtain ⟨hookName, reason, left, hblocked⟩ := hblocked
    exact h ⟨left, .inl ⟨hookName, reason, hblocked⟩⟩

/-- In a chain that redacts, a call's secrets are hidden if the hooks hand
the arguments on as they are and, where a record of the call is written,
what is left of the arguments is like them. -/
theorem secrets_hidden (P : Platform φ) (chain : HookChain φ ρ)
    (ctx : ToolCallContext φ) (toolFn : Tool φ ρ) :
    ((∃ hook ∈ chain.hooks, hook.redacts = true) →
      Hidden P chain ctx toolFn) ↔
    ((∃ hook ∈ chain.hooks, hook.redacts = true) →
      (∀ given, Passes chain.hooks ctx given → given = ctx.arguments) ∧
      ∀ kept, Recorded chain ctx toolFn kept →
        Alike P kept ctx.arguments) := by
  constructor
  · intro hhidden hredacts
    constructor
    · intro given hpasses
      apply (hhidden hredacts).real
      rw [dispatch_passed hpasses]
      exact List.mem_singleton.mpr rfl
    · intro kept hrecorded
      obtain ⟨records, hlog, hshown⟩ := (hhidden hredacts).recorded
      obtain ⟨record, hwritten, hctx⟩ := log_recorded (P := P) hrecorded
      rw [hwritten, List.append_cancel_left_eq] at hlog
      have hargs := hshown record (by rw [← hlog]; simp)
      rw [hctx, redactedCtx_eq hredacts] at hargs
      exact redact_eq.mp hargs
  · intro hkept hredacts
    constructor
    · by_cases hrecorded : ∃ kept, Recorded chain ctx toolFn kept
      · obtain ⟨kept, hrecorded⟩ := hrecorded
        obtain ⟨record, hwritten, hctx⟩ := log_recorded (P := P) hrecorded
        refine ⟨[record], hwritten, ?_⟩
        intro r hmem
        rw [List.mem_singleton] at hmem
        rw [hmem, hctx, redactedCtx_eq hredacts]
        exact redact_eq.mpr ((hkept hredacts).2 kept hrecorded)
      · refine ⟨[], ?_, by simp⟩
        rw [log_unrecorded hrecorded, List.append_nil]
    · intro arguments hcalled
      exact (hkept hredacts).1 arguments (passes_of_toolCalls hcalled)

/-- A token under a header that is no secret itself. -/
theorem nested_token_shown :
    ¬ Hidden asciiPlatform ⟨[secretRedactionHook], [], none, none⟩
      (callWith [("headers", .obj [("auth_token", .str "s3cr3t")])])
      quietTool := by
  intro hhidden
  obtain ⟨records, hlog, hshown⟩ := hhidden.recorded
  have hrecords := hlog.trans (List.nil_append records)
  rw [← hrecords] at hshown
  have hargs := hshown _ (List.mem_singleton.mpr rfl)
  have hunmarked : isMarked asciiPlatform "headers" = false := by
    decide +kernel
  have hclean := alike_self.mp (redact_eq.mp hargs) _
    (List.mem_singleton.mpr rfl) hunmarked
  have hmarked : isMarked asciiPlatform "auth_token" = true := by
    decide +kernel
  rw [Clean, CleanMembers, if_pos hmarked, placeholder] at hclean
  have htext := Json.str.inj hclean.1
  revert htext
  decide +kernel

-- ==== destructive commands

/-- The simple commands of a text, between `;`, `&&`, `||` and `|`; the
empty ones among them have no words. -/
def simpleCommands : List Char → List (List Char)
  | [] => [[]]
  | '&' :: '&' :: s => [] :: simpleCommands s
  | c :: s =>
    if c = ';' ∨ c = '|' then [] :: simpleCommands s
    else
      match simpleCommands s with
      | first :: rest => (c :: first) :: rest
      | [] => [[c]]

/-- The words of a text, between spaces. -/
def wordsOf (s : List Char) : List String :=
  ((s.splitOnP Gates.isSpace).filter (· ≠ [])).map .ofList

/-- The letters of the options among some words, in lower case. -/
def optionLetters (words : List String) : List Char :=
  (words.filter fun w => w.toList.head? = some '-').flatMap fun w =>
    w.toList.map Char.toLower

/-- What the words of a simple command destroy. -/
def destroys : List String → Bool
  | "git" :: "push" :: rest => rest.any fun w => w = "--force" || w = "-f"
  | "git" :: "reset" :: rest => rest.any fun w => w = "--hard"
  | "rm" :: rest =>
    (optionLetters rest).contains 'r' && (optionLetters rest).contains 'f'
  | _ => false

/-- A command that destroys what cannot be brought back. -/
def Destructive (command : String) : Prop :=
  ∃ simple ∈ simpleCommands command.toList, destroys (wordsOf simple) = true

/-- One of the texts that are looked for stands in the command. -/
def Spelled (P : Platform φ) (command : String) : Prop :=
  ∃ pattern ∈ destructiveShellPatterns,
    isIn pattern (P.lower command) = true

theorem commandOf_str {command : String}
    (h : ctx.arguments.lookup "command" = some (.str command)) :
    commandOf P ctx = P.lower command := by
  rw [commandOf, h]
  rfl

/-- A call whose command has one of the spellings does not pass the hook,
whichever hooks come after. -/
theorem spelled_stopped {command : String} (hspelled : Spelled P command)
    (h : ctx.arguments.lookup "command" = some (.str command)) :
    ¬ Passes (destructiveCommandHook P :: hooks) ctx given := by
  intro hpasses
  obtain ⟨pattern, hmem, hin⟩ := hspelled
  have hfound : (destructiveShellPatterns.find? fun p =>
      isIn p (commandOf P ctx)).isSome = true := by
    rw [List.find?_isSome, commandOf_str h]
    exact ⟨pattern, hmem, hin⟩
  obtain ⟨p, hp⟩ := Option.isSome_iff_exists.mp hfound
  cases hpasses with
  | cons hpre _ =>
    replace hpre : (Except.ok (DestructiveCommandHook.preToolUse P ctx),
      ctx.arguments) = _ := hpre
    rw [DestructiveCommandHook.preToolUse, hp] at hpre
    cases hpre

theorem unspelled_passes {command : String} (toolName : String)
    (hspelled : ¬ Spelled P command)
    (htool : toolName ≠ "git_push") :
    Passes [destructiveCommandHook (ρ := ρ) P]
      ⟨toolName, [("command", .str command)], "", "", ""⟩
      [("command", .str command)] := by
  have hfound : (destructiveShellPatterns.find? fun p =>
      isIn p (P.lower command)) = none := by
    rw [List.find?_eq_none]
    intro p hmem hin
    exact hspelled ⟨p, hmem, hin⟩
  have hpre : DestructiveCommandHook.preToolUse P
      ⟨toolName, [("command", .str command)], "", "", ""⟩ =
        ⟨.allow, ""⟩ := by
    rw [DestructiveCommandHook.preToolUse, commandOf_str rfl, hfound,
      destructiveToolFlags, if_neg htool]
    rfl
  exact .cons (congrArg (fun pre => (Except.ok pre, _)) hpre) .nil

/-- A destructive command that the hook is shown is kept from every tool if
it has one of the spellings that are looked for. -/
theorem destructive_stopped (P : Platform φ) (command : String) :
    (Destructive command →
      ∀ (chain : HookChain φ ρ) (ctx : ToolCallContext φ)
        (toolFn : Tool φ ρ) (before after : List (Hook φ ρ)),
        chain.hooks = before ++ destructiveCommandHook P :: after →
        (∀ shown, Passes before ctx shown →
          shown.lookup "command" = some (.str command)) →
        (chain.dispatch P ctx toolFn).toolCalls = []) ↔
    (Destructive command → Spelled P command) := by
  constructor
  · intro hstopped hdestructive
    by_contra hspelled
    have hpasses := unspelled_passes (ρ := ρ) "shell_exec" hspelled
      (by decide)
    have hcalls := hstopped hdestructive
      ⟨[destructiveCommandHook P], [], none, none⟩
      ⟨"shell_exec", [("command", .str command)], "", "", ""⟩
      (fun arguments => (.error (.exception "OSError" ""), arguments))
      [] [] rfl
      (by
        intro shown hshown
        cases hshown
        rfl)
    rw [dispatch_passed hpasses] at hcalls
    cases hcalls
  · intro hspelled hdestructive chain ctx toolFn before after hhooks
      hcommand
    rcases toolCalls_eq P chain ctx toolFn with h | h
    · obtain ⟨given, hpasses, -⟩ := h
      rw [hhooks] at hpasses
      obtain ⟨shown, hbefore, hafter⟩ := hpasses.split
      exact absurd hafter (spelled_stopped (hspelled hdestructive)
        (hcommand shown hbefore))
    · exact h.2

/-- The options of `rm` the other way round. -/
theorem options_reversed :
    Destructive "rm -fr /var/data" ∧
      (HookChain.dispatch asciiPlatform
        ⟨[destructiveCommandHook asciiPlatform], [], none, none⟩
        (callWith [("command", .str "rm -fr /var/data")])
        quietTool).toolCalls ≠ [] := by
  constructor
  · refine ⟨"rm -fr /var/data".toList, ?_, ?_⟩
    · decide +kernel
    · decide +kernel
  · decide +kernel

end SdlcOs.Hooks
