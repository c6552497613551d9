/-
Effect programs: code that reaches the outside world only by asking for
it, one atomic request at a time.

# The shape

A `Prog` is a finite tree: it returns, it raises, or it performs one
request and goes on with the answer. Nothing in this file says what a
request does; a `Machine` (System.lean) supplies that. Keeping the two
apart is what lets one text of a program serve a sequential reading
(Wp.lean), a reading under interference (Rely.lean) and an executable
one (`System.run`).

# Loops

A tree is finite along every branch, so an unbounded loop is not a tree:
it is a `body` whose results say whether to go round `again`. The
machine ties the knot.
-/
import Mathlib.Logic.Function.Basic

namespace SdlcOs.Effects

/-- A program over requests `Req`, answered in `Resp`, that may raise an
`X` and otherwise returns an `α`. -/
inductive Prog {Req : Type} (Resp : Req → Type) (X α : Type) : Type where
  | ret (a : α)
  | raise (x : X)
  | op (e : Req) (k : Resp e → Prog Resp X α)

namespace Prog

variable {Req : Type} {Resp : Req → Type} {X α β : Type}

/-- Sequencing grafts the second program at every normal leaf of the
first; a raise stays a leaf. -/
def bind : Prog Resp X α → (α → Prog Resp X β) → Prog Resp X β
  | .ret a, f => f a
  | .raise x, _ => .raise x
  | .op e k, f => .op e fun r => (k r).bind f

instance : Monad (Prog Resp X) where
  pure := .ret
  bind := .bind

@[simp] theorem pure_eq (a : α) : (pure a : Prog Resp X α) = .ret a := rfl

@[simp] theorem ret_bind (a : α) (f : α → Prog Resp X β) :
    ((.ret a : Prog Resp X α) >>= f) = f a := rfl

@[simp] theorem raise_bind (x : X) (f : α → Prog Resp X β) :
    ((.raise x : Prog Resp X α) >>= f) = .raise x := rfl

@[simp] theorem op_bind (e : Req) (k : Resp e → Prog Resp X α)
    (f : α → Prog Resp X β) :
    ((.op e k : Prog Resp X α) >>= f) = .op e fun r => k r >>= f := rfl

/-- One request, whose answer is the result. -/
def perform (e : Req) : Prog Resp X (Resp e) := .op e .ret

/-- A computation that already failed or succeeded. -/
def lift : Except X α → Prog Resp X α
  | .ok a => .ret a
  | .error x => .raise x

/-- Run a program once for every element of a list, in order. -/
def each {ι : Type} (f : ι → Prog Resp X Unit) : List ι → Prog Resp X Unit
  | [] => .ret ()
  | i :: rest => f i >>= fun _ => each f rest

end Prog

/-- What one turn of a loop body comes to: go round again from a loop
state, or stop with a result. -/
inductive Ctl (σ β : Type) : Type where
  | again (s : σ)
  | done (b : β)

/-- Where a process is: in the part of a call before its loop, or in a
turn of the loop that began at a given loop state. -/
inductive Phase (Call σ : Type) : Type where
  | entry (c : Call)
  | loop (s : σ)

end SdlcOs.Effects
