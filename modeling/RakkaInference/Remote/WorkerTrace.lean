import Mathlib.Data.List.Chain
import RakkaInference.Remote.Worker

/-! The protocol of a dispatch. `Session` says which sequences of events a dispatch can
have, independently of the loop that produces them, and the laws of the worker are proved
about sessions. -/
namespace RakkaInference

/-- Nothing but chunks of one attempt put on the output. -/
def IsSends (attempt : ℕ) (events : List WorkerEvent) : Prop :=
  ∀ ev ∈ events, ∃ chunk delivered, ev = .send attempt chunk delivered

/-- The events of a dispatch from the attempt with this number on. -/
inductive Session (engine : RetryEngine) (batch : ExecuteBatch) : ℕ → List WorkerEvent → Prop
  | refused {k : ℕ} {err : InferenceError} {delivered : Bool} :
    Session engine batch k [.check (.error err),.sendError err delivered,.idle]
  | finished {k : ℕ} {sends : List WorkerEvent} {how : AttemptEnd} (hs : IsSends k sends)
    (hh : ∀ err, how ≠ .failed err) :
    Session engine batch k (.check (.ok ())::.execute batch::(sends++[.ended how,.idle]))
  | gaveUp {k : ℕ} {sends : List WorkerEvent} {err : InferenceError} {delivered : Bool}
    (hs : IsSends k sends) (hd : engine.decide k err = .giveUp) :
    Session engine batch k (.check (.ok ())::.execute batch::
      (sends++[.ended (.failed err),.sendError err delivered,.idle]))
  | retried {k after : ℕ} {sends rest : List WorkerEvent} {err : InferenceError}
    (hs : IsSends k sends) (hd : engine.decide k err = .retry after)
    (hr : Session engine batch (k+1) rest) :
    Session engine batch k (.check (.ok ())::.execute batch::
      (sends++.ended (.failed err)::.sleep after::rest))

namespace WorkerEvent

def batch? : WorkerEvent → Option ExecuteBatch
  | .execute batch => some batch
  | _ => none

def failure? : WorkerEvent → Option InferenceError
  | .ended (.failed err) => some err
  | _ => none

end WorkerEvent
open WorkerEvent

section Laws
variable {engine : RetryEngine} {batch : ExecuteBatch} {k : ℕ} {trace sends : List WorkerEvent}

end Laws
end RakkaInference
