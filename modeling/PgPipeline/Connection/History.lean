import PgPipeline.Connection.Dispatch
import PgPipeline.Connection.Request

/-!
Histories of a connection: what callers and the loop do to it, in any order.

Callers act at any time. The loop hands events to the connection; when a step fails, the next thing
the loop does is to tell the connection so, which ends it. The loop may also end a connection for
reasons of its own.
-/

namespace PgPipeline

inductive Action (ρ : Type) where
  | submit (query : String) (params : List Param) (consumer : Consumer ρ)
  | cancel (number : Nat)
  | awaitReady
  | requestClose
  | dispatch (event : LoopEvent) (socket : Socket)
  /-- The loop tells of a failure: of the one that broke the last step off, or else of this one. -/
  | tell (cause : Failure)

namespace Turn

variable {ρ : Type}

def request (t : Turn ρ) (f : Connection ρ → Connection ρ) : Turn ρ := { t with after := f t.after }

def act (t : Turn ρ) : Action ρ → Turn ρ
  | .submit query params consumer => t.request fun c => (c.submit query params consumer).2
  | .cancel number => t.request fun c => c.cancel number
  | .awaitReady => t.request fun c => c.awaitReady.2
  | .requestClose => t.request Connection.requestClose
  | .dispatch event socket => t.andThen fun c => c.dispatch event socket
  | .tell cause => .done (t.after.abort ((t.interruption.map Interruption.failure).getD cause))

def run (t : Turn ρ) (actions : List (Action ρ)) : Turn ρ := actions.foldl act t

theorem run_append (t : Turn ρ) (xs ys : List (Action ρ)) :
    t.run (xs ++ ys) = (t.run xs).run ys := List.foldl_append

end Turn

end PgPipeline
