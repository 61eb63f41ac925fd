import PgPipeline.Loop

namespace PgPipeline

inductive LoopAction (σ : Type) where
  | register (service : σ)
  | notify (token : Token)
  | deregister (token : Token)
  | stop
  | drain
  | report (token : Token) (report : Loop.SocketReport)
  | elapse (duration : Nat)
  | finish

namespace Loop

variable {σ : Type}

def act (b : Behaviour σ) (l : Loop σ) : LoopAction σ → Loop σ
  | .register service =>
    match l.register service with
    | .ok (_, l) => l
    | .error _ => l
  | .notify token => l.notify token
  | .deregister token => l.deregister token
  | .stop => l.stop
  | .drain => l.drain b
  | .report token report => l.onReport b token report
  | .elapse duration => l.elapse b duration
  | .finish => if l.stopping then l.finish b else l

def run (b : Behaviour σ) (l : Loop σ) (actions : List (LoopAction σ)) : Loop σ :=
  actions.foldl (act b) l

theorem run_append (b : Behaviour σ) (l : Loop σ) (xs ys : List (LoopAction σ)) :
    l.run b (xs ++ ys) = (l.run b xs).run b ys := List.foldl_append

end Loop

end PgPipeline
