import Mathlib.Algebra.GroupWithZero.Nat
import PgPipeline.Proofs.Record
import PgPipeline.Connection.Response

namespace PgPipeline

variable {ρ : Type}

structure Ledger where
  stage : Stage
  answers : Nat
  tags : List String
  rows : List (List (Option Bytes))
  offers : List Row
  deriving DecidableEq, Repr

namespace Ledger

def start : Ledger := ⟨.disconnected, 0, [], [], []⟩

def answer (l : Ledger) : BackendMessage → Ledger
  | .dataRow values => { l with rows := l.rows ++ [values] }
  | .commandComplete tag => { l with tags := l.tags ++ [tag] }
  | .readyForQuery _ => { l with answers := l.answers + 1, tags := [], rows := [], offers := [] }
  | _ => l

def take (l : Ledger) : Entry ρ → Ledger
  | .moved stage => { l with stage }
  | .received m => if l.stage = .ready then l.answer m else l
  | .offered _ row => { l with offers := l.offers ++ [row] }
  | _ => l

def tag (l : Ledger) : String := l.tags.getLast?.getD ""

def rowsAffected (l : Ledger) : Nat := (l.tags.map rowsOfTag).sum

structure Fresh (l : Ledger) : Prop where
  tags : l.tags = []
  rows : l.rows = []
  offers : l.offers = []

end Ledger

namespace Record

def ledger (es : List (Entry ρ)) : Ledger := es.foldl Ledger.take .start

/-- The batch that the server answers next is one of this submission. -/
def Due (es : List (Entry ρ)) (number : Nat) : Prop :=
  stage es = .ready ∧ (sent es)[(ledger es).answers]? = some number

/-- The entry belongs where it stands: a submission is sent by a piece that asks the server to report
back once, at its end; when the server is ready for the nth time, the nth batch is finished; a row is
offered to the submission whose batch is due; and the summary of a submission that is finished is made
from the answers since the batch before it was finished, all rows of which were offered. -/
def Follows (before : List (Entry ρ)) : Entry ρ → Prop
  | .sent _ _ => ∃ earlier ms, before = earlier ++ [.queued (ms ++ [.sync])] ∧ .sync ∉ ms
  | .finished number => ∃ earlier status,
      before = earlier ++ [.received (.readyForQuery status)] ∧ Due earlier number ∧
        (finished earlier).length = (ledger earlier).answers
  | .offered number row => ∃ earlier,
      before = earlier ++ [.received (.dataRow row.values)] ∧ Due earlier number
  | .concluded number summary => ∃ earlier status,
      before = earlier ++ [.received (.readyForQuery status), .finished number] ∧
        summary.tag = (ledger earlier).tag ∧
        summary.rowsAffected = (ledger earlier).rowsAffected ∧
        (ledger earlier).offers.map (·.values) = (ledger earlier).rows
  | _ => True

theorem ledger_append (as bs : List (Entry ρ)) :
    ledger (as ++ bs) = bs.foldl Ledger.take (ledger as) := List.foldl_append

theorem ledger_snoc (es : List (Entry ρ)) (e : Entry ρ) :
    ledger (es ++ [e]) = (ledger es).take e := ledger_append es [e]

theorem foldl_take_stage (l : Ledger) (es : List (Entry ρ)) :
    (es.foldl Ledger.take l).stage = stageFrom l.stage es := by
  induction es generalizing l with
  | nil => rfl
  | cons e rest ih =>
    have step : (l.take e).stage = e.stageAfter l.stage := by
      cases e with
      | received m =>
        change (if l.stage = .ready then l.answer m else l).stage = l.stage
        split
        · cases m <;> rfl
        · rfl
      | _ => rfl
    rw [List.foldl_cons, ih, step]
    rfl

theorem ledger_stage (es : List (Entry ρ)) : (ledger es).stage = stage es :=
  foldl_take_stage .start es

theorem foldl_take_still (l : Ledger) {es : List (Entry ρ)}
    (h : ∀ e ∈ es, e.ofPipeline = false) :
    es.foldl Ledger.take l = { l with stage := stageFrom l.stage es } := by
  induction es generalizing l with
  | nil => rfl
  | cons e rest ih =>
    have step : l.take e = { l with stage := e.stageAfter l.stage } := by
      have still := h e List.mem_cons_self
      cases e <;> first | rfl | cases still
    rw [List.foldl_cons, step, ih _ fun f hf => h f (List.mem_cons_of_mem _ hf)]
    rfl

theorem ledger_received {es : List (Entry ρ)} (m : BackendMessage) (ready : stage es = .ready) :
    ledger (es ++ [.received m]) = (ledger es).answer m := by
  rw [ledger_snoc, Ledger.take, if_pos ((ledger_stage es).trans ready)]

theorem answer_plain (l : Ledger) {m : BackendMessage} (plain : m.isPlain) : l.answer m = l := by
  cases m <;> first | rfl | cases plain

theorem ledger_idle {es : List (Entry ρ)} {m : BackendMessage}
    (h : stage es ≠ .ready ∨ m.isPlain) : ledger (es ++ [.received m]) = ledger es := by
  rw [ledger_snoc, Ledger.take]
  split
  · next ready =>
    have here : stage es = .ready := (ledger_stage es).symm.trans ready
    exact answer_plain _ (h.resolve_left fun elsewhere => elsewhere here)
  · rfl

end Record

end PgPipeline
