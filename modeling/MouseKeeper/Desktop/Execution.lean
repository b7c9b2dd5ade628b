import MouseKeeper.Server.Lifecycle
import MouseKeeper.Desktop.Outbox

/-!
The desktop's execution of approved decisions, next to the server.

A pass lists the pending decisions and takes them one by one: it claims an execution with
the decision's identifier as the key, runs the batch once the claim is answered, and puts
the result into the outbox, from where it is uploaded later. The write permit of the work
limiter allows one pass at a time. Requests reach the server at any time and any number of
times, from this desktop and from others; answers can be late, or never arrive.
-/

namespace MouseKeeper.Desktop.Execution

open MouseKeeper.ReadCommitted MouseKeeper.Server
open MouseKeeper.Server.Decisions (PublicDecision)

/-- An execution is claimed with the identifier of its decision as the key. -/
def KeyedByDecision : Request → Prop
  | .createExecution q => q.key = toString q.decisionId
  | _ => True

abbrev Delegated := { q : Request // KeyedByDecision q }

def serveDelegated (q : Delegated) : Program := body q.1

/-- The account and the device of the desktop. -/
structure Credential where
  userId : ℕ
  deviceId : ℕ

/-- The request of `create_execution`; the server draws the identifier of the new row. -/
def createExecution (c : Credential) (r : PublicDecision) (newId : ℕ) : Delegated :=
  ⟨.createExecution ⟨c.userId, toString r.id, r.proposalId, r.id, c.deviceId, newId⟩, rfl⟩

/-- Where the pass is: `process_decision` claims and then works on one decision after the
other. -/
inductive Phase where
  | idle
  | listing
  | between (todo : List PublicDecision)
  | claiming (r : PublicDecision) (todo : List PublicDecision)
  | working (r : PublicDecision) (executionId : ℕ) (todo : List PublicDecision)
  deriving DecidableEq, Repr

/-- The decisions that the pass has not run yet. -/
def Phase.todo : Phase → List PublicDecision
  | .idle | .listing => []
  | .between todo => todo
  | .claiming r todo => r :: todo
  | .working _ _ todo => todo

/-- The decision that the desktop is at work on. -/
def Phase.current : Phase → Option ℕ
  | .claiming r _ | .working r _ _ => some r.id
  | _ => none

/-- The server with the answers it has given, where the pass is, the decisions whose batch
has been run, the latest first, and the result rows of the outbox. -/
structure World where
  server : State Delegated Db Lock Code Response
  answers : List (Delegated × Response)
  phase : Phase
  runs : List ℕ
  results : Outbox.Store

def World.initial (d : Db) : World := ⟨.quiet d, [], .idle, [], .empty⟩

inductive Label where
  | serve (e : Event Delegated Code Response)
  | start
  | listed
  | notListed
  | claim
  | claimed (e : Execution)
  | unclaimed
  | worked (payload : String)
  | notStored
  | done
  | crash
  | sent (id : ℕ)
  | retried (id : ℕ) (code : String)
  | rejected (id : ℕ) (code : String)

def kindExecutionResult : String := "execution_result"

/-- One step of the server or the desktop. A claim that is refused, times out or whose answer
is lost is given up; a batch whose result cannot be written to the outbox is left; a crash
ends the pass wherever it is. A row is marked sent when a result for its execution has been
answered. -/
inductive Step (c : Credential) (w : World) : Label → World → Prop
  | serve {e s'} (h : ReadCommitted.Step serveDelegated w.server e s') :
    Step c w (.serve e) { w with server := s', answers := w.server.answered e ++ w.answers }
  | start (h : w.phase = .idle) : Step c w .start { w with phase := .listing }
  | listed {l} (h : w.phase = .listing)
    (hl : Decisions.pending w.server.db c.userId c.deviceId = .ok l) :
    Step c w .listed { w with phase := .between l }
  | notListed (h : w.phase = .listing) : Step c w .notListed { w with phase := .idle }
  | claim {r todo} (h : w.phase = .between (r :: todo)) :
    Step c w .claim { w with phase := .claiming r todo }
  | claimed {r todo newId e} (h : w.phase = .claiming r todo)
    (ha : (createExecution c r newId, .execution e) ∈ w.answers) :
    Step c w (.claimed e) { w with phase := .working r e.id todo, runs := r.id :: w.runs }
  | unclaimed {r todo} (h : w.phase = .claiming r todo) :
    Step c w .unclaimed { w with phase := .between todo }
  | worked {r i todo} (payload : String) (h : w.phase = .working r i todo) :
    Step c w (.worked payload) { w with
      phase := .between todo
      results := w.results.enqueue kindExecutionResult (toString i) payload }
  | notStored {r i todo} (h : w.phase = .working r i todo) :
    Step c w .notStored { w with phase := .between todo }
  | done (h : w.phase = .between []) : Step c w .done { w with phase := .idle }
  | crash : Step c w .crash { w with phase := .idle }
  | sent {x : Outbox.Row} {u : Executions.Update} {h a} (hx : x ∈ w.results.rows)
    (ha : (⟨.updateExecution u, h⟩, a) ∈ w.answers) (hu : x.key = toString u.executionId) :
    Step c w (.sent x.id) { w with results := w.results.markSent x.id }
  | retried (id : ℕ) (code : String) :
    Step c w (.retried id code) { w with results := w.results.markRetry id code }
  | rejected (id : ℕ) (code : String) :
    Step c w (.rejected id code) { w with results := w.results.markFailed id code }

/-- Any number of steps that meet the condition. -/
def Reaches (c : Credential) (ok : World → Label → Prop) : World → World → Prop :=
  Relation.ReflTransGen fun w w' => ∃ l, Step c w l w' ∧ ok w l

end MouseKeeper.Desktop.Execution
