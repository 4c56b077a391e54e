import ClawHarder.Spec.Entrances

/-!
# The queue of input intents

`ingest_input`, `dispatch_input_intent` and `_prune_input_intents` of `runtime.py`. A
turn takes time, and other calls come in between: a dispatch is a step up to the start
of its turn, and the end of the turn is another. `uuid4` gives new ids.
-/

namespace ClawHarder.Intents

open PyText (lit)
open ClawHarder.Entrances (Intent IntentStatus)

/-- The ids `intent_…`, in the order in which they are drawn. -/
structure IntentIds where
  idOf : ℕ → PyText
  injective : Function.Injective idOf
  stripped : ∀ n, PyText.strip (idOf n) = idOf n
  ne_nil : ∀ n, idOf n ≠ []

structure IntentQueue where
  /-- the ids drawn so far -/
  drawn : ℕ := 0
  /-- `_pending_input_intents` -/
  pending : OrderedMap PyText Intent := .empty
  /-- `_input_intent_order` -/
  order : List PyText := []
  /-- the intents whose turn has not ended -/
  inFlight : List PyText := []
  /-- the intents whose turn has started, in order -/
  executed : List PyText := []

@[irreducible] def maxInputIntents : ℕ := 128

/-- The ids that `_prune_input_intents` removes from an order. -/
def stale (order : List PyText) : List PyText := order.take (order.length - maxInputIntents)

def pruneInputIntents (s : IntentQueue) : IntentQueue :=
  { s with
    pending := (stale s.order).foldl OrderedMap.erase s.pending
    order := s.order.drop (s.order.length - maxInputIntents) }

variable (ids : IntentIds)

/-- `ingest_input`, without the source and the metadata; an empty message raises. -/
def ingestInput (s : IntentQueue) (message : PyText) : IntentQueue :=
  let cleaned := PyText.strip message
  if cleaned = [] then s
  else
    let id := ids.idOf s.drawn
    pruneInputIntents { s with
      drawn := s.drawn + 1
      pending := s.pending.set id { message := cleaned, status := .queued }
      order := s.order ++ [id] }

/-- What a dispatch comes to. -/
inductive Dispatch where
  | started (message : PyText)
  | replied (ok : Bool) (text : PyText)
  | valueError
  | keyError
  | runtimeError

/-- `str(intent.get("error") or "dispatch failed")` -/
def errorText (intent : Intent) : PyText :=
  if intent.error = [] then lit "dispatch failed" else intent.error

/-- `dispatch_input_intent`, up to the start of the turn -/
def dispatchInputIntent (s : IntentQueue) (intentId : PyText) : Dispatch × IntentQueue :=
  let id := PyText.strip intentId
  if id = [] then (.valueError, s)
  else
    match s.pending.get? id with
    | none => (.keyError, s)
    | some intent =>
      match intent.status with
      | .running => (.runtimeError, s)
      | .completed => (.replied true intent.reply, s)
      | .failed => (.replied false (errorText intent), s)
      | .queued =>
        (.started intent.message, { s with
          pending := s.pending.set id { intent with status := .running }
          inFlight := s.inFlight ++ [id]
          executed := s.executed ++ [id] })

/-- How the end of a turn is noted; the intent may have been pruned. -/
def finish (result : Except PyText PyText) (intent : Intent) : Intent :=
  match result with
  | .ok reply => { intent with status := .completed, reply }
  | .error error => { intent with status := .failed, error }

def completeIntent (s : IntentQueue) (id : PyText) (result : Except PyText PyText) : IntentQueue :=
  if id ∈ s.inFlight then { s with
    inFlight := s.inFlight.erase id
    pending :=
      match s.pending.get? id with
      | none => s.pending
      | some intent => s.pending.set id (finish result intent) }
  else s

inductive IntentStep where
  | ingest (message : PyText)
  | dispatch (intentId : PyText)
  | complete (id : PyText) (result : Except PyText PyText)

def intentStep (s : IntentQueue) : IntentStep → IntentQueue
  | .ingest message => ingestInput ids s message
  | .dispatch intentId => (dispatchInputIntent s intentId).2
  | .complete id result => completeIntent s id result

end ClawHarder.Intents
