import ClawHarder.Spec.Manager
import ClawHarder.Spec.SlidingWindow

/-!
# The context engine and its adapters

`context-engine.ts` and `openclaw-context-adapter.ts`. A `ContextEngine` commits at
the end of a turn; an adapter buffers messages, ends turns and, after a revision
conflict, reloads. `Adapters` is several adapters with a session each, on one
manifest file.

`afterTurn` is cut where it waits: for each offload that it stores, and before
`syncAndReplan`. A commit is one step. The prompt (`buildContext`, `assemble`) is
not here: it only reads. `Conversation` is one context engine, turn after turn.
-/

namespace ClawHarder

variable {N : Type}

structure ContextEngineConfig where
  slidingWindow : SlidingWindowConfig := {}
  autoCommit : Bool := true

structure TurnResult where
  offloadedRefIds : List RefId
  evictedTurns : ℕ
  committed : Bool
  commitResult : Option CommitResult
  syncRequired : Bool

structure ContextEngine (N : Type) where
  manager : Engine N
  window : SlidingWindow
  autoCommit : Bool
  needsCommit : Bool := false

/-- What `completeTurn` knows between two offloads. -/
structure TurnProgress where
  offloads : List OffloadCandidate
  offloadedIds : List RefId
  factProducing : Bool
  evicted : ℕ

namespace ContextEngine

def new (manager : Engine N) (config : ContextEngineConfig) : ContextEngine N where
  manager
  window := { config := config.slidingWindow }
  autoCommit := config.autoCommit

/-- `completeTurn` up to its loop; offloads always trigger a commit. -/
def beginTurn (messages : List TurnMessage) (factProducing : Bool) (c : ContextEngine N) :
    TurnProgress × ContextEngine N :=
  let (offloads, evicted, window) := c.window.pushTurn messages
  ({ offloads
     offloadedIds := []
     factProducing := factProducing || !offloads.isEmpty
     evicted },
    { c with window })

/-- The reference that stands for an offloaded message. -/
def offloadReference (offload : OffloadCandidate) : AddReferenceInput where
  source := "sliding-window"
  label := "Auto-offloaded tool result (turn " ++ toString offload.turnIndex ++ ")"
  content :=
    { text := offload.originalContent
      byteSize := offload.originalContent.utf8ByteSize }

/-- One turn of the loop of `completeTurn`; the id counts only if the content was stored. -/
def storeOffload (E : Env N) (storeFails : Bool) (offload : OffloadCandidate)
    (ids : List RefId) (c : ContextEngine N) : List RefId × ContextEngine N :=
  let refId := "REF_" ++ (c.manager.nextShortId E).1
  (if storeFails then ids else ids ++ [refId],
    { c with manager := c.manager.addReference E (offloadReference offload) storeFails })

/-- The end of `completeTurn`: the selective commit. -/
def endTurn [JsNumber N] (E : Env N) (io : Io) (progress : TurnProgress) (c : ContextEngine N) :
    TurnResult × ContextEngine N :=
  if c.autoCommit && (progress.factProducing || c.manager.dirty) then
    let (result, manager) := c.manager.commit E io
    ({ offloadedRefIds := progress.offloadedIds
       evictedTurns := progress.evicted
       committed := true
       commitResult := some result
       syncRequired :=
         match result with
         | .failed .revisionConflict _ => true
         | _ => false },
      { c with manager })
  else
    ({ offloadedRefIds := progress.offloadedIds
       evictedTurns := progress.evicted
       committed := false
       commitResult := none
       syncRequired := false },
      c)

/-- The loop of `completeTurn`; `storeFails` says which contents cannot be stored. -/
def storeOffloads (E : Env N) (storeFails : OffloadCandidate → Bool) :
    List OffloadCandidate → List RefId → ContextEngine N → List RefId × ContextEngine N
  | [], ids, c => (ids, c)
  | offload :: rest, ids, c =>
    let (ids, c) := c.storeOffload E (storeFails offload) offload ids
    storeOffloads E storeFails rest ids c

/-- `completeTurn`, with nothing between its awaits. -/
def completeTurn [JsNumber N] (E : Env N) (io : Io) (storeFails : OffloadCandidate → Bool)
    (messages : List TurnMessage) (factProducing : Bool) (c : ContextEngine N) :
    TurnResult × ContextEngine N :=
  let (progress, c) := c.beginTurn messages factProducing
  let (offloadedIds, c) := c.storeOffloads E storeFails progress.offloads []
  c.endTurn E io { progress with offloads := [], offloadedIds }

def syncAndReplan [JsNumber N] (E : Env N) (io : Io) (c : ContextEngine N) :
    Except String (ContextEngine N) :=
  match c.manager.reload E io with
  | .error detail => .error detail
  | .ok manager =>
    .ok { c with
      manager := manager.recordOp E .manifestLoaded
        [("event", .str "sync_replan"), ("reason", .str "revision_conflict")] }

/-! Mutation proxies -/

def addFact [JsNumber N] (E : Env N) (input : AddFactInput N) (c : ContextEngine N) :
    ArbitrationDecision × FactId × ContextEngine N :=
  let (decision, id, manager) := c.manager.addFact E input
  (decision, id,
    { c with manager, needsCommit := c.needsCommit || decision.outcome ≠ .converge })

def addReference (E : Env N) (input : AddReferenceInput) (storeFails : Bool)
    (c : ContextEngine N) : ContextEngine N :=
  { c with
    manager := c.manager.addReference E input storeFails
    needsCommit := c.needsCommit || !storeFails }

def addSummary [JsNumber N] (E : Env N) (input : AddSummaryInput N) (c : ContextEngine N) :
    ContextEngine N :=
  { c with manager := c.manager.addSummary E input, needsCommit := true }

def proposeRefinement [JsNumber N] (E : Env N) (factId : FactId) (input : AddFactInput N)
    (c : ContextEngine N) : Engine.ProposeResult × ContextEngine N :=
  match c.manager.proposeRefinement E factId input with
  | (.ok newFactId supersededFactId decision, manager) =>
    (.ok newFactId supersededFactId decision, { c with manager, needsCommit := true })
  | (.failed reason, manager) => (.failed reason, { c with manager })

def recordOperation (E : Env N) (type : OperationType) (metadata : List (String × Json N))
    (c : ContextEngine N) : ContextEngine N :=
  { c with manager := c.manager.recordOp E type metadata }

def commit [JsNumber N] (E : Env N) (io : Io) (c : ContextEngine N) :
    CommitResult × ContextEngine N :=
  match c.manager.commit E io with
  | (.ok revision hash, manager) =>
    (.ok revision hash, { c with manager, needsCommit := false })
  | (.failed reason detail, manager) => (.failed reason detail, { c with manager })

end ContextEngine

/-- A completed turn, or a call on the manager between two turns. -/
inductive EngineCall (N : Type) where
  | completeTurn (messages : List TurnMessage) (factProducing : Bool)
      (storeFails : OffloadCandidate → Bool) (io : Io)
  | manager (op : Op N)

/-- A context engine, and the offloads of all turns so far. -/
structure Conversation (N : Type) where
  engine : ContextEngine N
  offloaded : List OffloadCandidate

namespace Conversation

def start (manager : Engine N) (config : ContextEngineConfig) : Conversation N where
  engine := .new manager config
  offloaded := []

def step [JsNumber N] (E : Env N) (c : Conversation N) : EngineCall N → Conversation N
  | .completeTurn messages factProducing storeFails io =>
    { engine := (c.engine.completeTurn E io storeFails messages factProducing).2
      offloaded := c.offloaded ++ (c.engine.window.pushTurn messages).1 }
  | .manager op =>
    { c with engine := { c.engine with manager := ClawHarder.step E c.engine.manager op } }

end Conversation

/-- A part of a message; `text` is there when it is a string. -/
structure ContentPart where
  type : String
  text : Option String

inductive AgentContent where
  | text (content : String)
  | parts (content : List ContentPart)

structure AgentMessage where
  role : String
  content : AgentContent

def extractTextContent : AgentContent → String
  | .text content => content
  | .parts content =>
    String.intercalate " " (content.map fun part =>
      match part.text with
      | some text => if part.type = "text" then text else "[" ++ part.type ++ "]"
      | none => "[" ++ part.type ++ "]")

/-- Only these three roles flow into the window. -/
def agentMessageToTurnMessage (msg : AgentMessage) : Option TurnMessage :=
  let content := extractTextContent msg.content
  match msg.role with
  | "user" => some { role := .user, content }
  | "assistant" => some { role := .assistant, content }
  | "tool" => some { role := .tool, content }
  | _ => none

/-- Where an `afterTurn` waits. -/
inductive TurnStage where
  | idle
  /-- for the artifact of `offload` -/
  | offloading (offload : OffloadCandidate) (progress : TurnProgress)
  /-- before `syncAndReplan` -/
  | syncing

structure SessionState (N : Type) where
  engine : ContextEngine N
  pendingMessages : List TurnMessage
  stage : TurnStage

/-- A call on an adapter, or the next part of its `afterTurn`. -/
inductive AdapterCall (N : Type) where
  | bootstrap (config : ContextEngineConfig) (io : Io)
  | ingest (message : AgentMessage)
  | ingestBatch (messages : List AgentMessage)
  | addFact (input : AddFactInput N)
  | addReference (input : AddReferenceInput) (storeFails : Bool)
  | addSummary (input : AddSummaryInput N)
  | proposeRefinement (factId : FactId) (input : AddFactInput N)
  | recordOperation (type : OperationType) (metadata : List (String × Json N))
  | commit (io : Io)
  | afterTurn (messages : List AgentMessage) (prePromptMessageCount : ℕ) (io : Io)
  | resume (storeFails : Bool) (io : Io)
  | dispose (io : Io)

/-- What a call tells its caller: the fact that it stored, the turn that it completed. -/
structure Reply (N : Type) where
  stored : Option (Fact N) := none
  turn : Option TurnResult := none

/-- The fact that an `addFact` with this verdict stored under the id. -/
def storedFact (decision : ArbitrationDecision) (id : FactId) (manager : Engine N) :
    Option (Fact N) :=
  if decision.outcome = .converge then none else manager.working.facts.get? id

namespace SessionState

/-- `afterTurn` between two awaits: wait for the next offload or end the turn. -/
def continueTurn [JsNumber N] (E : Env N) (io : Io) (progress : TurnProgress)
    (s : SessionState N) : Option TurnResult × SessionState N :=
  match progress.offloads with
  | offload :: rest =>
    (none, { s with stage := .offloading offload { progress with offloads := rest } })
  | [] =>
    let (result, engine) := s.engine.endTurn E io progress
    (some result, { s with engine, stage := if result.syncRequired then .syncing else .idle })

def afterTurn [JsNumber N] (E : Env N) (io : Io) (messages : List AgentMessage)
    (prePromptMessageCount : ℕ) (s : SessionState N) : Option TurnResult × SessionState N :=
  let turnMessages := messages.drop prePromptMessageCount
  let converted := turnMessages.filterMap agentMessageToTurnMessage
  let allTurnMessages := s.pendingMessages ++ converted
  let s := { s with pendingMessages := [] }
  if allTurnMessages = [] then (none, s)
  else
    -- the caller signals new facts through addFact and addSummary
    let (progress, engine) := s.engine.beginTurn allTurnMessages false
    { s with engine }.continueTurn E io progress

/-- The next part of an `afterTurn` that waits. -/
def resume [JsNumber N] (E : Env N) (storeFails : Bool) (io : Io) (s : SessionState N) :
    Option TurnResult × SessionState N :=
  match s.stage with
  | .idle => (none, s)
  | .offloading offload progress =>
    let (offloadedIds, engine) := s.engine.storeOffload E storeFails offload progress.offloadedIds
    { s with engine }.continueTurn E io { progress with offloadedIds }
  | .syncing =>
    (none, { s with engine := (s.engine.syncAndReplan E io).toOption.getD s.engine, stage := .idle })

/-- A call on an open session; its turns follow one another. -/
def call [JsNumber N] (E : Env N) (s : SessionState N) : AdapterCall N → Reply N × SessionState N
  | .ingest message =>
    ({}, { s with
      pendingMessages := s.pendingMessages ++ (agentMessageToTurnMessage message).toList })
  | .ingestBatch messages =>
    ({}, { s with
      pendingMessages := s.pendingMessages ++ messages.filterMap agentMessageToTurnMessage })
  | .addFact input =>
    let (decision, id, engine) := s.engine.addFact E input
    ({ stored := storedFact decision id engine.manager }, { s with engine })
  | .addReference input storeFails =>
    ({}, { s with engine := s.engine.addReference E input storeFails })
  | .addSummary input => ({}, { s with engine := s.engine.addSummary E input })
  | .proposeRefinement factId input =>
    match s.engine.proposeRefinement E factId input with
    | (.ok newFactId _ decision, engine) =>
      ({ stored := storedFact decision newFactId engine.manager }, { s with engine })
    | (.failed _, engine) => ({}, { s with engine })
  | .recordOperation type metadata =>
    ({}, { s with engine := s.engine.recordOperation E type metadata })
  | .commit io => ({}, { s with engine := (s.engine.commit E io).2 })
  | .afterTurn messages prePromptMessageCount io =>
    match s.stage with
    | .idle =>
      let (turn, s) := s.afterTurn E io messages prePromptMessageCount
      ({ turn }, s)
    | _ => ({}, s)
  | .resume storeFails io =>
    let (turn, s) := s.resume E storeFails io
    ({ turn }, s)
  | .bootstrap _ _ => ({}, s) -- already bootstrapped
  | .dispose _ => ({}, s) -- see `Adapters.dispose`

end SessionState

/-- The adapters `ι` on one disk, each with a session at most, and the facts that
each of them was told are stored. -/
structure Adapters (ι N : Type) where
  disk : Disk N
  sys : Sys
  sessions : ι → Option (SessionState N)
  acknowledged : ι → List (Fact N)

namespace Adapters

variable {ι : Type} [DecidableEq ι]

/-- A session as it finds the disk and the counters now. -/
def visit (w : Adapters ι N) (s : SessionState N) : SessionState N :=
  { s with engine :=
    { s.engine with manager := { s.engine.manager with disk := w.disk, sys := w.sys } } }

/-- Leave the session of `i`, and the disk and the counters, as they are after a call. -/
def leave (w : Adapters ι N) (i : ι) (s : SessionState N) : Adapters ι N :=
  { w with
    disk := s.engine.manager.disk
    sys := s.engine.manager.sys
    sessions := Function.update w.sessions i (some s) }

def bootstrap [JsNumber N] (E : Env N) (config : ContextEngineConfig) (io : Io) (i : ι)
    (w : Adapters ι N) : Adapters ι N :=
  match w.sessions i with
  | some _ => w -- already bootstrapped
  | none =>
    match managerLoad E io "manifest-engine" w.disk w.sys with
    | none => w -- the exception of `ManifestManager.load`
    | some manager =>
      w.leave i { engine := .new manager config, pendingMessages := [], stage := .idle }

/-- `dispose`: commit a dirty manager, whatever comes of it, and clear the sessions. -/
def dispose [JsNumber N] (E : Env N) (io : Io) (i : ι) (w : Adapters ι N) : Adapters ι N :=
  match w.sessions i with
  | some s =>
    match s.stage with
    | .idle =>
      let manager := (w.visit s).engine.manager
      let manager := if manager.dirty then (manager.commit E io).2 else manager
      { w with
        disk := manager.disk
        sys := manager.sys
        sessions := Function.update w.sessions i none }
    | _ => w
  | none => w

/-- A call on an adapter: the completed turn, if it completes one, and what is left. -/
def call [JsNumber N] (E : Env N) (w : Adapters ι N) (e : ι × AdapterCall N) :
    Option TurnResult × Adapters ι N :=
  match e.2 with
  | .bootstrap config io => (none, w.bootstrap E config io e.1)
  | .dispose io => (none, w.dispose E io e.1)
  | c =>
    match w.sessions e.1 with
    | none => (none, w)
    | some s =>
      let (reply, s) := (w.visit s).call E c
      (reply.turn,
        { w.leave e.1 s with
          acknowledged :=
            Function.update w.acknowledged e.1 (w.acknowledged e.1 ++ reply.stored.toList) })

/-- The adapters after a call. -/
def step [JsNumber N] (E : Env N) (w : Adapters ι N) (e : ι × AdapterCall N) : Adapters ι N :=
  (w.call E e).2

end Adapters

end ClawHarder
