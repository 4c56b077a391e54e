import Mathlib.Data.Finset.Card
import Mathlib.Data.List.DropRight
import Mathlib.Data.Rat.Floor

/-!
# The command lanes

From `command-queue.ts`. Control leaves the module in two places: between two callbacks of
the event loop, where the call stack is empty, and in an `onWait`, which a pump calls while
it holds the entry that it has shifted. A step runs from one such place to the next, and
the call stack keeps below each pump what its callers do after it.

Each entry has a ticket, the number of entries enqueued before it. The diagnostics are left
out; an `onWait` that throws is caught, so that it is one that returns.
-/

namespace ClawHarder.CommandQueue

/-- The characters that `trim` removes. -/
def isBlank (c : Char) : Bool :=
  (0x09 ≤ c.toNat && c.toNat ≤ 0x0D) || (0x2000 ≤ c.toNat && c.toNat ≤ 0x200A) ||
    [0x20, 0xA0, 0x1680, 0x2028, 0x2029, 0x202F, 0x205F, 0x3000, 0xFEFF].contains c.toNat

def normalizeLane (lane : String) : String :=
  let trimmed := String.ofList ((lane.toList.dropWhile isBlank).rdropWhile isBlank)
  if trimmed = "" then "main" else trimmed

def isProbeLane (lane : String) : Bool :=
  "auth-probe:".toList.isPrefixOf lane.toList || "session:probe-".toList.isPrefixOf lane.toList

/-- The limit that `setCommandLaneConcurrency` sets. -/
def laneLimit (cleaned : String) (maxConcurrent : ℕ) : ℕ :=
  max (if isProbeLane cleaned then 1 else 0) maxConcurrent

/-- `normalizeTaskTimeoutMs`; a number that is not finite counts as none. -/
def normalizeTaskTimeoutMs (value : Option ℚ) : Option ℕ :=
  (value.filter (0 < ·)).map fun ms => max 1 ⌊ms⌋.toNat

/-- `CommandQueueEnqueueOptions`. An `onWait` with a `warnAfterMs` that is not a number or
infinite is never called, as if there was none. -/
structure EnqueueOptions where
  warnAfterMs : Option ℚ := none
  taskTimeoutMs : Option ℚ := none
  onWait : Bool := false
deriving DecidableEq

structure QueueEntry where
  ticket : ℕ
  enqueuedAt : ℤ
  warnAfterMs : ℚ
  taskTimeoutMs : Option ℕ
  onWait : Bool
deriving DecidableEq

/-- The pump calls the entry's `onWait` before it starts the entry. -/
def QueueEntry.callsBack (entry : QueueEntry) (now : ℤ) : Bool :=
  entry.onWait && decide (entry.warnAfterMs ≤ ((now - entry.enqueuedAt : ℤ) : ℚ))

structure LaneState where
  lane : String
  queue : List QueueEntry := []
  activeTaskIds : Finset ℕ := ∅
  maxConcurrent : ℕ := 1
  draining : Bool := false
  generation : ℕ := 0

/-- A lane after a reset: a new generation, with nothing active. -/
def LaneState.released (s : LaneState) : LaneState :=
  { s with generation := s.generation + 1, activeTaskIds := ∅, draining := false }

/-- Why a promise of `enqueueCommandInLane` is rejected. -/
inductive Rejection where
  | cleared (lane : String)
  | timedOut (lane : String) (timeoutMs : ℕ)
  /-- the task's own error -/
  | task
deriving DecidableEq

/-- The texts of `CommandLaneClearedError` and `CommandLaneTaskTimeoutError`. -/
def Rejection.message : Rejection → Option String
  | .cleared lane =>
    some (if lane = "" then "Command lane cleared" else "Command lane \"" ++ lane ++ "\" cleared")
  | .timedOut lane timeoutMs =>
    some ("Command lane \"" ++ lane ++ "\" task timed out after " ++ toString timeoutMs ++ "ms")
  | .task => none

/-- How a promise is settled: resolved, or rejected with a reason. -/
inductive Outcome where
  | resolved
  | rejected (reason : Rejection)
deriving DecidableEq

/-- The entry was settled after its task had run. -/
def Outcome.ofTask : Outcome → Bool
  | .rejected (.cleared _) => false
  | _ => true

/-- A task that has been started, with the generation in which it was. -/
structure Running where
  taskId : ℕ
  lane : String
  generation : ℕ
  entry : QueueEntry
deriving DecidableEq

/-- `ActiveTaskWaiter` -/
structure Waiter where
  ticket : ℕ
  activeTaskIds : Finset ℕ
  timeout : Bool
deriving DecidableEq

/-- A start of an entry, with the size of the active set and the limit just before it. -/
structure Start where
  ticket : ℕ
  lane : String
  active : ℕ
  maxConcurrent : ℕ
deriving DecidableEq

/-- What is on the call stack. -/
inductive Frame where
  /-- a pump that holds an entry, inside its `onWait` -/
  | pump (lane : String) (entry : QueueEntry)
  /-- a completion, which settles its entry after the pump -/
  | settle (ticket : ℕ) (outcome : Outcome)
  /-- `resetCommandLane`, which notifies the waiters and returns -/
  | reset (released : ℕ)
  /-- `resetAllLanes`, with the lanes that it has still to drain -/
  | resetAll (lanesToDrain : List String)
deriving DecidableEq

/-- `commandQueueState`, the running tasks, the call stack, the clock, and the history. -/
structure QueueState where
  gatewayDraining : Bool := false
  /-- the keys of `lanes`, in insertion order -/
  keys : List String := []
  state : String → LaneState := fun lane => { lane := lane }
  activeTaskWaiters : List Waiter := []
  nextTaskId : ℕ := 1
  running : List Running := []
  stack : List Frame := []
  now : ℤ := 0
  nextTicket : ℕ := 0
  nextWaiter : ℕ := 0
  /-- the calls of `enqueueCommandInLane` that a draining gateway rejected -/
  refused : ℕ := 0
  starts : List Start := []
  settled : List (ℕ × Outcome) := []
  /-- the waiters that were resolved, with `drained` -/
  waited : List (ℕ × Bool) := []
  /-- what `clearCommandLane` and `resetCommandLane` returned -/
  returned : List ℕ := []

namespace QueueState

variable (w : QueueState)

def setLane (lane : String) (s : LaneState) : QueueState :=
  { w with state := Function.update w.state lane s }

/-- `getLaneState`: a lane that is not there is created. -/
def getLaneState (lane : String) : QueueState :=
  if lane ∈ w.keys then w
  else { w.setLane lane { lane := lane } with keys := w.keys ++ [lane] }

def settle (ticket : ℕ) (outcome : Outcome) : QueueState :=
  { w with settled := w.settled ++ [(ticket, outcome)] }

def hasPendingActiveTasks (taskIds : Finset ℕ) : Bool :=
  w.keys.any fun lane => ((w.state lane).activeTaskIds ∩ taskIds).Nonempty

def drained (waiter : Waiter) : Bool :=
  waiter.activeTaskIds = ∅ || !w.hasPendingActiveTasks waiter.activeTaskIds

def notifyActiveTaskWaiters : QueueState :=
  { w with
    activeTaskWaiters := w.activeTaskWaiters.filter fun waiter => !w.drained waiter
    waited := w.waited ++ (w.activeTaskWaiters.filter w.drained).map fun x => (x.ticket, true) }

/-- The ids that `waitForActiveTasks` captures. -/
def activeAtStart : Finset ℕ :=
  w.keys.foldr (fun lane ids => (w.state lane).activeTaskIds ∪ ids) ∅

def waitForActiveTasks (timeoutMs : Option ℚ) : QueueState :=
  let ticket := w.nextWaiter
  let w := { w with nextWaiter := w.nextWaiter + 1 }
  if w.activeAtStart = ∅ then { w with waited := w.waited ++ [(ticket, true)] }
  else if timeoutMs.any (· ≤ 0) then { w with waited := w.waited ++ [(ticket, false)] }
  else
    let waiter : Waiter := ⟨ticket, w.activeAtStart, timeoutMs.isSome⟩
    let w := { w with activeTaskWaiters := w.activeTaskWaiters ++ [waiter] }
    w.notifyActiveTaskWaiters

end QueueState

/-- An entry that a pump starts, with its task id and the size of the active set before. -/
structure Started where
  entry : QueueEntry
  taskId : ℕ
  active : ℕ

/-- What the loop of a pump has done when it ends or calls an `onWait`: then it holds an
entry. -/
structure Pumped where
  started : List Started
  queue : List QueueEntry
  activeTaskIds : Finset ℕ
  nextTaskId : ℕ
  held : Option QueueEntry

/-- The loop of `pump`. -/
def pumpLoop (now : ℤ) (maxConcurrent : ℕ) : List QueueEntry → Finset ℕ → ℕ → Pumped
  | [], active, taskId => ⟨[], [], active, taskId, none⟩
  | entry :: queue, active, taskId =>
    if active.card < maxConcurrent then
      if entry.callsBack now then ⟨[], queue, active, taskId, some entry⟩
      else
        let rest := pumpLoop now maxConcurrent queue (insert taskId active) (taskId + 1)
        { rest with started := ⟨entry, taskId, active.card⟩ :: rest.started }
    else ⟨[], entry :: queue, active, taskId, none⟩

namespace QueueState

/-- The started entries run, in the lane's generation. -/
def launch (lane : String) (started : List Started) (w : QueueState) : QueueState :=
  let s := w.state lane
  { w with
    running := w.running ++ started.map fun x => ⟨x.taskId, lane, s.generation, x.entry⟩
    starts := w.starts ++ started.map fun x =>
      ⟨x.entry.ticket, lane, x.active, s.maxConcurrent⟩ }

/-- `pump`: it clears the draining flag when its loop has ended. -/
def pump (lane : String) (w : QueueState) : QueueState × Option QueueEntry :=
  let s := w.state lane
  let p := pumpLoop w.now s.maxConcurrent s.queue s.activeTaskIds w.nextTaskId
  let s' := { s with
    queue := p.queue
    activeTaskIds := p.activeTaskIds
    draining := s.draining && p.held.isSome }
  ({ (w.launch lane p.started).setLane lane s' with nextTaskId := p.nextTaskId }, p.held)

/-- The pump starts the entry that it holds. -/
def startHeld (lane : String) (entry : QueueEntry) (w : QueueState) : QueueState :=
  let s := w.state lane
  let started : Started := ⟨entry, w.nextTaskId, s.activeTaskIds.card⟩
  { (w.launch lane [started]).setLane lane
      { s with activeTaskIds := insert w.nextTaskId s.activeTaskIds } with
    nextTaskId := w.nextTaskId + 1 }

def drainLane (lane : String) (w : QueueState) : QueueState × Option QueueEntry :=
  if (w.state lane).draining then (w, none)
  else (w.setLane lane { w.state lane with draining := true }).pump lane

/-- The loop of `resetAllLanes`, up to the lane whose pump calls an `onWait`. -/
def drainLanes : List String → QueueState →
    QueueState × Option (String × QueueEntry × List String)
  | [], w => (w, none)
  | lane :: lanes, w =>
    match w.drainLane lane with
    | (w, some entry) => (w, some (lane, entry, lanes))
    | (w, none) => drainLanes lanes w

/-- The callers go on after a call that has returned, up to the next `onWait`. -/
def unwind : List Frame → QueueState → QueueState
  | [], w => { w with stack := [] }
  | .pump lane entry :: below, w => { w with stack := .pump lane entry :: below }
  | .settle ticket outcome :: below, w => unwind below (w.settle ticket outcome)
  | .reset released :: below, w =>
    let w := w.notifyActiveTaskWaiters
    unwind below { w with returned := w.returned ++ [released] }
  | .resetAll lanes :: below, w =>
    match w.drainLanes lanes with
    | (w, some (lane, entry, rest)) =>
      { w with stack := .pump lane entry :: .resetAll rest :: below }
    | (w, none) => unwind below w.notifyActiveTaskWaiters

/-- After a pump of the lane: inside the `onWait` of the entry it holds, or back in the callers. -/
def afterPump (lane : String) (below : List Frame) : QueueState × Option QueueEntry → QueueState
  | (w, some entry) => { w with stack := .pump lane entry :: below }
  | (w, none) => w.unwind below

variable (w : QueueState)

def enqueueCommandInLane (lane : String) (opts : EnqueueOptions) : QueueState :=
  if w.gatewayDraining then { w with refused := w.refused + 1 }
  else
    let cleaned := normalizeLane lane
    let w := w.getLaneState cleaned
    let s := w.state cleaned
    let entry : QueueEntry :=
      { ticket := w.nextTicket
        enqueuedAt := w.now
        warnAfterMs := opts.warnAfterMs.getD 2000
        taskTimeoutMs := normalizeTaskTimeoutMs opts.taskTimeoutMs
        onWait := opts.onWait }
    let w := { w.setLane cleaned { s with queue := s.queue ++ [entry] } with
      nextTicket := w.nextTicket + 1 }
    afterPump cleaned w.stack (w.drainLane cleaned)

def setCommandLaneConcurrency (lane : String) (maxConcurrent : ℕ) : QueueState :=
  let cleaned := normalizeLane lane
  let w := w.getLaneState cleaned
  let s := w.state cleaned
  let w := w.setLane cleaned { s with maxConcurrent := laneLimit cleaned maxConcurrent }
  if 0 < (w.state cleaned).maxConcurrent then
    afterPump cleaned w.stack (w.drainLane cleaned)
  else w

def clearCommandLane (lane : String) : QueueState :=
  let cleaned := normalizeLane lane
  if cleaned ∈ w.keys then
    let s := w.state cleaned
    { w.setLane cleaned { s with queue := [] } with
      settled := w.settled ++ s.queue.map fun entry => (entry.ticket, .rejected (.cleared cleaned))
      returned := w.returned ++ [s.queue.length] }
  else { w with returned := w.returned ++ [0] }

def resetCommandLane (lane : String) : QueueState :=
  let cleaned := normalizeLane lane
  if cleaned ∈ w.keys then
    let s := w.state cleaned
    let w := w.setLane cleaned s.released
    let below := .reset s.activeTaskIds.card :: w.stack
    if s.queue = [] then w.unwind below
    else afterPump cleaned below (w.drainLane cleaned)
  else { w with returned := w.returned ++ [0] }

/-- The lanes that `resetAllLanes` drains. -/
def lanesToDrain : List String := w.keys.filter fun lane => (w.state lane).queue ≠ []

def resetAllLanes : QueueState :=
  unwind (.resetAll w.lanesToDrain :: w.stack)
    { w with
      gatewayDraining := false
      state := fun lane => if lane ∈ w.keys then (w.state lane).released else w.state lane }

end QueueState

/-- The calls that other code makes, from the event loop or from an `onWait`. -/
inductive Call where
  | enqueue (lane : String) (opts : EnqueueOptions)
  | setConcurrency (lane : String) (maxConcurrent : ℕ)
  | clear (lane : String)
  | reset (lane : String)
  | resetAll
  | waitForActive (timeoutMs : Option ℚ)
  | markDraining
deriving DecidableEq

inductive TaskResult where
  | success
  | failure
  | timeout
deriving DecidableEq

/-- How a task ends; without a timer of its own it does not time out. -/
def Running.outcome (r : Running) : TaskResult → Option Outcome
  | .success => some .resolved
  | .failure => some (.rejected .task)
  | .timeout =>
    (normalizeTaskTimeoutMs (r.entry.taskTimeoutMs.map (↑))).map fun ms =>
      .rejected (.timedOut r.lane ms)

inductive Action where
  | clock (now : ℤ)
  | call (c : Call)
  /-- the `onWait` on top of the call stack returns -/
  | returns
  | completes (taskId : ℕ) (result : TaskResult)
  /-- the timer of a waiter fires -/
  | waiterTimesOut (ticket : ℕ)
deriving DecidableEq

namespace QueueState

variable (w : QueueState)

def call : Call → QueueState
  | .enqueue lane opts => w.enqueueCommandInLane lane opts
  | .setConcurrency lane maxConcurrent => w.setCommandLaneConcurrency lane maxConcurrent
  | .clear lane => w.clearCommandLane lane
  | .reset lane => w.resetCommandLane lane
  | .resetAll => w.resetAllLanes
  | .waitForActive timeoutMs => w.waitForActiveTasks timeoutMs
  | .markDraining => { w with gatewayDraining := true }

/-- The end of `runQueueEntryTask`: in the current generation the slot is freed, the
waiters are notified and the lane is pumped before the entry is settled. -/
def complete (r : Running) (outcome : Outcome) : QueueState :=
  let w := { w with running := w.running.erase r }
  let s := w.state r.lane
  if r.generation = s.generation then
    let w := w.setLane r.lane { s with activeTaskIds := s.activeTaskIds.erase r.taskId }
    afterPump r.lane [.settle r.entry.ticket outcome] (w.notifyActiveTaskWaiters.pump r.lane)
  else w.settle r.entry.ticket outcome

/-- One step. The timers and the completions wait for an empty call stack. -/
def step (w : QueueState) : Action → QueueState
  | .clock now => { w with now := now }
  | .call c => w.call c
  | .returns =>
    match w.stack with
    | .pump lane entry :: below => afterPump lane below ((w.startHeld lane entry).pump lane)
    | _ => w
  | .completes taskId result =>
    match w.stack, w.running.find? (·.taskId = taskId) with
    | [], some r => (r.outcome result).elim w (w.complete r)
    | _, _ => w
  | .waiterTimesOut ticket =>
    match w.stack, w.activeTaskWaiters.find? (fun x => x.ticket = ticket && x.timeout) with
    | [], some waiter =>
      { w with
        activeTaskWaiters := w.activeTaskWaiters.erase waiter
        waited := w.waited ++ [(waiter.ticket, false)] }
    | _, _ => w

end QueueState

end ClawHarder.CommandQueue
