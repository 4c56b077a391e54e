import Mathlib.Algebra.Order.Floor.Ring
import Mathlib.Data.List.Dedup
import Mathlib.Data.List.DropRight
import Mathlib.Data.Rat.Floor

/-!
# The follow-up queue and its drain

From `queue/drain.ts`, `queue/enqueue.ts`, `queue/state.ts`, `queue-helpers.ts`,
`channel-route.ts` and `account-id.ts`, for one queue key. A drain is cut at its awaits:
`Await` is where it is suspended, and a step runs it from there to the next await. Between
two steps come enqueues, aborted signals and further calls of `scheduleFollowupDrain`.

Each accepted run gets a ticket, the number of runs accepted before it, and `droppedCount`
is given by the runs that it counts. The time and the lifecycle callbacks are left out, so
a debounce ends at any step, and of a prompt what it is made of is kept and not its text.
-/

namespace ClawHarder.Followup

structure ExecOverrides where
  host : Option String := none
  security : Option String := none
  ask : Option String := none
  node : Option String := none
deriving DecidableEq

structure BashElevated where
  enabled : Bool
  allowed : Bool
  defaultLevel : String
deriving DecidableEq

/-- `FollowupRun["run"]`, with the fields of the authorization key. -/
structure AgentRun where
  senderId : Option String := none
  senderE164 : Option String := none
  senderIsOwner : Option Bool := none
  execOverrides : Option ExecOverrides := none
  bashElevated : Option BashElevated := none
deriving DecidableEq

/-- A thread id; a number that is not finite is none. -/
inductive ThreadId where
  | text (s : String)
  | number (n : Option ℚ)
deriving DecidableEq

structure Origin where
  channel : Option String := none
  /-- `originatingTo` -/
  target : Option String := none
  accountId : Option String := none
  threadId : Option ThreadId := none
deriving DecidableEq

structure FollowupRun where
  run : AgentRun := {}
  /-- the `originating` fields -/
  origin : Origin := {}
  /-- which signal aborts the run -/
  abortSignal : Option ℕ := none
  roomEvent : Bool := false
  hasTurnContext : Bool := false
  deliveryCorrelations : ℕ := 0
  hasLifecycle : Bool := false
  /-- `buildQueueSummaryLine(summarize(item))` -/
  summaryLine : String := ""
deriving DecidableEq

/-- An accepted run with its ticket. -/
structure Queued where
  ticket : ℕ
  run : FollowupRun
deriving DecidableEq

/-- The parts of an authorization key, which `JSON.stringify` keeps apart. -/
structure AuthorizationKey where
  senderId : String
  senderE164 : String
  senderIsOwner : Bool
  host : String
  security : String
  ask : String
  node : String
  elevatedEnabled : Bool
  elevatedAllowed : Bool
  elevatedLevel : String
deriving DecidableEq

def resolveFollowupAuthorizationKey (run : AgentRun) : AuthorizationKey where
  senderId := run.senderId.getD ""
  senderE164 := run.senderE164.getD ""
  senderIsOwner := run.senderIsOwner = some true
  host := (run.execOverrides.bind (·.host)).getD ""
  security := (run.execOverrides.bind (·.security)).getD ""
  ask := (run.execOverrides.bind (·.ask)).getD ""
  node := (run.execOverrides.bind (·.node)).getD ""
  elevatedEnabled := run.bashElevated.elim false (·.enabled)
  elevatedAllowed := run.bashElevated.elim false (·.allowed)
  elevatedLevel := run.bashElevated.elim "" (·.defaultLevel)

/-- The authorization key of an item. -/
def Queued.key (item : Queued) : AuthorizationKey := resolveFollowupAuthorizationKey item.run.run

/-- The groups of the items after the first, with the group that is open. -/
def splitFrom (current : List Queued) (key : AuthorizationKey) : List Queued → List (List Queued)
  | [] => [current]
  | item :: items =>
    if item.key = key then splitFrom (current ++ [item]) key items
    else current :: splitFrom [item] item.key items

def splitCollectItemsByAuthorization : List Queued → List (List Queued)
  | [] => []
  | item :: items => splitFrom [item] item.key items

/-- The string functions that are not defined here. -/
structure RouteHost where
  trim : String → String
  trim_empty : trim "" = ""
  toLowerCase : String → String
  /-- `String(n)` of an integer -/
  printed : ℤ → String
  /-- `isRoutableChannel`, which asks the channel registry -/
  isRoutableChannel : String → Bool

section Routes

variable (H : RouteHost)

def normalizeOptionalString (value : Option String) : Option String :=
  (value.map H.trim).filter (· ≠ "")

/-- `[a-z0-9_-]` -/
def isIdChar (c : Char) : Bool := ('a' ≤ c && c ≤ 'z') || c.isDigit || c = '_' || c = '-'

/-- `VALID_ID_RE` -/
def isValidId (value : List Char) : Bool :=
  match value.map Char.toLower with
  | [] => false
  | c :: cs => isIdChar c && c ≠ '_' && c ≠ '-' && cs.all isIdChar && cs.length ≤ 63

/-- `.replace(/[^a-z0-9_-]+/g, "-")`, inside a run of other characters or not -/
def replaceInvalid (inside : Bool) : List Char → List Char
  | [] => []
  | c :: cs =>
    if isIdChar c then c :: replaceInvalid false cs
    else if inside then replaceInvalid true cs
    else '-' :: replaceInvalid true cs

def canonicalizeAccountId (value : String) : String :=
  let normalized := H.toLowerCase (H.trim value)
  if isValidId value.toList then normalized
  else String.ofList ((((replaceInvalid false normalized.toList).dropWhile (· = '-')).rdropWhile
    (· = '-')).take 64)

def isBlockedObjectKey (key : String) : Bool :=
  key = "__proto__" || key = "prototype" || key = "constructor"

/-- `normalizeOptionalAccountId`; its cache holds what it computes. -/
def normalizeOptionalAccountId (value : Option String) : Option String :=
  (normalizeOptionalString H value).bind fun trimmed =>
    (some (canonicalizeAccountId H trimmed)).filter fun id => id ≠ "" && !isBlockedObjectKey id

def stringifyRouteThreadId : Option ThreadId → Option String
  | some (.text s) => normalizeOptionalString H (some s)
  | some (.number (some n)) => some (H.printed (if 0 ≤ n then ⌊n⌋ else ⌈n⌉))
  | _ => none

/-- What `normalizeChannelRouteRef` makes of an origin, absent fields empty; the parts of
`channelRouteDedupeKey`. -/
structure ReplyRoute where
  channel : String
  target : String
  accountId : String
  threadId : String
deriving DecidableEq

def Origin.replyRoute (o : Origin) : ReplyRoute where
  channel := ((normalizeOptionalString H o.channel).map H.toLowerCase).getD ""
  target := (normalizeOptionalString H o.target).getD ""
  accountId := (normalizeOptionalAccountId H o.accountId).getD ""
  threadId := (stringifyRouteThreadId H o.threadId).getD ""

def channelRouteCompactKey (o : Origin) : Option String :=
  let r := o.replyRoute H
  if r.channel = "" ∨ r.target = "" then none
  else some ("|".intercalate [r.channel, r.target, r.accountId, r.threadId])

/-- A text that counts as true. -/
def truthy (value : Option String) : Option String := value.filter (· ≠ "")

/-- `threadId == null || threadId === ""` -/
def blankThread (threadId : Option ThreadId) : Bool :=
  threadId.isNone || threadId = some (.text "")

/-- The result of `resolveCrossChannelKey`. -/
inductive CrossKey where
  | blank
  | cross
  | key (k : String)
deriving DecidableEq

def CrossKey.key? : CrossKey → Option String
  | .key k => some k
  | _ => none

def resolveCrossChannelKey (o : Origin) : CrossKey :=
  if (truthy o.channel).isNone && (truthy o.target).isNone && (truthy o.accountId).isNone &&
      blankThread o.threadId then .blank
  else if !((truthy o.channel).elim false fun c => c ≠ "webchat" && H.isRoutableChannel c) ||
      (truthy o.target).isNone then .cross
  else
    match channelRouteCompactKey H o with
    | some k => .key k
    | none => .cross

def hasCrossChannelItems (items : List Queued) : Bool :=
  let resolved := items.map fun item => resolveCrossChannelKey H item.run.origin
  let keys := (resolved.filterMap CrossKey.key?).dedup
  resolved.any (· = .cross) ||
    (!keys.isEmpty && (resolved.any (· = .blank) || 1 < keys.length))

end Routes

def hasRuntimeOnlyFollowupMetadata (run : FollowupRun) : Bool :=
  run.roomEvent || run.hasTurnContext || run.abortSignal.isSome || run.deliveryCorrelations ≠ 0 ||
    run.hasLifecycle

/-- `resolveOriginRoutingMetadata`: the first of each field that is given. -/
def resolveOriginRoutingMetadata (items : List Queued) : Origin where
  channel := items.findSome? fun item => truthy item.run.origin.channel
  target := items.findSome? fun item => truthy item.run.origin.target
  accountId := items.findSome? fun item => truthy item.run.origin.accountId
  threadId := items.findSome? fun item => item.run.origin.threadId.filter (· ≠ .text "")

inductive QueueMode where
  | steer | followup | collect | interrupt
deriving DecidableEq

inductive DropPolicy where
  | old | new | summarize
deriving DecidableEq

/-- A `cap` of settings; `absent` is also what is no number, is NaN or not positive. -/
inductive CapSetting where
  | absent
  | finite (cap : ℚ)
  | infinity

structure QueueSettings where
  mode : QueueMode
  cap : CapSetting := .absent
  dropPolicy : Option DropPolicy := none

/-- An overflow summary: how many it names, by the runs, and its lines. -/
structure Summary where
  counted : List Queued
  lines : List String
deriving DecidableEq

inductive Await where
  /-- the call for `items[index]` in the first or second `dropAbortedFollowups` -/
  | aborting (second : Bool) (index dropped : ℕ)
  /-- the return of `dropAbortedFollowups` -/
  | abortsDone (second : Bool) (dropped : ℕ)
  | debounce
  /-- the call for `items[0]` in `drainNextQueueItem` -/
  | next
  /-- the return of `drainNextQueueItem` -/
  | nextDone
  /-- the same where there was no item -/
  | nextNone
  /-- the return of `drainCollectQueueStep` with `"skipped"` -/
  | skipped
  /-- the same with `"empty"` -/
  | empty
  /-- the call for a group of this size, with the groups after it -/
  | group (size : ℕ) (groups : List (List Queued)) (pendingSummary : Option Summary)
  /-- the call for a summary without an item -/
  | summaryOnly (summary : Summary)
  /-- the call for a summary with the origin of `items[0]` -/
  | summaryNext (summary : Summary)
  /-- the return of `drainNextQueueItem` after it -/
  | summaryNextDone (summary : Summary)
deriving DecidableEq

structure Drain where
  place : Await
  forceIndividualCollect : Bool
deriving DecidableEq

/-- `FollowupQueueState` -/
structure Queue where
  items : List Queued := []
  /-- the drain, if `draining` -/
  drain : Option Drain := none
  mode : QueueMode
  /-- `none` is `Infinity` -/
  cap : Option ℕ := some 20
  dropPolicy : DropPolicy := .summarize
  /-- the runs that `droppedCount` counts -/
  overflow : List Queued := []
  summaryLines : List String := []
  lastRun : Option AgentRun := none

/-- A call of `runFollowup`. -/
structure Call where
  /-- the items whose prompts are in it -/
  merged : List Queued
  summary : Option Summary := none
  run : AgentRun
  routing : Origin := {}
  /-- is it for an aborted run? -/
  aborted : Bool := false
deriving DecidableEq

def applyQueueRuntimeSettings (q : Queue) (s : QueueSettings) : Queue :=
  { q with
    mode := s.mode
    cap := match s.cap with
      | .finite c => if 0 < c then some ⌊c⌋.toNat else q.cap
      | .infinity => none
      | .absent => q.cap
    dropPolicy := s.dropPolicy.getD q.dropPolicy }

def getFollowupQueue (existing : Option Queue) (s : QueueSettings) : Queue :=
  applyQueueRuntimeSettings (existing.getD { mode := s.mode }) s

def previewQueueSummaryPrompt (q : Queue) : Option Summary :=
  if q.dropPolicy = .summarize ∧ q.overflow ≠ [] then some ⟨q.overflow, q.summaryLines⟩ else none

def clearFollowupQueueSummaryState (q : Queue) : Queue :=
  { q with overflow := [], summaryLines := [] }

/-- What a stretch of the drain leaves: the queue, unless it was deleted, and the call that
it made. -/
abbrev Stretch := Option Queue × List Call

section Drain

variable (H : RouteHost) (isFollowupRunAborted : Queued → Bool)

def awaiting (q : Queue) (force : Bool) (place : Await) (calls : List Call) : Stretch :=
  (some { q with drain := some ⟨place, force⟩ }, calls)

/-- The last item before an index that is aborted, with its index. -/
def lastAborted (items : List Queued) : ℕ → Option (ℕ × Queued)
  | 0 => none
  | i + 1 =>
    match items[i]? with
    | some item => if isFollowupRunAborted item then some (i, item) else lastAborted items i
    | none => lastAborted items i

/-- The loop of `dropAbortedFollowups` below an index. -/
def dropAbortedFollowups (q : Queue) (force second : Bool) (dropped index : ℕ) : Stretch :=
  match lastAborted isFollowupRunAborted q.items index with
  | some (i, item) =>
    awaiting q force (.aborting second i dropped)
      [{ merged := [item], run := item.run.run, routing := item.run.origin, aborted := true }]
  | none => awaiting q force (.abortsDone second dropped) []

/-- The end of the drain: the queue is deleted, or the drain starts anew. -/
def finish (q : Queue) : Stretch :=
  if q.items = [] ∧ q.overflow = [] then (none, [])
  else dropAbortedFollowups isFollowupRunAborted q false false 0 q.items.length

def loopTop (q : Queue) (force : Bool) : Stretch :=
  if q.items = [] ∧ q.overflow = [] then finish isFollowupRunAborted q
  else dropAbortedFollowups isFollowupRunAborted q force false 0 q.items.length

def drainNextQueueItem (q : Queue) (force : Bool) (none_ : Await) : Stretch :=
  match q.items with
  | [] => awaiting q force none_ []
  | item :: _ =>
    awaiting q force .next [{ merged := [item], run := item.run.run, routing := item.run.origin }]

/-- A summary without an item, if there is one and a last run. -/
def callSummary (q : Queue) (force : Bool) : Stretch :=
  match previewQueueSummaryPrompt q, q.lastRun with
  | some summary, some run =>
    awaiting q force (.summaryOnly summary) [{ merged := [], summary, run }]
  | _, _ => finish isFollowupRunAborted q

/-- The round of a drain after the debounce and the aborted runs. -/
def round (q : Queue) (force : Bool) : Stretch :=
  if q.mode = .collect then
    let isCrossChannel := hasCrossChannelItems H q.items ||
      q.items.any fun item => hasRuntimeOnlyFollowupMetadata item.run
    if !force && !isCrossChannel then awaiting q force .skipped []
    else drainNextQueueItem q (force || isCrossChannel) .empty
  else
    match previewQueueSummaryPrompt q with
    | none => drainNextQueueItem q force .nextNone
    | some summary =>
      match q.lastRun, q.items with
      | none, _ => finish isFollowupRunAborted q
      | some _, [] => awaiting q force .nextNone []
      | some run, item :: _ =>
        awaiting q force (.summaryNext summary)
          [{ merged := [], summary, run, routing := item.run.origin }]

/-- The call for the first group. -/
def callGroup (q : Queue) (force : Bool) (group : List Queued) (groups : List (List Queued))
    (summary : Option Summary) : Stretch :=
  match (group.getLast?.map (·.run.run)).or q.lastRun with
  | none => loopTop isFollowupRunAborted q force
  | some run =>
    awaiting q force (.group group.length groups summary)
      [{ merged := group, summary, run, routing := resolveOriginRoutingMetadata group }]

/-- The groups that are left. -/
def callGroups (q : Queue) (force : Bool) : List (List Queued) → Stretch
  | [] => loopTop isFollowupRunAborted q force
  | group :: groups => callGroup isFollowupRunAborted q force group groups none

/-- The drain from one await to the next. -/
def resume (q : Queue) (force : Bool) : Await → Stretch
  | .aborting second index dropped =>
    let q := { q with items := q.items.eraseIdx index }
    -- the loop reads beyond the items, which throws, if they were dropped meanwhile
    if q.items.length < index then finish isFollowupRunAborted q
    else dropAbortedFollowups isFollowupRunAborted q force second (dropped + 1) index
  | .abortsDone second dropped =>
    let q := if 0 < dropped ∧ q.items = [] then clearFollowupQueueSummaryState q else q
    if q.items = [] ∧ q.overflow = [] then finish isFollowupRunAborted q
    else if second then round H isFollowupRunAborted q force
    else awaiting q force .debounce []
  | .debounce => dropAbortedFollowups isFollowupRunAborted q force true 0 q.items.length
  | .next => awaiting { q with items := q.items.tail } force .nextDone []
  | .nextDone => loopTop isFollowupRunAborted q force
  | .nextNone => finish isFollowupRunAborted q
  | .skipped =>
    match splitCollectItemsByAuthorization q.items with
    | [] => callSummary isFollowupRunAborted q force
    | group :: groups =>
      callGroup isFollowupRunAborted q force group groups (previewQueueSummaryPrompt q)
  | .empty => callSummary isFollowupRunAborted q force
  | .group size groups pendingSummary =>
    let q := { q with items := q.items.drop size }
    let q := if pendingSummary.isSome then clearFollowupQueueSummaryState q else q
    callGroups isFollowupRunAborted q force groups
  | .summaryOnly _ => loopTop isFollowupRunAborted (clearFollowupQueueSummaryState q) force
  | .summaryNext summary =>
    awaiting { q with items := q.items.tail } force (.summaryNextDone summary) []
  | .summaryNextDone _ => loopTop isFollowupRunAborted (clearFollowupQueueSummaryState q) force

end Drain

/-- `applyQueueDropPolicy`, with what it drops; `none` is a refusal. -/
def applyQueueDropPolicy (q : Queue) : Option (Queue × List Queued) :=
  match q.cap with
  | none => some (q, [])
  | some cap =>
    if cap = 0 ∨ q.items.length < cap then some (q, [])
    else if q.dropPolicy = .new then none
    else
      let dropped := q.items.take (q.items.length - cap + 1)
      let q := { q with items := q.items.drop (q.items.length - cap + 1) }
      if q.dropPolicy = .summarize then
        let lines := q.summaryLines ++ dropped.map (·.run.summaryLine)
        some ({ q with
          overflow := q.overflow ++ dropped
          summaryLines := lines.drop (lines.length - cap) }, dropped)
      else some (q, dropped)

structure Enqueue where
  run : FollowupRun
  settings : QueueSettings
  /-- is the message recent or queued already, for the dedupe mode of the call? -/
  duplicate : Bool := false
  /-- is a `runFollowup` given? -/
  callback : Bool := true
  restartIfIdle : Bool := true

inductive Event where
  | enqueue (call : Enqueue)
  | abort (signal : ℕ)
  /-- `scheduleFollowupDrain` -/
  | schedule
  /-- what the drain awaits is there -/
  | resume

structure World where
  queue : Option Queue := none
  /-- has the key a callback? -/
  callback : Bool := false
  /-- the signals that are aborted -/
  aborted : List ℕ := []
  accepted : List Queued := []
  /-- the runs that were dropped under `old` -/
  discarded : List Queued := []
  /-- the runs that were dropped under `summarize` -/
  overflowed : List Queued := []
  calls : List Call := []

namespace World

variable (H : RouteHost) (w : World)

/-- `isFollowupRunAborted` -/
def isAborted (run : FollowupRun) : Bool := run.abortSignal.elim false (· ∈ w.aborted)

/-- Take over what a stretch of the drain leaves; with the queue goes the callback. -/
def after (stretch : Stretch) : World :=
  { w with
    queue := stretch.1
    callback := w.callback && stretch.1.isSome
    calls := w.calls ++ stretch.2 }

/-- `scheduleFollowupDrain`; a drain that starts remembers the callback. -/
def scheduleFollowupDrain : World :=
  match w.queue with
  | some q =>
    match q.drain with
    | none => { w with callback := true }.after (loopTop (fun item => w.isAborted item.run) q false)
    | some _ => w
  | none => w

def enqueueFollowupRun (call : Enqueue) : World :=
  if w.isAborted call.run then w
  else
    let q := getFollowupQueue w.queue call.settings
    if call.duplicate then { w with queue := some q }
    else
      let q := { q with lastRun := some call.run.run }
      match applyQueueDropPolicy q with
      | none => { w with queue := some q }
      | some (q, dropped) =>
        let w := { w with
          queue := some { q with items := q.items ++ [⟨w.accepted.length, call.run⟩] }
          callback := w.callback || call.callback
          accepted := w.accepted ++ [⟨w.accepted.length, call.run⟩]
          discarded := if q.dropPolicy = .old then w.discarded ++ dropped else w.discarded
          overflowed := if q.dropPolicy = .old then w.overflowed else w.overflowed ++ dropped }
        if call.restartIfIdle && q.drain.isNone && w.callback then w.scheduleFollowupDrain else w

def step : Event → World
  | .enqueue call => w.enqueueFollowupRun call
  | .abort signal => { w with aborted := w.aborted ++ [signal] }
  | .schedule => w.scheduleFollowupDrain
  | .resume =>
    match w.queue with
    | some q =>
      match q.drain with
      | some d =>
        w.after (Followup.resume H (fun item => w.isAborted item.run) q d.forceIndividualCollect d.place)
      | none => w
    | none => w

end World

end ClawHarder.Followup
