import ClawHarder.Spec.MemoryRecords

/-!
# Appending to the memory

`MemoryStore.append` and `MemoryStore.close_epoch` of `memory.py`, which write the frames
into the epochs of the short-term memory and rows into the session ledger. `Journal` is
the abstract memory: every turn of the conversation, with no window.
-/

namespace ClawHarder.RuntimeCore

open PyText (lit)

/-- A message as `append` makes it. -/
structure Message where
  role : PyText
  content : PyText
  ts : PyText
deriving DecidableEq

def Message.frame (m : Message) : MemoryFrame := ⟨.str m.role, .str m.content, .float m.ts⟩

/-- `f"EPOCH_{epoch_seq:06d}"` -/
def epochIdOf (epochSeq : ℤ) : PyText := lit "EPOCH_" ++ PyText.padded 6 epochSeq.toNat

structure StmAppendResult where
  epochId : PyText
  epochSeq : ℤ
  epochClosed : Bool
  epochCreated : Bool
  evictedEpochIds : List PyText

namespace StmStore

/-- What `_evict_if_needed` returns. -/
def evictedIds (s : StmStore) : List PyText :=
  (s.epochs.take (s.epochs.length - s.maxEpochs.toNat)).map (·.epochId)

/-- The open epoch, or one from `_begin_epoch`. -/
def openOrBegin (s : StmStore) (at_ : PyText) : StmEpoch × StmStore :=
  match s.openEpoch with
  | some epoch => (epoch, s)
  | none =>
    (⟨epochIdOf s.nextEpochSeq, s.nextEpochSeq, at_, [], none, none⟩,
      { s with nextEpochSeq := s.nextEpochSeq + 1 })

/-- An epoch joins the closed ones. -/
def pushClosed (s : StmStore) (epoch : StmEpoch) (closedAt : Option PyText) (reason : PyText) :
    StmStore :=
  { s with
    epochs := s.epochs ++ [{ epoch with closedAt := closedAt, closeReason := some reason }]
    openEpoch := none }

def appendFrame (s : StmStore) (m : Message) : StmAppendResult × StmStore :=
  let created := s.openEpoch.isNone
  let (begun, s) := s.openOrBegin m.ts
  let epoch := { begun with messages := begun.messages ++ [m.frame] }
  if m.role ∈ s.closeRoles then
    let full := s.pushClosed epoch (some m.ts) (lit "assistant_turn_complete")
    (⟨epoch.epochId, epoch.epochSeq, true, created, full.evictedIds⟩, full.evict)
  else
    (⟨epoch.epochId, epoch.epochSeq, false, created, []⟩, { s with openEpoch := some epoch })

/-- `frame.ts`, which is a float -/
def frameTime (frame : MemoryFrame) : Option PyText :=
  match frame.ts with
  | .float r => some r
  | _ => none

/-- `force_close`, without a time -/
def forceClose (s : StmStore) (reason : PyText) : (Option StmEpoch × List PyText) × StmStore :=
  match s.openEpoch with
  | none => ((none, []), s)
  | some epoch =>
    match epoch.messages.getLast? with
    | none => ((none, []), { s with openEpoch := none })
    | some last =>
      let full := s.pushClosed epoch (frameTime last) reason
      ((full.epochs.getLast?, full.evictedIds), full.evict)

/-- `active_prompt_frames()` -/
def activePromptFrames (s : StmStore) : List MemoryFrame :=
  (s.epochs ++ s.openEpoch.toList).flatMap (·.messages)

end StmStore

/-- The kinds of rows that the memory's own operations write. -/
inductive EventKind where
  | messageAppended
  | epochCreated
  | epochClosed
  | stmEpochEvicted
  | epochEvicted
deriving DecidableEq

def EventKind.text : EventKind → PyText
  | .messageAppended => lit "message.appended"
  | .epochCreated => lit "epoch_created"
  | .epochClosed => lit "epoch_closed"
  | .stmEpochEvicted => lit "stm_epoch_evicted"
  | .epochEvicted => lit "epoch_evicted"

/-- The arguments of `append_event`. -/
structure LedgerRow where
  kind : EventKind
  epochSeq : Option ℤ := none
  role : Option PyText := none
  content : Option PyText := none
  ts : Option PyText := none
  metadata : PyDict

section Clock

-- `clock n` is what `time()` returns while row `n` is written
variable (clock : ℤ → PyText)

def LedgerRow.entry (row : LedgerRow) (seq : ℤ) : SessionLedgerEntry where
  seq := seq
  eventKind := row.kind.text
  ts := row.ts.getD (clock seq)
  epochSeq := row.epochSeq
  role := row.role
  content := row.content
  metadata := row.metadata

def SessionLedger.appendEvent (l : SessionLedger) (row : LedgerRow) : SessionLedger where
  entries := l.entries ++ [row.entry clock l.nextSeq]
  nextSeq := l.nextSeq + 1

/-- The rows for the evicted epochs. -/
def evictedRows (ids : List PyText) (reason : PyDict) : List LedgerRow :=
  ids.flatMap fun id => [
    { kind := .stmEpochEvicted, metadata := entry "epoch_id" (.str id) :: reason },
    { kind := .epochEvicted,
      metadata :=
        entry "epoch_id" (.str id) :: reason ++ [entry "source" (.str (lit "stm_window"))] }]

/-- `SessionLedger.append_frame` -/
def messageRow (m : Message) (r : StmAppendResult) : LedgerRow where
  kind := .messageAppended
  epochSeq := some r.epochSeq
  role := some m.role
  content := some m.content
  ts := some m.ts
  metadata := [
    entry "epoch_id" (.str r.epochId),
    entry "epoch_closed" (.bool r.epochClosed),
    entry "epoch_created" (.bool r.epochCreated),
    entry "evicted_epoch_ids" (.list (r.evictedEpochIds.map .str))]

/-- The rows of `append`, in order. -/
def appendRows (m : Message) (r : StmAppendResult) : List LedgerRow :=
  [messageRow m r] ++
  (if r.epochCreated then
    [{ kind := .epochCreated
       epochSeq := some r.epochSeq
       metadata := [entry "epoch_id" (.str r.epochId), entry "opened_by_role" (.str m.role)] }]
  else []) ++
  (if r.epochClosed then
    [{ kind := .epochClosed
       epochSeq := some r.epochSeq
       metadata := [entry "epoch_id" (.str r.epochId)] }]
  else []) ++
  evictedRows r.evictedEpochIds []

/-- The rows of `close_epoch`, in order. -/
def closeRows (reason : PyText) (closed : Option StmEpoch) (evicted : List PyText) :
    List LedgerRow :=
  (match closed with
  | none => []
  | some epoch =>
    [{ kind := .epochClosed
       epochSeq := some epoch.epochSeq
       metadata := [entry "epoch_id" (.str epoch.epochId), entry "reason" (.str reason)] }]) ++
  evictedRows evicted [entry "reason" (.str reason)]

/-- `EpisodicStore.append`: at most 500 frames are kept. -/
def appendEpisodic (frames : List MemoryFrame) (frame : MemoryFrame) : List MemoryFrame :=
  (frames ++ [frame]).drop ((frames ++ [frame]).length - 500)

namespace MemoryStore

def append (s : MemoryStore) (m : Message) : MemoryStore :=
  let (result, stm) := s.stm.appendFrame m
  { s with
    frames := appendEpisodic s.frames m.frame
    stm := stm
    mtm := (appendRows m result).foldl (SessionLedger.appendEvent clock) s.mtm }

def closeEpoch (s : MemoryStore) (reason : PyText) : MemoryStore :=
  let ((closed, evicted), stm) := s.stm.forceClose reason
  { s with
    stm := stm
    mtm := (closeRows reason closed evicted).foldl (SessionLedger.appendEvent clock) s.mtm }

end MemoryStore

inductive MemoryCall where
  | append (m : Message)
  | closeEpoch (reason : PyText)

def memoryStep (s : MemoryStore) : MemoryCall → MemoryStore
  | .append m => s.append clock m
  | .closeEpoch reason => s.closeEpoch clock reason

end Clock

/-- The parameters of a store that `StmStore()` and `from_dict` build: `from_dict` raises a
maximum to 1 and replaces an empty tuple of roles. -/
structure StmConfig where
  maxEpochs : ℤ
  closeRoles : List PyText
  one_le : 1 ≤ maxEpochs
  roles_ne : closeRoles ≠ []

def StmConfig.default : StmConfig where
  maxEpochs := 6
  closeRoles := [lit "assistant"]
  one_le := by decide
  roles_ne := by decide

/-- `MemoryStore(stm=StmStore(max_epochs, close_roles))` -/
def StmConfig.newMemory (c : StmConfig) : MemoryStore where
  frames := []
  notes := []
  semantic := []
  stm := ⟨c.maxEpochs, c.closeRoles, [], none, 1⟩
  mtm := ⟨[], 1⟩
  lastLtmArtifact := none
  ltmTocTail := []

/-- A turn that has ended, and why. -/
structure Turn where
  messages : List Message
  reason : PyText

/-- A conversation: its turns, and the messages of the one that goes on. -/
structure Journal where
  closed : List Turn := []
  current : List Message := []

namespace Journal

/-- A message of a closing role ends its turn. -/
def append (roles : List PyText) (j : Journal) (m : Message) : Journal :=
  if m.role ∈ roles then
    ⟨j.closed ++ [⟨j.current ++ [m], lit "assistant_turn_complete"⟩], []⟩
  else ⟨j.closed, j.current ++ [m]⟩

def close (j : Journal) (reason : PyText) : Journal :=
  if j.current = [] then j else ⟨j.closed ++ [⟨j.current, reason⟩], []⟩

def step (roles : List PyText) (j : Journal) : MemoryCall → Journal
  | .append m => j.append roles m
  | .closeEpoch reason => j.close reason

end Journal

/-- The epoch of a turn that goes on. -/
def epochOf (epochSeq : ℤ) (messages : List Message) : StmEpoch where
  epochId := epochIdOf epochSeq
  epochSeq := epochSeq
  openedAt := (messages.head?.map (·.ts)).getD []
  messages := messages.map Message.frame
  closedAt := none
  closeReason := none

/-- The epoch of a turn that has ended. -/
def Turn.epoch (epochSeq : ℤ) (t : Turn) : StmEpoch :=
  { epochOf epochSeq t.messages with
    closedAt := t.messages.getLast?.map (·.ts)
    closeReason := some t.reason }

namespace Journal

/-- The epochs ever closed, in order. -/
def everClosed (j : Journal) : List StmEpoch := j.closed.mapIdx fun i t => t.epoch (i + 1)

def openEpoch (j : Journal) : Option StmEpoch :=
  if j.current = [] then none else some (epochOf (j.closed.length + 1) j.current)

/-- How many epochs were ever opened. -/
def opened (j : Journal) : ℕ := j.closed.length + if j.current = [] then 0 else 1

/-- Every message, with the number of its epoch. -/
def numbered (j : Journal) : List (ℤ × Message) :=
  (j.closed.mapIdx fun i t => t.messages.map fun m => ((i : ℤ) + 1, m)).flatten ++
    j.current.map fun m => ((j.closed.length : ℤ) + 1, m)

end Journal

end ClawHarder.RuntimeCore
