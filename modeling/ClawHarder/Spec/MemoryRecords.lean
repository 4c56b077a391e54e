import ClawHarder.Lib.PyBuiltins

/-!
# The records of the memory, and their dictionaries

From `memory.py` and `canon_ledger.py`: the records that a runtime state nests, the
dictionary that each is written as, and the constructor that reads it back. A field
that a constructor takes over unconverted is any value.
-/

namespace ClawHarder.RuntimeCore

open PyText (lit)

/-- `d[key] = v` for the members of a literal dictionary. -/
def entry (key : String) (v : PyValue) : PyText × PyValue := (lit key, v)

/-- A text, or `None`. -/
def optText : Option PyText → PyValue
  | none => .none
  | some t => .str t

/-- A float, or `None`. -/
def optFloat : Option PyText → PyValue
  | none => .none
  | some t => .float t

/-- An integer, or `None`. -/
def optInt : Option ℤ → PyValue
  | none => .none
  | some n => .int n

variable (b : PyBuiltins)

structure MemoryFrame where
  role : PyValue
  content : PyValue
  ts : PyValue

def MemoryFrame.toDict (frame : MemoryFrame) : PyValue :=
  .dict [entry "role" frame.role, entry "content" frame.content, entry "ts" frame.ts]

structure StmEpoch where
  epochId : PyText
  epochSeq : ℤ
  openedAt : PyText
  messages : List MemoryFrame
  closedAt : Option PyText
  closeReason : Option PyText

def StmEpoch.toDict (e : StmEpoch) : PyValue :=
  .dict [
    entry "epoch_id" (.str e.epochId),
    entry "epoch_seq" (.int e.epochSeq),
    entry "opened_at" (.float e.openedAt),
    entry "closed_at" (optFloat e.closedAt),
    entry "close_reason" (optText e.closeReason),
    entry "messages" (.list (e.messages.map MemoryFrame.toDict))]

/-- A message of an epoch, read back. -/
def StmEpoch.messageFrom (item : PyValue) : Py MemoryFrame := do
  let role ← Py.get item "role" (.str (lit "unknown"))
  let content ← Py.get item "content" (.str [])
  let ts ← Py.get item "ts" (.float b.now)
  let ts ← b.float ts
  return ⟨.str (Py.str b role), .str (Py.str b content), .float ts⟩

def StmEpoch.fromDict (payload : PyValue) : Py StmEpoch := do
  let epochId ← Py.get payload "epoch_id" (.str [])
  let epochSeq ← Py.int b (← Py.get payload "epoch_seq" (.int 0))
  let openedAt ← b.float (← Py.get payload "opened_at" (.float b.now))
  let closedAt ← Py.optional b.float (← Py.get payload "closed_at" .none)
  let closeReason ← Py.optional (fun v => .ok (Py.str b v)) (← Py.get payload "close_reason" .none)
  let messages ← Py.items (← Py.get payload "messages" (.list []))
  let messages ← (messages.filter Py.isDict).mapM (StmEpoch.messageFrom b)
  return ⟨Py.str b epochId, epochSeq, openedAt, messages, closedAt, closeReason⟩

structure StmStore where
  maxEpochs : ℤ
  closeRoles : List PyText
  epochs : List StmEpoch
  openEpoch : Option StmEpoch
  nextEpochSeq : ℤ

def StmStore.toDict (s : StmStore) : PyValue :=
  .dict [
    entry "max_epochs" (.int s.maxEpochs),
    entry "close_roles" (.list (s.closeRoles.map .str)),
    entry "next_epoch_seq" (.int s.nextEpochSeq),
    entry "epochs" (.list (s.epochs.map StmEpoch.toDict)),
    entry "open_epoch" (match s.openEpoch with
      | some e => e.toDict
      | none => .none)]

/-- `_evict_if_needed` -/
def StmStore.evict (s : StmStore) : StmStore :=
  { s with epochs := s.epochs.drop (s.epochs.length - s.maxEpochs.toNat) }

/-- `tuple(str(role) for role in raw if isinstance(role, str)) or ("assistant",)` -/
def StmStore.rolesFrom (raw : List PyValue) : List PyText :=
  match raw.filterMap PyValue.asStr? with
  | [] => [lit "assistant"]
  | roles => roles

def StmStore.fromDict (payload : PyValue) : Py StmStore := do
  let roles ← Py.items (← Py.get payload "close_roles" (.list [.str (lit "assistant")]))
  let maxEpochs ← Py.int b (← Py.get payload "max_epochs" (.int 6))
  let nextEpochSeq ← Py.int b (← Py.get payload "next_epoch_seq" (.int 1))
  let epochs ← Py.items (← Py.get payload "epochs" (.list []))
  let epochs ← (epochs.filter Py.isDict).mapM (StmEpoch.fromDict b)
  let raw ← Py.get payload "open_epoch" .none
  let openEpoch ← if Py.isDict raw then (StmEpoch.fromDict b raw).map some else .ok none
  return StmStore.evict
    ⟨max 1 maxEpochs, StmStore.rolesFrom roles, epochs, openEpoch, max 1 nextEpochSeq⟩

structure SessionLedgerEntry where
  seq : ℤ
  eventKind : PyText
  ts : PyText
  epochSeq : Option ℤ
  role : Option PyText
  content : Option PyText
  metadata : PyDict

def SessionLedgerEntry.toDict (e : SessionLedgerEntry) : PyValue :=
  .dict [
    entry "seq" (.int e.seq),
    entry "event_kind" (.str e.eventKind),
    entry "ts" (.float e.ts),
    entry "epoch_seq" (optInt e.epochSeq),
    entry "role" (optText e.role),
    entry "content" (optText e.content),
    entry "metadata" (.dict e.metadata)]

def SessionLedgerEntry.fromDict (payload : PyValue) : Py SessionLedgerEntry := do
  let seq ← Py.int b (← Py.get payload "seq" (.int 0))
  let eventKind ← Py.get payload "event_kind" (.str (lit "unknown"))
  let ts ← b.float (← Py.get payload "ts" (.float b.now))
  let epochSeq ← Py.optional (Py.int b) (← Py.get payload "epoch_seq" .none)
  let role ← Py.optional (fun v => .ok (Py.str b v)) (← Py.get payload "role" .none)
  let content ← Py.optional (fun v => .ok (Py.str b v)) (← Py.get payload "content" .none)
  let metadata ← Py.get payload "metadata" (.dict [])
  let metadata ← Py.dict b (Py.orEmpty metadata)
  return ⟨seq, Py.str b eventKind, ts, epochSeq, role, content, metadata⟩

structure SessionLedger where
  entries : List SessionLedgerEntry
  nextSeq : ℤ

def SessionLedger.toDict (l : SessionLedger) : PyValue :=
  .dict [
    entry "next_seq" (.int l.nextSeq),
    entry "entries" (.list (l.entries.map SessionLedgerEntry.toDict))]

def SessionLedger.fromDict (payload : PyValue) : Py SessionLedger := do
  let entries ← Py.items (← Py.get payload "entries" (.list []))
  let entries ← (entries.filter Py.isDict).mapM (SessionLedgerEntry.fromDict b)
  let nextSeq ← Py.int b (← Py.get payload "next_seq" (.int (entries.length + 1)))
  return ⟨entries, if nextSeq ≤ 0 then entries.length + 1 else nextSeq⟩

structure SemanticItem where
  key : PyText
  content : PyValue
  ts : PyText
  retention : PyText

/-- `SemanticStore.write`, and what is then set on the item that it returns. -/
def semanticWrite (key : PyText) (content : PyValue) (ts : PyText) (retention : Option PyText) :
    List SemanticItem → List SemanticItem
  | [] => [⟨key, content, ts, retention.getD (lit "durable")⟩]
  | item :: rest =>
    if item.key = key then ⟨key, content, ts, retention.getD item.retention⟩ :: rest
    else item :: semanticWrite key content ts retention rest

structure MemoryStore where
  frames : List MemoryFrame
  /-- `_legacy_notes` -/
  notes : List PyValue
  semantic : List SemanticItem
  stm : StmStore
  mtm : SessionLedger
  lastLtmArtifact : Option PyDict
  ltmTocTail : List PyDict

/-- `f"legacy_note_{i}"` -/
def legacyNoteKey (i : ℕ) : PyText := lit ("legacy_note_" ++ toString i)

/-- The loop of `load_legacy_notes`. -/
def writeNotes (now : PyText) : ℕ → List PyValue → List SemanticItem → List SemanticItem
  | _, [], items => items
  | i, note :: notes, items =>
    writeNotes now (i + 1) notes (semanticWrite (legacyNoteKey i) note now none items)

/-- `Revision`, whose constructor converts nothing. -/
structure Revision where
  revisionId : PyValue
  originId : PyValue
  epochEffective : PyValue
  timestamp : PyValue
  alignmentSource : PyValue
  continuityFlags : PyValue
  claims : PyValue
  edges : PyValue
  content : PyValue

def Revision.toDict (r : Revision) : PyValue :=
  .dict [
    entry "revision_id" r.revisionId,
    entry "origin_id" r.originId,
    entry "epoch_effective" r.epochEffective,
    entry "timestamp" r.timestamp,
    entry "alignment_source" r.alignmentSource,
    entry "continuity_flags" r.continuityFlags,
    entry "claims" r.claims,
    entry "edges" r.edges,
    entry "content" r.content]

/-- The keyword arguments of a call `cls(**data)`: every key must be a parameter. -/
def keywords (parameters : List String) (data : PyValue) : Py PyDict :=
  match data with
  | .dict members =>
    if members.all (fun m => (parameters.map lit).contains m.1) then .ok members
    else .error .typeError
  | _ => .error .typeError

/-- The argument of a parameter, or its default. -/
def argument (members : PyDict) (parameter : String) (default : PyValue) : PyValue :=
  (PyValue.get? (lit parameter) members).getD default

/-- A new revision's id and timestamp. -/
structure Fresh where
  revisionId : PyText
  timestamp : PyText

def Revision.fromDict (fresh : Fresh) (data : PyValue) : Py Revision := do
  let args ← keywords ["revision_id", "origin_id", "epoch_effective", "timestamp",
    "alignment_source", "continuity_flags", "claims", "edges", "content"] data
  return {
    revisionId := argument args "revision_id" (.str fresh.revisionId)
    originId := argument args "origin_id" .none
    epochEffective := argument args "epoch_effective" (.int 0)
    timestamp := argument args "timestamp" (.str fresh.timestamp)
    alignmentSource := argument args "alignment_source" (.str (lit "SYSTEM_GENERATED"))
    continuityFlags := argument args "continuity_flags" (.list [])
    claims := argument args "claims" (.list [])
    edges := argument args "edges" (.list [])
    content := argument args "content" (.str []) }

end ClawHarder.RuntimeCore
