import ClawHarder.Spec.Epochs

/-!
# The long-term archive

`LtmArchive` and `MemoryStore.close_session` of `memory.py`. A session is compressed
into an artifact, which is appended to `ltm.jsonl`; the table of contents in
`ltm_toc.json` is then read, extended and written back. A file that `json.dumps` wrote
is given by the value that it reads back.
-/

namespace ClawHarder.RuntimeCore

open PyText (lit)

structure LtmEpisodeArtifact where
  artifactId : PyText
  sessionId : PyText
  createdAt : PyText
  sourceSeqStart : ℤ
  sourceSeqEnd : ℤ
  entryCount : ℕ
  epochCount : ℕ
  summary : PyText
  openLoops : List PyText
  provenanceRefs : List ℤ
  metadata : PyDict

def LtmEpisodeArtifact.toDict (a : LtmEpisodeArtifact) : PyDict := [
  entry "artifact_id" (.str a.artifactId),
  entry "session_id" (.str a.sessionId),
  entry "created_at" (.float a.createdAt),
  entry "source_seq_start" (.int a.sourceSeqStart),
  entry "source_seq_end" (.int a.sourceSeqEnd),
  entry "entry_count" (.int a.entryCount),
  entry "epoch_count" (.int a.epochCount),
  entry "summary" (.str a.summary),
  entry "open_loops" (.list (a.openLoops.map .str)),
  entry "provenance_refs" (.list (a.provenanceRefs.map .int)),
  entry "metadata" (.dict a.metadata)]

/-- The entry of an artifact in the table of contents. -/
def LtmEpisodeArtifact.tocEntry (a : LtmEpisodeArtifact) : PyDict := [
  entry "artifact_id" (.str a.artifactId),
  entry "session_id" (.str a.sessionId),
  entry "created_at" (.float a.createdAt),
  entry "source_seq_start" (.int a.sourceSeqStart),
  entry "source_seq_end" (.int a.sourceSeqEnd),
  entry "entry_count" (.int a.entryCount),
  entry "epoch_count" (.int a.epochCount),
  entry "summary" (.str a.summary)]

/-- `_summary` -/
def summaryOf (entries : List SessionLedgerEntry) (stm : StmStore) : PyText :=
  let userMsgs := entries.countP fun e => e.role = some (lit "user")
  let assistantMsgs := entries.countP fun e => e.role = some (lit "assistant")
  lit ("Session compressed with " ++ toString entries.length ++ " ledger entries, " ++
    toString stm.epochs.length ++ " closed epochs, " ++ toString userMsgs ++ " user messages, " ++
    toString assistantMsgs ++ " assistant messages.")

/-- One turn of the loop of `_open_loops`: the last user message, and whether it was
answered. -/
def openLoop (acc : Option PyText × Bool) (e : SessionLedgerEntry) : Option PyText × Bool :=
  if e.role = some (lit "user") ∧ e.content.getD [] ≠ [] then (e.content, false)
  else if e.role = some (lit "assistant") ∧ acc.1.isSome then (acc.1, true)
  else acc

/-- `_open_loops` -/
def openLoopsOf (entries : List SessionLedgerEntry) : List PyText :=
  match entries.foldl openLoop (none, false) with
  | (some content, false) => [content.take 280]
  | _ => []

/-- What a compression takes from its surroundings. -/
structure CloseDraws where
  /-- `uuid.uuid4().hex[:10]` -/
  hex : PyText
  /-- `time()` -/
  createdAt : PyText

/-- The artifact of a session. -/
def artifactOf (draws : CloseDraws) (sessionId : PyText) (ledger : SessionLedger)
    (stm : StmStore) : LtmEpisodeArtifact where
  artifactId := lit "LTM_" ++ sessionId ++ lit "_" ++ draws.hex
  sessionId := sessionId
  createdAt := draws.createdAt
  sourceSeqStart := (ledger.entries.head?.map (·.seq)).getD 0
  sourceSeqEnd := (ledger.entries.getLast?.map (·.seq)).getD 0
  entryCount := ledger.entries.length
  epochCount := stm.epochs.length
  summary := summaryOf ledger.entries stm
  openLoops := openLoopsOf ledger.entries
  provenanceRefs := ledger.entries.map (·.seq)
  metadata := [entry "compression_policy" (.str (lit "deterministic-v1"))]

inductive TocFile where
  | missing
  /-- bytes that are no text -/
  | undecodable
  /-- a text that is no JSON -/
  | garbled
  | json (v : PyValue)

/-- Does the file hold a dictionary? -/
def TocFile.holdsDict : TocFile → Bool
  | .json (.dict _) => true
  | _ => false

/-- A table of contents that cannot be read as one. -/
def UnreadableToc := { f : TocFile // f.holdsDict = false }

structure LtmArchive where
  /-- the lines of `ltm.jsonl` -/
  episodes : List LtmEpisodeArtifact
  toc : TocFile

def LtmArchive.empty : LtmArchive := ⟨[], .missing⟩

def emptyToc : PyDict :=
  [entry "version" (.str (lit "ltm-toc-v1")), entry "episodes" (.list [])]

/-- `d.setdefault("episodes", [])` -/
def withEpisodes (d : PyDict) : PyDict :=
  match PyValue.get? (lit "episodes") d with
  | some _ => d
  | none => PyValue.set (lit "episodes") (.list []) d

/-- `_load_toc`; only what is no JSON is caught. -/
def loadToc : TocFile → Py PyDict
  | .missing => .ok emptyToc
  | .undecodable => .error .valueError
  | .garbled => .ok emptyToc
  | .json (.dict d) => .ok (withEpisodes d)
  | .json _ => .ok emptyToc

/-- `list(toc.get("episodes", []))` of the table in a file -/
def tocEntries (f : TocFile) : Py (List PyValue) := do
  let toc ← loadToc f
  Py.items ((PyValue.get? (lit "episodes") toc).getD (.list []))

/-- The table of contents with one more artifact. -/
def extendToc (f : TocFile) (artifact : LtmEpisodeArtifact) : Py PyDict := do
  let toc ← loadToc f
  let entries ← tocEntries f
  return PyValue.set (lit "version") (.str (lit "ltm-toc-v1"))
    (PyValue.set (lit "episodes") (.list (entries ++ [.dict artifact.tocEntry])) toc)

/-- `compress_session`, up to the table of contents -/
def LtmArchive.append (a : LtmArchive) (artifact : LtmEpisodeArtifact) : LtmArchive :=
  { a with episodes := a.episodes ++ [artifact] }

/-- `compress_session`: the artifact is appended first. -/
def LtmArchive.compressSession (a : LtmArchive) (draws : CloseDraws) (sessionId : PyText)
    (ledger : SessionLedger) (stm : StmStore) : Py LtmEpisodeArtifact × LtmArchive :=
  let artifact := artifactOf draws sessionId ledger stm
  let a := a.append artifact
  match extendToc a.toc artifact with
  | .ok toc => (.ok artifact, { a with toc := .json (.dict toc) })
  | .error e => (.error e, a)

section Close

variable (b : PyBuiltins) (clock : ℤ → PyText)

/-- `append_event(event_kind=..., metadata=...)` -/
def SessionLedger.note (kind : String) (metadata : PyDict) (l : SessionLedger) :
    SessionLedger where
  entries := l.entries ++ [{
    seq := l.nextSeq
    eventKind := lit kind
    ts := clock l.nextSeq
    epochSeq := none
    role := none
    content := none
    metadata := metadata }]
  nextSeq := l.nextSeq + 1

/-- The memory that a session is compressed from. -/
def MemoryStore.beforeCompression (m : MemoryStore) (sessionId : PyText) : MemoryStore :=
  let m := m.closeEpoch clock (lit "session_closed")
  let session : PyDict := [entry "session_id" (.str sessionId)]
  let mtm := m.mtm.note clock "session_closed" session
  { m with mtm := mtm.note clock "compression_started" session }

/-- The last entries of the table of contents, which is a list: it was just written. -/
def tocTail (f : TocFile) : Py (List PyDict) := do
  let toc ← loadToc f
  match (PyValue.get? (lit "episodes") toc).getD (.list []) with
  | .list entries => (entries.drop (entries.length - 24)).mapM (Py.dict b)
  | _ => .error .typeError

/-- The memory after a session was compressed into an artifact. -/
def MemoryStore.afterCompression (m : MemoryStore) (artifact : LtmEpisodeArtifact)
    (tail : List PyDict) : MemoryStore :=
  let written : PyDict :=
    [entry "session_id" (.str artifact.sessionId), entry "artifact_id" (.str artifact.artifactId)]
  let mtm := m.mtm.note clock "ltm_artifact_written" written
  let mtm := mtm.note clock "compression_completed" written
  { m with
    mtm := mtm.note clock "ltm_promoted" written
    lastLtmArtifact := some artifact.toDict
    ltmTocTail := tail }

/-- `close_session`, with the archive after it -/
def MemoryStore.closeSession (m : MemoryStore) (draws : CloseDraws) (sessionId : PyText)
    (a : LtmArchive) : Py (LtmEpisodeArtifact × MemoryStore) × LtmArchive :=
  let m := m.beforeCompression clock sessionId
  match a.compressSession draws sessionId m.mtm m.stm with
  | (.error e, a) => (.error e, a)
  | (.ok artifact, a) =>
    (do
      let tail ← tocTail b a.toc
      return (artifact, m.afterCompression clock artifact tail), a)

/-- A call of `close_session` by some session with its memory. -/
structure CloseCall where
  memory : MemoryStore
  draws : CloseDraws
  sessionId : PyText

/-- What happens to an archive. -/
inductive LtmEvent where
  | close (call : CloseCall)
  /-- a call that crashes between the append and the table of contents -/
  | interrupted (call : CloseCall)
  /-- the table of contents becomes unreadable -/
  | spoil (toc : UnreadableToc)

def CloseCall.artifact (call : CloseCall) : LtmEpisodeArtifact :=
  let m := call.memory.beforeCompression clock call.sessionId
  artifactOf call.draws call.sessionId m.mtm m.stm

def ltmStep (a : LtmArchive) : LtmEvent → LtmArchive
  | .close call => (call.memory.closeSession b clock call.draws call.sessionId a).2
  | .interrupted call => a.append (call.artifact clock)
  | .spoil toc => { a with toc := toc.1 }

end Close

end ClawHarder.RuntimeCore
