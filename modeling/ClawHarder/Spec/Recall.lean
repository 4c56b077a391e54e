import ClawHarder.Spec.CommandQueue
import ClawHarder.Spec.Manager
import ClawHarder.Spec.SlidingWindow

/-!
# Recalling evidence

`recall-tool.ts`: an artifact is read from the disk, compared with the hash of its
reference and shown in one of six modes, each line with its number. Every recall that
gets as far as the hash is recorded as an operation.

The limits of a configuration are natural numbers, the lines of a request integers.
-/

namespace ClawHarder

structure RecallConfig where
  defaultLines : ℕ := 40
  fullModeMaxLines : ℕ := 2000
  fullModeMaxBytes : ℕ := 200000
  searchContextLines : ℕ := 2
  searchMaxMatches : ℕ := 30

inductive RecallMode where
  | summary
  | head
  | tail
  | range
  | full
  | search
  deriving DecidableEq, Repr

def RecallMode.name : RecallMode → String
  | .summary => "summary"
  | .head => "head"
  | .tail => "tail"
  | .range => "range"
  | .full => "full"
  | .search => "search"

structure RecallRequest where
  refId : RefId
  mode : RecallMode
  startLine : Option ℤ := none
  endLine : Option ℤ := none
  query : Option String := none

/-- A line with its number, or a marker with the number -1. -/
structure RecallLine where
  n : ℤ
  text : String
  deriving DecidableEq

structure RecallResult where
  refId : RefId
  mode : RecallMode
  label : String
  totalLines : ℕ
  byteSize : ℕ
  source : String
  createdAt : String
  lines : List RecallLine
  matchCount : Option ℕ := none

inductive RecallFailure where
  | notFound
  | artifactMissing
  | hashMismatch
  | invalidRequest
  deriving DecidableEq, Repr

structure RecallError where
  refId : RefId
  reason : RecallFailure
  detail : String

/-- What the tool takes from the host. -/
structure RecallHost where
  toLowerCase : String → String
  /-- the message of the exception that `readFile` throws for a path -/
  readError : String → String

namespace Recall

/-- `raw.split("\n")` -/
def splitLines (raw : String) : List String := (raw.toList.splitOn '\n').map String.ofList

/-- `lines.join("\n").length` -/
def joinedLength (lines : List String) : ℕ := jsLength (String.intercalate "\n" lines)

/-- The place that an argument of `slice` names; a negative one counts from the end. -/
def slicePlace (length : ℕ) (k : ℤ) : ℕ := if k < 0 then (length + k).toNat else min k.toNat length

/-- `lines.slice(start, stop)` -/
def slice (start stop : ℤ) (lines : List String) : List String :=
  (lines.take (slicePlace lines.length stop)).drop (slicePlace lines.length start)

/-- The entry of the line at a place. -/
def entryAt (allLines : List String) (i : ℕ) : RecallLine := ⟨i + 1, allLines.getD i ""⟩

/-- The entries of lines, the first of which has this number. -/
def numbered (first : ℤ) (lines : List String) : List RecallLine :=
  lines.mapIdx fun i text => ⟨first + i, text⟩

def summaryMarker (omitted : ℕ) : String := "... [" ++ toString omitted ++ " lines omitted] ..."

/-- The lines of `execSummary`. -/
def summaryLines (config : RecallConfig) (allLines : List String) : List RecallLine :=
  let totalLines := allLines.length
  let n := min config.defaultLines (totalLines / 2)
  let tailStart := max n (totalLines - n)
  (List.range (min n totalLines)).map (entryAt allLines) ++
    (if n * 2 < totalLines then [⟨-1, summaryMarker (totalLines - n * 2)⟩] else []) ++
      (List.range' tailStart (totalLines - tailStart)).map (entryAt allLines)

def headLines (config : RecallConfig) (request : RecallRequest) (allLines : List String) :
    List String :=
  let count := request.endLine.getD config.defaultLines
  slice 0 count allLines

/-- The place of the first line that `execTail` shows. -/
def tailFrom (config : RecallConfig) (request : RecallRequest) (allLines : List String) : ℕ :=
  let count := request.startLine.getD config.defaultLines
  (allLines.length - count : ℤ).toNat

/-- The number of the first line that `execRange` shows. -/
def rangeStart (request : RecallRequest) : ℤ := max 1 (request.startLine.getD 1)

def rangeLines (request : RecallRequest) (allLines : List String) : List String :=
  let stop := min (allLines.length : ℤ) (request.endLine.getD allLines.length)
  slice (rangeStart request - 1) stop allLines

/-- The loop of `execFull`, after lines of this number and size. -/
def takeCapped (config : RecallConfig) : List String → ℕ → ℕ → List String
  | [], _, _ => []
  | line :: rest, taken, bytes =>
    if config.fullModeMaxLines ≤ taken ∨ config.fullModeMaxBytes < bytes + jsLength line then []
    else line :: takeCapped config rest (taken + 1) (bytes + jsLength line + 1)

def truncationMarker (omitted : ℕ) : String :=
  "[Truncated: " ++ toString omitted ++ " lines omitted. Use range mode for specific sections.]"

/-- The lines of `execFull`. -/
def fullLines (config : RecallConfig) (allLines : List String) (byteSize : ℕ) : List RecallLine :=
  if config.fullModeMaxLines < allLines.length ∨ config.fullModeMaxBytes < byteSize then
    let lines := takeCapped config allLines 0 0
    numbered 1 lines ++ [⟨-1, truncationMarker (allLines.length - lines.length)⟩]
  else numbered 1 allLines

/-- `text.includes(part)` -/
def includes (part text : String) : Bool := part.toList <:+: text.toList

/-- Does the line match, whatever the case of its letters? -/
def matchesQuery (H : RecallHost) (query line : String) : Bool :=
  includes (H.toLowerCase query) (H.toLowerCase line)

/-- `set.add(c)` -/
def addLine (set : List ℕ) (c : ℕ) : List ℕ := if c ∈ set then set else set ++ [c]

/-- The places in the context of a place. -/
def contextOf (ctx total i : ℕ) : List ℕ :=
  List.range' (i - ctx) (min (total - 1) (i + ctx) + 1 - (i - ctx))

/-- The loop over the lines from the `i`-th on, which collects the places to show. -/
def matchedLineNums (H : RecallHost) (query : String) (config : RecallConfig) (total : ℕ) :
    List String → ℕ → List ℕ → List ℕ
  | [], _, set => set
  | line :: rest, i, set =>
    if matchesQuery H query line then
      let set := (contextOf config.searchContextLines total i).foldl addLine set
      if config.searchMaxMatches * (config.searchContextLines * 2 + 1) ≤ set.length then set
      else matchedLineNums H query config total rest (i + 1) set
    else matchedLineNums H query config total rest (i + 1) set

def capMarker (maxMatches : ℕ) : String :=
  "[Search capped at " ++ toString maxMatches ++ " matches]"

/-- The loop over the places to show: the entries and the number of matches. -/
def resultLines (H : RecallHost) (query : String) (config : RecallConfig) (allLines : List String) :
    List ℕ → ℤ → ℕ → List RecallLine × ℕ
  | [], _, matchCount => ([], matchCount)
  | i :: rest, prevLine, matchCount =>
    let separator : List RecallLine := if prevLine + 1 < i ∧ 0 ≤ prevLine then [⟨-1, "---"⟩] else []
    let matchCount :=
      if matchesQuery H query (allLines.getD i "") then matchCount + 1 else matchCount
    if config.searchMaxMatches ≤ matchCount then
      (separator ++ [entryAt allLines i, ⟨-1, capMarker config.searchMaxMatches⟩], matchCount)
    else
      let (lines, matchCount) := resultLines H query config allLines rest i matchCount
      (separator ++ entryAt allLines i :: lines, matchCount)

/-- The lines of `execSearch`, with the number of matches. -/
def searchLines (H : RecallHost) (query : String) (config : RecallConfig) (allLines : List String) :
    List RecallLine × ℕ :=
  let sorted :=
    (matchedLineNums H query config allLines.length allLines 0 []).insertionSort (· ≤ ·)
  resultLines H query config allLines sorted (-2) 0

def validateRequest (request : RecallRequest) : Option String :=
  if request.mode = .range then
    match request.startLine, request.endLine with
    | some startLine, some endLine =>
      if startLine < 1 then some "start_line must be >= 1"
      else if endLine < startLine then some "end_line must be >= start_line"
      else none
    | _, _ => some "range mode requires both start_line and end_line"
  else if request.mode = .search ∧
      ¬ (request.query.any fun query => query.toList.any fun c => !CommandQueue.isBlank c) then
    some "search mode requires a non-empty query"
  else none

def exec (H : RecallHost) (config : RecallConfig) (ref : Reference) (allLines : List String)
    (byteSize : ℕ) (request : RecallRequest) : RecallResult :=
  let result (byteSize : ℕ) (lines : List RecallLine) (matchCount : Option ℕ) : RecallResult :=
    { refId := request.refId
      mode := request.mode
      label := ref.label
      totalLines := allLines.length
      byteSize
      source := ref.source
      createdAt := ref.createdAt
      lines
      matchCount }
  match request.mode with
  | .summary => result byteSize (summaryLines config allLines) none
  | .head =>
    let shown := headLines config request allLines
    result (joinedLength shown) (numbered 1 shown) none
  | .tail =>
    let start := tailFrom config request allLines
    let shown := allLines.drop start
    result (joinedLength shown) (numbered (start + 1) shown) none
  | .range =>
    let shown := rangeLines request allLines
    result (joinedLength shown) (numbered (rangeStart request) shown) none
  | .full => result byteSize (fullLines config allLines byteSize) none
  | .search =>
    let (lines, matchCount) := searchLines H (request.query.getD "") config allLines
    result 0 lines (some matchCount)

variable {N : Type} [JsNumber N]

/-- `RecallTool.recall`: the response, and the manager after it. -/
def recallEvidence (E : Env N) (H : RecallHost) (config : RecallConfig) (io : Io)
    (request : RecallRequest) (s : Engine N) : Except RecallError RecallResult × Engine N :=
  let fail (reason : RecallFailure) (detail : String) : Except RecallError RecallResult :=
    .error { refId := request.refId, reason, detail }
  match validateRequest request with
  | some validation => (fail .invalidRequest validation, s)
  | none =>
    match s.getReference request.refId with
    | none => (fail .notFound ("No reference found for " ++ request.refId), s)
    | some ref =>
      let artifact := if io.readFails then none else s.disk.artifacts.get? ref.path
      match artifact with
      | none =>
        (fail .artifactMissing ("Failed to read " ++ ref.path ++ ": " ++ H.readError ref.path), s)
      | some content =>
        let currentHash := E.sha256 content.text
        if currentHash ≠ ref.contentHash then
          (fail .hashMismatch ("Artifact integrity check failed for " ++ request.refId ++
              ". Content may have been modified."),
            s.recordOp E .recallEvent
              [("ref_id", .str request.refId), ("mode", .str request.mode.name),
                ("outcome", .str "hash_mismatch"), ("expected", .str ref.contentHash),
                ("actual", .str currentHash)])
        else
          let result :=
            exec H config ref (splitLines content.text) (jsLength content.text) request
          (.ok result,
            s.recordOp E .recallEvent
              ([("ref_id", .str request.refId), ("mode", .str request.mode.name),
                ("outcome", .str "success"), ("lines_returned", jsonNat result.lines.length)] ++
                optional "match_count" (result.matchCount.map jsonNat)))

end Recall

end ClawHarder
