import ClawHarder.Spec.OcPath

/-!
# Splitting markdown

From `auto-reply/chunk.ts` and `markdown/fences.ts`: `chunkMarkdownText`, with what it calls. A text
is the list of its UTF-16 code units. A loop whose end is to be shown takes fuel, and gives none
where that runs out.
-/

namespace ClawHarder.MarkdownChunks

open OcPaths (Units isSpace)

abbrev newline : ℕ := 0x0A
abbrev space : ℕ := 0x20
abbrev openParen : ℕ := 0x28
abbrev closeParen : ℕ := 0x29
abbrev backtick : ℕ := 0x60
abbrev tilde : ℕ := 0x7E

/-- `text.slice(start, end)` -/
def slice (text : Units) (start stop : ℕ) : Units := (text.take stop).drop start

structure FenceSpan where
  start : ℕ
  /-- `end` -/
  stop : ℕ
  openLine : Units
  marker : Units
  indent : Units
deriving DecidableEq

/-- `open` of `parseFenceSpans` -/
structure OpenFence where
  start : ℕ
  openLine : Units
  marker : Units
  indent : Units
deriving DecidableEq

def OpenFence.markerChar (f : OpenFence) : Option ℕ := f.marker.head?

def OpenFence.span (f : OpenFence) (stop : ℕ) : FenceSpan :=
  { start := f.start, stop, openLine := f.openLine, marker := f.marker, indent := f.indent }

/-- What `.` does not match. -/
def isTerminator (c : ℕ) : Bool := [0x0A, 0x0D, 0x2028, 0x2029].contains c

/-- The indent and the marker that `/^( {0,3})(`{3,}|~{3,})(.*)$/` finds. -/
def matchFence (line : Units) : Option (Units × Units) :=
  let indent := line.takeWhile fun c => c = space
  match line.drop indent.length with
  | [] => none
  | c :: rest =>
    let marker := c :: rest.takeWhile fun d => d = c
    if (c = backtick || c = tilde) && decide (indent.length ≤ 3) && decide (3 ≤ marker.length) &&
        !(rest.dropWhile fun d => d = c).any isTerminator then
      some (indent, marker)
    else none

/-- The open fence after a line at an offset, and the span that the line closes. -/
def scanLine (offset : ℕ) (line : Units) (openFence : Option OpenFence) :
    Option OpenFence × Option FenceSpan :=
  match matchFence line with
  | none => (openFence, none)
  | some (indent, marker) =>
    match openFence with
    | none => (some { start := offset, openLine := line, marker, indent }, none)
    | some f =>
      if f.markerChar = marker.head? ∧ f.marker.length ≤ marker.length then
        (none, some (f.span (offset + line.length)))
      else (some f, none)

/-- The loop of `parseFenceSpans` over the lines. -/
def scanLines (offset : ℕ) (openFence : Option OpenFence) :
    List Units → List FenceSpan × Option OpenFence
  | [] => ([], openFence)
  | line :: lines =>
    let (openFence, closed) := scanLine offset line openFence
    let (spans, openFence) := scanLines (offset + line.length + 1) openFence lines
    (closed.toList ++ spans, openFence)

def parseFenceSpans (buffer : Units) : List FenceSpan :=
  let (spans, openFence) := scanLines 0 none (buffer.splitOn newline)
  spans ++ (openFence.map fun f => f.span buffer.length).toList

/-- The loop of `findFenceSpanAt`, with `high + 1` in place of `high`. -/
def searchSpan (spans : List FenceSpan) (index low high : ℕ) : Option FenceSpan :=
  if low < high then
    let mid := (low + (high - 1)) / 2
    match spans[mid]? with
    | none => none
    | some span =>
      if index ≤ span.start then searchSpan spans index low mid
      else if span.stop ≤ index then searchSpan spans index (mid + 1) high
      else some span
  else none
termination_by high - low

def findFenceSpanAt (spans : List FenceSpan) (index : ℕ) : Option FenceSpan :=
  searchSpan spans index 0 spans.length

def isSafeFenceBreak (spans : List FenceSpan) (index : ℕ) : Bool :=
  (findFenceSpanAt spans index).isNone

structure Breakpoints where
  lastNewline : Option ℕ := none
  lastWhitespace : Option ℕ := none
  depth : ℕ := 0

/-- One turn of the loop of `scanParenAwareBreakpoints`. -/
def scanBreakpoint (text : Units) (isAllowed : ℕ → Bool) (found : Breakpoints) (i : ℕ) :
    Breakpoints :=
  if !isAllowed i then found
  else
    let char := text[i]?.getD 0
    if char = openParen then { found with depth := found.depth + 1 }
    else if char = closeParen ∧ 0 < found.depth then { found with depth := found.depth - 1 }
    else if found.depth ≠ 0 then found
    else if char = newline then { found with lastNewline := some i }
    else if isSpace char then { found with lastWhitespace := some i }
    else found

/-- `scanParenAwareBreakpoints`, with none for -1 -/
def scanParenAwareBreakpoints (text : Units) (start stop : ℕ) (isAllowed : ℕ → Bool) :
    Breakpoints :=
  (List.range' start (stop - start)).foldl (scanBreakpoint text isAllowed) {}

/-- `pickSafeBreakIndex`, with none for -1 -/
def pickSafeBreakIndex (text : Units) (start stop : ℕ) (spans : List FenceSpan) : Option ℕ :=
  let found := scanParenAwareBreakpoints text start stop (isSafeFenceBreak spans)
  (found.lastNewline.filter fun i => start < i).or (found.lastWhitespace.filter fun i => start < i)

/-- `text.lastIndexOf(c, from)`, in which a negative `from` counts as 0 -/
def lastIndexOf (text : Units) (c : ℕ) : ℕ → Option ℕ
  | 0 => if text[0]? = some c then some 0 else none
  | i + 1 => if text[i + 1]? = some c then some (i + 1) else lastIndexOf text c i

/-- The loop over the newlines in the window: the break behind one of them, if there is one. -/
def pickNewline (text : Units) (spans : List FenceSpan) (fence : FenceSpan)
    (start minProgressIdx : ℕ) : ℕ → Option ℕ → Option (Option ℕ)
  | _, none => some none
  | 0, some _ => none
  | fuel + 1, some lastNewline =>
    if lastNewline < start then some none
    else
      let candidateBreak := lastNewline + 1
      if candidateBreak < minProgressIdx then some none
      else if (findFenceSpanAt spans candidateBreak).any fun f => f.start = fence.start then
        some (some candidateBreak)
      else
        pickNewline text spans fence start minProgressIdx fuel
          (lastIndexOf text newline (lastNewline - 1))

def FenceSpan.closeLine (f : FenceSpan) : Units := f.indent ++ f.marker

structure ChunkState where
  start : ℕ
  reopenFence : Option FenceSpan

def ChunkState.reopenPrefix (s : ChunkState) : Units :=
  match s.reopenFence with
  | none => []
  | some f => f.openLine ++ [newline]

section

variable (text : Units) (limit : ℕ) (s : ChunkState)

def contentLimit : ℕ := max 1 (limit - s.reopenPrefix.length)

def windowEnd : ℕ := min text.length (s.start + contentLimit limit s)

/-- `breakIdx`, as it is set first -/
def firstBreak : ℕ :=
  (pickSafeBreakIndex text s.start (windowEnd text limit s) (parseFenceSpans text)).getD
    (windowEnd text limit s)

def initialFence : Option FenceSpan :=
  findFenceSpanAt (parseFenceSpans text) (firstBreak text limit s)

def minProgressIdx (fence : FenceSpan) : ℕ :=
  min text.length (max (s.start + 1) (fence.start + fence.openLine.length + 2))

/-- `maxIdxIfNeedNewline`, where it is behind the start -/
def maxIdxIfNeedNewline (fence : FenceSpan) : ℕ :=
  s.start + (contentLimit limit s - (fence.closeLine.length + 1))

/-- `maxIdxIfAlreadyNewline`, where `maxIdxIfNeedNewline` is behind the start -/
def maxIdxIfAlreadyNewline (fence : FenceSpan) : ℕ :=
  s.start + (contentLimit limit s - fence.closeLine.length)

/-- The break behind a newline of the fence, if one is picked. -/
def pickedNewline (fence : FenceSpan) : Option (Option ℕ) :=
  pickNewline text (parseFenceSpans text) fence s.start (minProgressIdx text s fence)
    (text.length + 1)
    (lastIndexOf text newline (max s.start (maxIdxIfAlreadyNewline limit s fence - 1)))

/-- `breakIdx` in a fence. What the branches set `fenceToSplit` to is set again behind them. -/
def fencedBreak (fence : FenceSpan) : Option ℕ :=
  if contentLimit limit s ≤ fence.closeLine.length + 1 then some (windowEnd text limit s)
  else
    match pickedNewline text limit s fence with
    | none => none
    | some (some candidateBreak) => some candidateBreak
    | some none =>
      if maxIdxIfAlreadyNewline limit s fence < minProgressIdx text s fence then
        some (windowEnd text limit s)
      else some (max (minProgressIdx text s fence) (maxIdxIfNeedNewline limit s fence))

/-- `breakIdx` and `fenceToSplit` -/
def breakAt : Option (ℕ × Option FenceSpan) :=
  match initialFence text limit s with
  | none => some (firstBreak text limit s, none)
  | some fence => (fencedBreak text limit s fence).map fun breakIdx =>
      (breakIdx, (findFenceSpanAt (parseFenceSpans text) breakIdx).filter fun f =>
        f.start = fence.start)

def skipLeadingNewlines (value : Units) (start : ℕ) : ℕ :=
  start + ((value.drop start).takeWhile fun c => c = newline).length

/-- A chunk: what is opened again, where it is in the text, and what is closed. -/
structure Piece where
  reopenPrefix : Units
  start : ℕ
  stop : ℕ
  closing : Units := []
deriving DecidableEq

/-- `rawContent` -/
def Piece.content (text : Units) (p : Piece) : Units := slice text p.start p.stop

def Piece.chunk (text : Units) (p : Piece) : Units :=
  p.reopenPrefix ++ p.content text ++ p.closing

/-- What a turn of the loop does: it breaks with or without a last chunk, or it pushes one. -/
inductive Turn where
  | last (piece : Piece)
  | stop
  | push (piece : Piece) (next : ChunkState)

/-- What is put behind a chunk to close the fence. -/
def closingOf (chunk : Units) (fenceToSplit : Option FenceSpan) : Units :=
  match fenceToSplit with
  | none => []
  | some f => if chunk.getLast? = some newline then f.closeLine else newline :: f.closeLine

def nextStart (breakIdx : ℕ) (fenceToSplit : Option FenceSpan) : ℕ :=
  let brokeOnSeparator := text[breakIdx]?.any isSpace
  let nextStart := min text.length (breakIdx + if brokeOnSeparator then 1 else 0)
  if fenceToSplit.isSome then nextStart else skipLeadingNewlines text nextStart

/-- A turn of the loop of `chunkMarkdownText`. An empty last chunk is not pushed. -/
def chunkTurn : Option Turn :=
  if text.length - s.start ≤ contentLimit limit s then
    let piece : Piece := { reopenPrefix := s.reopenPrefix, start := s.start, stop := text.length }
    some (if piece.chunk text = [] then .stop else .last piece)
  else
    (breakAt text limit s).map fun (breakIdx, fenceToSplit) =>
      let rawContent := slice text s.start breakIdx
      if rawContent = [] then .stop
      else .push
        { reopenPrefix := s.reopenPrefix, start := s.start, stop := breakIdx
          closing := closingOf (s.reopenPrefix ++ rawContent) fenceToSplit }
        { start := nextStart text breakIdx fenceToSplit, reopenFence := fenceToSplit }

end

/-- The loop of `chunkMarkdownText`. -/
def chunkLoop (text : Units) (limit : ℕ) : ℕ → ChunkState → Option (List Piece)
  | 0, _ => none
  | fuel + 1, s =>
    if text.length ≤ s.start then some []
    else
      match chunkTurn text limit s with
      | none => none
      | some .stop => some []
      | some (.last piece) => some [piece]
      | some (.push piece next) => (chunkLoop text limit fuel next).map (piece :: ·)

/-- `chunkMarkdownText`, as pieces -/
def chunkPieces (fuel : ℕ) (text : Units) (limit : ℤ) : Option (List Piece) :=
  if text = [] then some []
  else if limit ≤ 0 ∨ text.length ≤ limit then
    some [{ reopenPrefix := [], start := 0, stop := text.length }]
  else chunkLoop text limit.toNat fuel { start := 0, reopenFence := none }

def chunkMarkdownText (fuel : ℕ) (text : Units) (limit : ℤ) : Option (List Units) :=
  (chunkPieces fuel text limit).map (List.map (Piece.chunk text))

end ClawHarder.MarkdownChunks
