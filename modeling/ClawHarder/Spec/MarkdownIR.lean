import ClawHarder.Lib.Marks
import ClawHarder.Spec.MarkdownChunks
import Mathlib.Algebra.Order.Floor.Ring
import Mathlib.Data.Rat.Floor

/-!
# Chunks of formatted text

From `shared/text-chunking.ts`, `chunkText` of `auto-reply/chunk.ts`, `chunkMarkdownIR` and
`sliceMarkdownIR` of `markdown/ir.ts`, and `markdown/render-aware-chunking.ts`. What renders a chunk
and what measures it are parameters. A loop whose end is to be shown takes a number of turns, and
gives none where they are not enough.
-/

namespace ClawHarder.MarkdownIRs

open OcPaths (Units isSpace trim)
open MarkdownChunks (slice newline openParen closeParen scanParenAwareBreakpoints)
open Marks (Span)

inductive MarkdownStyle where
  | bold | italic | strikethrough | code | codeBlock | spoiler | blockquote
deriving DecidableEq

/-- The place of the style's name in the order of `localeCompare`. -/
def MarkdownStyle.rank : MarkdownStyle → ℕ
  | .blockquote => 0
  | .bold => 1
  | .code => 2
  | .codeBlock => 3
  | .italic => 4
  | .spoiler => 5
  | .strikethrough => 6

/-- The value is the `style`. -/
abbrev MarkdownStyleSpan := Span MarkdownStyle

/-- The value is the `href`. -/
abbrev MarkdownLinkSpan := Span Units

structure MarkdownIR where
  text : Units
  styles : List MarkdownStyleSpan
  links : List MarkdownLinkSpan
deriving DecidableEq

/-- The order of `mergeStyleSpans`. -/
def spanBefore (a b : MarkdownStyleSpan) : Bool :=
  if a.start ≠ b.start then a.start < b.start
  else if a.stop ≠ b.stop then a.stop < b.stop
  else a.value.rank ≤ b.value.rank

/-- Whether `mergeStyleSpans` merges a span into the last one. -/
def joinsSorted (prev span : MarkdownStyleSpan) : Bool :=
  prev.value = span.value &&
    (decide (span.start < prev.stop) ||
      (span.start = prev.stop && decide (span.value ≠ .blockquote)))

def mergeStyleSpans (spans : List MarkdownStyleSpan) : List MarkdownStyleSpan :=
  Marks.merge joinsSorted (spans.mergeSort spanBefore)

def sliceStyleSpans (spans : List MarkdownStyleSpan) (start stop : ℕ) : List MarkdownStyleSpan :=
  if spans.length = 0 then [] else mergeStyleSpans (Marks.slice spans start stop)

def sliceLinkSpans (spans : List MarkdownLinkSpan) (start stop : ℕ) : List MarkdownLinkSpan :=
  Marks.slice spans start stop

def sliceMarkdownIR (ir : MarkdownIR) (start stop : ℕ) : MarkdownIR where
  text := slice ir.text start stop
  styles := sliceStyleSpans ir.styles start stop
  links := sliceLinkSpans ir.links start stop

def trimEnd (s : Units) : Units := s.rdropWhile isSpace

def trimStart (s : Units) : Units := s.dropWhile isSpace

/-- The break of a turn of `chunkTextByBreakResolver`. -/
def textBreak (limit : ℕ) (resolveBreakIndex : Units → ℤ) (remaining : Units) : ℕ :=
  let candidateBreak := resolveBreakIndex (remaining.take limit)
  if 0 < candidateBreak ∧ candidateBreak ≤ limit then candidateBreak.toNat else limit

/-- What is left behind a break. -/
def remainingAfter (remaining : Units) (breakIdx : ℕ) : Units :=
  let brokeOnSeparator := remaining[breakIdx]?.any isSpace
  let nextStart := min remaining.length (breakIdx + if brokeOnSeparator then 1 else 0)
  trimStart (remaining.drop nextStart)

/-- The loop of `chunkTextByBreakResolver`. -/
def textLoop (limit : ℕ) (resolveBreakIndex : Units → ℤ) : ℕ → Units → Option (List Units)
  | 0, _ => none
  | turns + 1, remaining =>
    if limit < remaining.length then
      let breakIdx := textBreak limit resolveBreakIndex remaining
      let chunk := trimEnd (remaining.take breakIdx)
      (textLoop limit resolveBreakIndex turns (remainingAfter remaining breakIdx)).map
        ((if chunk = [] then [] else [chunk]) ++ ·)
    else some (if remaining = [] then [] else [remaining])

def chunkTextByBreakResolver (text : Units) (limit : ℕ) (resolveBreakIndex : Units → ℤ) :
    Option (List Units) :=
  if text = [] then some []
  else if limit = 0 ∨ text.length ≤ limit then some [text]
  else textLoop limit resolveBreakIndex (text.length + 1) text

/-- A newline outside of parentheses, or else the last white space there. -/
def wordBreak (window : Units) : ℤ :=
  let found := scanParenAwareBreakpoints window 0 window.length fun _ => true
  let index : Option ℕ → ℤ := fun i => (i.map Int.ofNat).getD (-1)
  if 0 < index found.lastNewline then index found.lastNewline else index found.lastWhitespace

def chunkText (text : Units) (limit : ℕ) : Option (List Units) :=
  if text = [] then some []
  else if limit = 0 ∨ text.length ≤ limit then some [text]
  else chunkTextByBreakResolver text limit wordBreak

/-- Where the white space at a cursor ends. -/
def skipSpace (text : Units) (cursor : ℕ) : ℕ := cursor + ((text.drop cursor).takeWhile isSpace).length

/-- The loop of `chunkMarkdownIR` over the chunks. -/
def cutChunks (ir : MarkdownIR) (index cursor : ℕ) : List Units → List MarkdownIR
  | [] => []
  | chunk :: chunks =>
    if chunk = [] then cutChunks ir (index + 1) cursor chunks
    else
      let start := if 0 < index then skipSpace ir.text cursor else cursor
      let stop := min ir.text.length (start + chunk.length)
      { text := chunk, styles := sliceStyleSpans ir.styles start stop
        links := sliceLinkSpans ir.links start stop } :: cutChunks ir (index + 1) stop chunks

def chunkMarkdownIR (ir : MarkdownIR) (limit : ℕ) : Option (List MarkdownIR) :=
  if ir.text = [] then some []
  else if limit = 0 ∨ ir.text.length ≤ limit then some [ir]
  else (chunkText ir.text limit).map (cutChunks ir 0 0)

/-- The variables of `findMarkdownIRPreservedSplitIndex`, with none for -1. -/
structure PreservedBreaks where
  lastOutsideParenNewlineBreak : Option ℕ := none
  lastOutsideParenWhitespaceBreak : Option ℕ := none
  lastOutsideParenWhitespaceRunStart : Option ℕ := none
  lastAnyNewlineBreak : Option ℕ := none
  lastAnyWhitespaceBreak : Option ℕ := none
  lastAnyWhitespaceRunStart : Option ℕ := none
  parenDepth : ℕ := 0
  sawNonWhitespace : Bool := false

/-- One turn of the loop over the characters. -/
def scanPreserved (text : Units) (start : ℕ) (b : PreservedBreaks) (index : ℕ) : PreservedBreaks :=
  let char := text[index]?.getD 0
  if char = openParen then { b with sawNonWhitespace := true, parenDepth := b.parenDepth + 1 }
  else if char = closeParen ∧ 0 < b.parenDepth then
    { b with sawNonWhitespace := true, parenDepth := b.parenDepth - 1 }
  else if !isSpace char then { b with sawNonWhitespace := true }
  else if !b.sawNonWhitespace then b
  else if char = newline then
    { b with
      lastAnyNewlineBreak := some (index + 1)
      lastOutsideParenNewlineBreak :=
        if b.parenDepth = 0 then some (index + 1) else b.lastOutsideParenNewlineBreak }
  else
    let whitespaceRunStart :=
      if index = start ∨ !(text[index - 1]?.any isSpace) then some index
      else b.lastAnyWhitespaceRunStart
    { b with
      lastAnyWhitespaceBreak := some (index + 1)
      lastAnyWhitespaceRunStart := whitespaceRunStart
      lastOutsideParenWhitespaceBreak :=
        if b.parenDepth = 0 then some (index + 1) else b.lastOutsideParenWhitespaceBreak
      lastOutsideParenWhitespaceRunStart :=
        if b.parenDepth = 0 then whitespaceRunStart else b.lastOutsideParenWhitespaceRunStart }

def resolveWhitespaceBreak (text : Units) (start breakIndex : ℕ) (runStart : Option ℕ) : ℕ :=
  match runStart with
  | none => breakIndex
  | some runStart =>
    if breakIndex ≤ start then breakIndex
    else if runStart ≤ start then breakIndex
    else if text[breakIndex]?.any isSpace then runStart
    else breakIndex

/-- What `findMarkdownIRPreservedSplitIndex` picks of what the loop has found. -/
def pickPreserved (text : Units) (start maxEnd : ℕ) (b : PreservedBreaks) : ℕ :=
  match b.lastOutsideParenNewlineBreak.filter (start < ·) with
  | some i => i
  | none =>
    match b.lastOutsideParenWhitespaceBreak.filter (start < ·) with
    | some i => resolveWhitespaceBreak text start i b.lastOutsideParenWhitespaceRunStart
    | none =>
      match b.lastAnyNewlineBreak.filter (start < ·) with
      | some i => i
      | none =>
        match b.lastAnyWhitespaceBreak.filter (start < ·) with
        | some i => resolveWhitespaceBreak text start i b.lastAnyWhitespaceRunStart
        | none => maxEnd

def findMarkdownIRPreservedSplitIndex (text : Units) (start limit : ℕ) : ℕ :=
  let maxEnd := min text.length (start + limit)
  if text.length ≤ maxEnd then text.length
  else
    pickPreserved text start maxEnd
      ((List.range' start (maxEnd - start)).foldl (scanPreserved text start) {})

/-- The loop of `splitMarkdownIRPreserveWhitespace`. -/
def preserveLoop (ir : MarkdownIR) (limit : ℕ) : ℕ → ℕ → Option (List MarkdownIR)
  | 0, _ => none
  | turns + 1, cursor =>
    if ir.text.length ≤ cursor then some []
    else
      let stop := findMarkdownIRPreservedSplitIndex ir.text cursor limit
      (preserveLoop ir limit turns stop).map (sliceMarkdownIR ir cursor stop :: ·)

def splitMarkdownIRPreserveWhitespace (ir : MarkdownIR) (limit : ℕ) : Option (List MarkdownIR) :=
  if ir.text = [] then some []
  else
    let normalizedLimit := max 1 limit
    if ir.text.length ≤ normalizedLimit then some [ir]
    else preserveLoop ir normalizedLimit (ir.text.length + 1) 0

section

/- Whether what is rendered of a chunk measures at most the limit. -/
variable (fits : MarkdownIR → Bool)

/-- The loop of `findLargestChunkTextLengthWithinRenderedLimit`. -/
def largestFrom (chunk : MarkdownIR) : ℕ → ℕ
  | 0 => 0
  | n + 1 =>
    if fits (sliceMarkdownIR chunk 0 (n + 1)) then n + 1 else largestFrom chunk n

def findLargestChunkTextLengthWithinRenderedLimit (chunk : MarkdownIR) : ℕ :=
  if chunk.text.length ≤ 1 then chunk.text.length
  else largestFrom fits chunk (chunk.text.length - 1)

def splitMarkdownIRByRenderedLimit (chunk : MarkdownIR) : Option (List MarkdownIR) :=
  let currentTextLength := chunk.text.length
  if currentTextLength ≤ 1 then some [chunk]
  else
    let splitLimit := findLargestChunkTextLengthWithinRenderedLimit fits chunk
    if splitLimit = 0 then some [chunk]
    else
      (splitMarkdownIRPreserveWhitespace chunk splitLimit).map fun split =>
        if split.head?.any fits then split
        else [sliceMarkdownIR chunk 0 splitLimit, sliceMarkdownIR chunk splitLimit currentTextLength]

/-- The loop over the pending chunks. -/
def pendingLoop : ℕ → List MarkdownIR → Option (List MarkdownIR)
  | 0, _ => none
  | _ + 1, [] => some []
  | turns + 1, chunk :: pending =>
    if fits chunk || decide (chunk.text.length ≤ 1) then
      (pendingLoop turns pending).map (chunk :: ·)
    else
      match splitMarkdownIRByRenderedLimit fits chunk with
      | none => none
      | some split =>
        if split.length ≤ 1 then (pendingLoop turns pending).map (chunk :: ·)
        else pendingLoop turns (split ++ pending)

/-- Whether `mergeAdjacentStyleSpans` merges a span into the last one. -/
def joinsStyles (last span : MarkdownStyleSpan) : Bool :=
  last.value = span.value && decide (span.start ≤ last.stop)

/-- Whether `mergeAdjacentLinkSpans` merges a span into the last one. -/
def joinsLinks (last link : MarkdownLinkSpan) : Bool :=
  last.value = link.value && decide (link.start ≤ last.stop)

def mergeMarkdownIRChunks (left right : MarkdownIR) : MarkdownIR where
  text := left.text ++ right.text
  styles := Marks.merge joinsStyles (left.styles ++ right.styles.map (Span.shift left.text.length))
  links := Marks.merge joinsLinks (left.links ++ right.links.map (Span.shift left.text.length))

/-- The loop over the prefixes of a chunk between two others. -/
def splitBetween (prev next chunk : MarkdownIR) : ℕ → MarkdownIR × MarkdownIR
  | 0 => (prev, next)
  | n + 1 =>
    let mergedPrev := mergeMarkdownIRChunks prev (sliceMarkdownIR chunk 0 (n + 1))
    let mergedNext := mergeMarkdownIRChunks (sliceMarkdownIR chunk (n + 1) chunk.text.length) next
    if fits mergedPrev && fits mergedNext then (mergedPrev, mergedNext)
    else splitBetween prev next chunk n

/-- What is left where a chunk of white space fits neither of its neighbours. -/
def absorbBetween (prev next : Option MarkdownIR) (chunk : MarkdownIR) :
    Option MarkdownIR × Option MarkdownIR :=
  match prev, next with
  | some p, some n =>
    let merged := splitBetween fits p n chunk (chunk.text.length - 1)
    (some merged.1, some merged.2)
  | _, _ => (prev, next)

/-- The chunks before and behind a chunk of white space, after it is merged or dropped. -/
def absorb (prev next : Option MarkdownIR) (chunk : MarkdownIR) :
    Option MarkdownIR × Option MarkdownIR :=
  match prev.map (mergeMarkdownIRChunks · chunk) |>.filter fits with
  | some mergedPrev => (some mergedPrev, next)
  | none =>
    match next.map (mergeMarkdownIRChunks chunk) |>.filter fits with
    | some mergedNext => (prev, some mergedNext)
    | none => absorbBetween fits prev next chunk

/-- The list with another head, or with the same where there is none. -/
def setHead (chunks : List MarkdownIR) (head : Option MarkdownIR) : List MarkdownIR :=
  match chunks, head with
  | _ :: rest, some chunk => chunk :: rest
  | _, _ => chunks

@[simp] theorem length_setHead (chunks : List MarkdownIR) (head : Option MarkdownIR) :
    (setHead chunks head).length = chunks.length := by
  unfold setHead
  split <;> rfl

/-- The loop of `coalesceWhitespaceOnlyMarkdownIRChunks`, with the last coalesced chunk first. -/
def coalesceLoop (coalesced : List MarkdownIR) : List MarkdownIR → List MarkdownIR
  | [] => coalesced.reverse
  | chunk :: chunks =>
    if trim chunk.text ≠ [] then coalesceLoop (chunk :: coalesced) chunks
    else
      let (prev, next) := absorb fits coalesced.head? chunks.head? chunk
      coalesceLoop (setHead coalesced prev) (setHead chunks next)
termination_by chunks => chunks.length

def coalesceWhitespaceOnlyMarkdownIRChunks (chunks : List MarkdownIR) : List MarkdownIR :=
  coalesceLoop fits [] chunks

end

structure RenderedMarkdownChunk (τ : Type*) where
  rendered : τ
  source : MarkdownIR

def normalizedLimit (limit : ℚ) : ℕ := (max 1 ⌊limit⌋).toNat

/-- `options.measureRendered(options.renderChunk(ir)) <= renderedLimit` -/
def fitsRendered {τ : Type*} (renderChunk : MarkdownIR → τ) (measureRendered : τ → ℚ) (limit : ℕ)
    (ir : MarkdownIR) : Bool := measureRendered (renderChunk ir) ≤ limit

def renderMarkdownIRChunksWithinLimit {τ : Type*} (renderChunk : MarkdownIR → τ)
    (measureRendered : τ → ℚ) (ir : MarkdownIR) (limit : ℚ) :
    Option (List (RenderedMarkdownChunk τ)) :=
  if ir.text = [] then some []
  else
    let normalizedLimit := normalizedLimit limit
    let fits := fitsRendered renderChunk measureRendered normalizedLimit
    match chunkMarkdownIR ir normalizedLimit with
    | none => none
    | some pending =>
      (pendingLoop fits (2 * ir.text.length + 1) pending).map fun finalized =>
        (coalesceWhitespaceOnlyMarkdownIRChunks fits finalized).map fun source =>
          { rendered := renderChunk source, source }

end ClawHarder.MarkdownIRs
