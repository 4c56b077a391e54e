import ClawHarder.Spec.Identity
import Mathlib.Data.List.DropRight

/-!
# `oc://` paths

From `oc-path.ts` and `sentinel.ts`: `parseOcPath` and `formatOcPath`, with what they call.
A text is the list of its UTF-16 code units, which is what the code indexes, compares and
counts. `normalize("NFC")` is a parameter with the facts that the code relies on.
-/

namespace ClawHarder.OcPaths

abbrev Units := List ℕ

abbrev quote : ℕ := 0x22
abbrev percent : ℕ := 0x25
abbrev ampersand : ℕ := 0x26
abbrev comma : ℕ := 0x2C
abbrev dot : ℕ := 0x2E
abbrev slash : ℕ := 0x2F
abbrev equals : ℕ := 0x3D
abbrev question : ℕ := 0x3F
abbrev openBracket : ℕ := 0x5B
abbrev backslash : ℕ := 0x5C
abbrev closeBracket : ℕ := 0x5D
abbrev openBrace : ℕ := 0x7B
abbrev closeBrace : ℕ := 0x7D

/-- What `\s` matches, and what `trim` removes. -/
def isSpace (c : ℕ) : Bool :=
  (0x09 ≤ c && c ≤ 0x0D) || (0x2000 ≤ c && c ≤ 0x200A) ||
    [0x20, 0xA0, 0x1680, 0x2028, 0x2029, 0x202F, 0x205F, 0x3000, 0xFEFF].contains c

def isControl (c : ℕ) : Bool := c ≤ 0x1F || c = 0x7F

def hasControlChar (s : Units) : Bool := s.any isControl

def trim (s : Units) : Units := (s.dropWhile isSpace).rdropWhile isSpace

/-- `RESERVED_CHARS_RE` -/
def isReserved (c : ℕ) : Bool := [question, ampersand, percent].contains c

/-- What `quoteSeg` puts between quotes. -/
def isStructural (c : ℕ) : Bool :=
  [slash, dot, openBracket, closeBracket, openBrace, closeBrace, question, ampersand,
    percent].contains c || isSpace c

/-- What makes `formatOcPath` quote the file. -/
def isFileStructural (c : ℕ) : Bool :=
  [slash, openBracket, closeBracket, openBrace, closeBrace, question, ampersand, percent,
    quote].contains c || isSpace c

def printable (s : Units) : Units :=
  s.flatMap fun c =>
    if isControl c then
      let digits := utf16 (String.ofList (Nat.toDigits 16 c))
      utf16 "\\x" ++ (List.replicate (2 - digits.length) 0x30 ++ digits)
    else [c]

def startsWith (s t : Units) : Bool := t.isPrefixOf s

def endsWith (s t : Units) : Bool := t.isSuffixOf s

def ocScheme : Units := utf16 "oc://"

def maxPathLength : ℕ := 4096

def maxSubSegmentsPerSlot : ℕ := 64

def redactedSentinel : Units := utf16 "__OPENCLAW_REDACTED__"

@[ext]
structure OcPath where
  file : Units
  (section? item? field? session? : Option Units := none)
deriving DecidableEq

/-- What the functions throw: an `OcPathError`, or an `OcEmitSentinelError` with its path. -/
inductive Thrown where
  | ocPath (message input : Units) (code : String)
  | emitSentinel (path : Units)
deriving DecidableEq

def fail {α : Type} (message input : Units) (code : String) : Except Thrown α :=
  .error (.ocPath message input code)

/-- A check that fails on the condition. -/
def failIf (condition : Bool) (message input : Units) (code : String) : Except Thrown Unit :=
  if condition then fail message input code else .ok ()

/-- `String.prototype.normalize("NFC")`. -/
structure Normalizer where
  normalize : Units → Units
  idempotent : ∀ s, normalize (normalize s) = normalize s
  /-- these characters take no part in a composition, on either side -/
  stable : ∀ c ∈ [quote, ampersand, dot, slash, question], ∀ x y,
    normalize (x ++ c :: y) = x ++ c :: y ↔ normalize x = x ∧ normalize y = y
  /-- the letters of the sentinel are not made by normalization -/
  sentinel : ∀ s, redactedSentinel <:+: normalize s → redactedSentinel <:+: s

structure Depth where
  bracket : ℤ
  brace : ℤ
  inQuote : Bool
deriving DecidableEq

def Depth.zero : Depth := ⟨0, 0, false⟩

def Depth.count (d : Depth) (c : ℕ) : Depth :=
  if c = openBracket then { d with bracket := d.bracket + 1 }
  else if c = closeBracket then { d with bracket := d.bracket - 1 }
  else if c = openBrace then { d with brace := d.brace + 1 }
  else if c = closeBrace then { d with brace := d.brace - 1 }
  else d

/-- One turn of the loop of `scanBracketAware`: the depth after the unit and whether the unit
is at the top, or none for `onUnbalanced`. -/
def Depth.next (d : Depth) (c : ℕ) : Option (Depth × Bool) :=
  if d.inQuote then some ({ d with inQuote := c ≠ quote }, false)
  else if c = quote then some ({ d with inQuote := true }, false)
  else
    let d := d.count c
    if d.bracket < 0 || d.brace < 0 then none
    else some (d, d.bracket = 0 && d.brace = 0)

/-- `scanBracketAware`. The callback gets the unit and whether it is at the top, and tells
whether to stop. -/
def scanBracketAware {σ : Type} (onChar : σ → ℕ → Bool → σ × Bool) (onUnbalanced : Thrown) :
    Depth → σ → Units → Except Thrown σ
  | d, state, [] =>
    if d.bracket ≠ 0 || d.brace ≠ 0 || d.inQuote then .error onUnbalanced else .ok state
  | d, state, c :: s =>
    match d.next c with
    | none => .error onUnbalanced
    | some (d, atTop) =>
      let (state, stop) := onChar state c atTop
      if stop then .ok state else scanBracketAware onChar onUnbalanced d state s

def unbalanced (s : Units) : Thrown :=
  .ocPath (utf16 "Unbalanced bracket/brace in oc:// path: " ++ s) s "OC_PATH_UNBALANCED"

/-- `indexOfTopLevel`, with none for -1. The state of the scan is the index. -/
def indexOfTopLevel (s : Units) (ch : ℕ) : Except Thrown (Option ℕ) := do
  let (_, result) ← scanBracketAware
    (fun (state : ℕ × Option ℕ) c atTop =>
      if atTop && c = ch then ((state.1, some state.1), true) else ((state.1 + 1, none), false))
    (unbalanced s) Depth.zero (0, none) s
  return result

/-- `splitRespectingBrackets`. The state of the scan is `out` and `buf`. -/
def splitRespectingBrackets (s : Units) (delim : ℕ) (ctx : Units) : Except Thrown (List Units) := do
  let (out, buf) ← scanBracketAware
    (fun (state : List Units × Units) c atTop =>
      if atTop && c = delim then ((state.1 ++ [state.2], []), false)
      else ((state.1, state.2 ++ [c]), false))
    (unbalanced ctx) Depth.zero ([], []) s
  return out ++ [buf]

def validateBrackets (seg input : Units) : Except Thrown Unit :=
  scanBracketAware (fun _ _ _ => ((), false))
    (.ocPath (utf16 "Unbalanced bracket/brace in segment \"" ++ seg ++ utf16 "\": " ++
      printable input) input "OC_PATH_UNBALANCED") Depth.zero () seg

def isQuotedSeg (seg : Units) : Bool :=
  decide (2 ≤ seg.length) && startsWith seg [quote] && endsWith seg [quote]

/-- `seg.slice(1, -1)` -/
def inner (seg : Units) : Units := (seg.drop 1).dropLast

def unquoteSeg (seg : Units) : Units := if isQuotedSeg seg then inner seg else seg

def quoteSeg (value : Units) : Except Thrown Units := do
  if value = [] then return [quote, quote]
  failIf (value.contains quote || value.contains backslash)
    (utf16 "Cannot quote value containing '\"' or '\\\\': " ++ printable value) value
    "OC_PATH_UNQUOTABLE"
  return if value.any isStructural then quote :: (value ++ [quote]) else value

/-- The operators of a predicate, the longer ones first. -/
def predicateOps : List Units := ["!=", "<=", ">=", "<", ">", "="].map utf16

structure PredicateSpec where
  key : Units
  op : Units
  value : Units

/-- The operator that `parsePredicateSeg` finds at the index `i`. -/
def predicateAt (text : Units) (i : ℕ) : Option PredicateSpec :=
  (predicateOps.find? fun op =>
    startsWith (text.drop i) op && decide (i + op.length < text.length)).map fun op =>
      ⟨text.take i, op, text.drop (i + op.length)⟩

def parsePredicateSeg (seg : Units) : Option PredicateSpec :=
  if seg.length < 4 || !startsWith seg [openBracket] || !endsWith seg [closeBracket] then none
  else ((List.range (inner seg).length).drop 1).findSome? (predicateAt (inner seg))

/-- `text.includes(op)` -/
def includes (text op : Units) : Bool := text.tails.any fun t => startsWith t op

/-- The bracket checks of `validateSubSegment`. -/
def validateBracketSegment (sub input : Units) : Except Thrown Unit := do
  let startsBracket := startsWith sub [openBracket]
  let endsBracket := endsWith sub [closeBracket]
  failIf (startsBracket != endsBracket)
    (utf16 "Mismatched bracket in segment \"" ++ sub ++ utf16 "\": " ++ printable input) input
    "OC_PATH_MALFORMED_PREDICATE"
  if startsBracket && endsBracket then
    failIf ((inner sub).length = 0)
      (utf16 "Empty bracket segment \"" ++ sub ++ utf16 "\": " ++ printable input) input
      "OC_PATH_MALFORMED_PREDICATE"
    if predicateOps.any (includes (inner sub)) then
      let parsed := parsePredicateSeg sub
      failIf (parsed.all fun p => p.key.length = 0 || p.value.length = 0)
        (utf16 "Malformed predicate \"" ++ sub ++
          utf16 "\" — must be `[key<op>value]` with non-empty key and value: " ++
          printable input) input "OC_PATH_MALFORMED_PREDICATE"

/-- The brace checks of `validateSubSegment`. -/
def validateBraceSegment (sub input : Units) : Except Thrown Unit := do
  let startsBrace := startsWith sub [openBrace]
  let endsBrace := endsWith sub [closeBrace]
  failIf (startsBrace != endsBrace)
    (utf16 "Mismatched brace in segment \"" ++ sub ++ utf16 "\": " ++ printable input) input
    "OC_PATH_MALFORMED_UNION"
  if startsBrace && endsBrace then
    failIf ((inner sub).length = 0)
      (utf16 "Empty union \"" ++ sub ++ utf16 "\" — must contain at least one alternative: " ++
        printable input) input "OC_PATH_MALFORMED_UNION"
    failIf (((inner sub).splitOn comma).any fun a => a.length = 0)
      (utf16 "Empty alternative in union \"" ++ sub ++ utf16 "\": " ++ printable input) input
      "OC_PATH_MALFORMED_UNION"

def validateSubSegment (sub input : Units) : Except Thrown Unit := do
  failIf (sub.length = 0)
    (utf16 "Empty dotted sub-segment in oc:// path: " ++ printable input) input
    "OC_PATH_EMPTY_SUB_SEGMENT"
  failIf (hasControlChar sub)
    (utf16 "Control character in oc:// segment \"" ++ printable sub ++ utf16 "\": " ++
      printable input) input "OC_PATH_CONTROL_CHAR"
  if isQuotedSeg sub then
    failIf ((inner sub).contains quote || (inner sub).contains backslash)
      (utf16 "Quoted segment cannot contain '\"' or '\\\\': " ++ printable sub) input
      "OC_PATH_UNQUOTABLE"
  else
    if !startsWith sub [openBracket] && !startsWith sub [openBrace] then
      failIf (sub.any isReserved)
        (utf16 "Reserved character (`?` / `&` / `%`) in oc:// segment \"" ++ sub ++
          utf16 "\": " ++ printable input) input "OC_PATH_RESERVED_CHAR"
      failIf (sub ≠ trim sub || sub.any isSpace)
        (utf16 "Whitespace in oc:// segment \"" ++ sub ++ utf16 "\": " ++ printable input) input
        "OC_PATH_WHITESPACE"
    validateBracketSegment sub input
    validateBraceSegment sub input

/-- `/^[a-zA-Z]:/` -/
def startsWithDrive : Units → Bool
  | c :: d :: _ => ((0x41 ≤ c && c ≤ 0x5A) || (0x61 ≤ c && c ≤ 0x7A)) && d = 0x3A
  | _ => false

def validateFileSlot (file contextInput : Units) : Except Thrown Unit := do
  failIf (startsWith file [slash] || startsWith file [backslash] || startsWithDrive file)
    (utf16 "Absolute file slot not allowed (oc:// paths are workspace-relative): " ++
      printable contextInput) contextInput "OC_PATH_ABSOLUTE_FILE"
  failIf ((file.splitOnP fun c => c = backslash || c = slash).contains [dot, dot])
    (utf16 "Parent-directory segment ('..') not allowed in oc:// file slot: " ++
      printable contextInput) contextInput "OC_PATH_PARENT_TRAVERSAL"
  failIf (hasControlChar file)
    (utf16 "Control character in oc:// file slot: " ++ printable contextInput) contextInput
    "OC_PATH_CONTROL_CHAR"

def validateSessionSlot (session contextInput : Units) : Except Thrown Unit := do
  failIf (hasControlChar session)
    (utf16 "Control character in oc:// session query: " ++ printable contextInput) contextInput
    "OC_PATH_CONTROL_CHAR"
  failIf (session.any isReserved)
    (utf16 "Reserved character (`?` / `&` / `%`) in oc:// session query: " ++
      printable contextInput) contextInput "OC_PATH_RESERVED_CHAR"

/-- The loop of `extractSession`. -/
def sessionOfPairs (input : Units) : List Units → Except Thrown (Option Units)
  | [] => .ok none
  | pair :: pairs =>
    match pair.idxOf? equals with
    | none => sessionOfPairs input pairs
    | some eqIndex => do
      let key := pair.take eqIndex
      let value := pair.drop (eqIndex + 1)
      if key = utf16 "session" && decide (0 < value.length) then
        validateSessionSlot value input
        return some value
      sessionOfPairs input pairs

def extractSession (queryPart input : Units) : Except Thrown (Option Units) :=
  if queryPart.length = 0 then .ok none else sessionOfPairs input (queryPart.splitOn ampersand)

/-- The byte-order mark is dropped and the text normalized. -/
def normalized (U : Normalizer) (input : Units) : Units :=
  U.normalize (if startsWith input [0xFEFF] then input.drop 1 else input)

/-- What `parseOcPath` checks of one segment. -/
def validateSegment (input seg : Units) : Except Thrown Unit := do
  validateBrackets seg input
  let subs ← splitRespectingBrackets seg dot input
  failIf (decide (maxSubSegmentsPerSlot < subs.length))
    (utf16 ("Sub-segment count exceeds " ++ toString maxSubSegmentsPerSlot ++ " in segment \"") ++
      seg ++ utf16 "\": " ++ printable input) input "OC_PATH_TOO_DEEP"
  subs.forM fun sub => validateSubSegment sub input

def parseOcPath (U : Normalizer) (input : Units) : Except Thrown OcPath := do
  failIf (decide (maxPathLength < input.length))
    (utf16 ("oc:// path exceeds " ++ toString maxPathLength ++ " bytes (length: " ++
      toString input.length ++ ")")) (input.take 80 ++ utf16 "…") "OC_PATH_TOO_LONG"
  let text := normalized U input
  failIf (decide (maxPathLength < text.length))
    (utf16 ("oc:// path exceeds " ++ toString maxPathLength ++ " bytes after NFC (length: " ++
      toString text.length ++ ")")) (input.take 80 ++ utf16 "…") "OC_PATH_TOO_LONG"
  failIf (!startsWith text ocScheme)
    (utf16 "Missing oc:// scheme: " ++ printable input) input "OC_PATH_MISSING_SCHEME"
  failIf (hasControlChar text)
    (utf16 "Control character in oc:// path: " ++ printable input) input "OC_PATH_CONTROL_CHAR"
  let afterScheme := text.drop ocScheme.length
  let queryIndex ← indexOfTopLevel afterScheme question
  let pathPart := queryIndex.elim afterScheme afterScheme.take
  let queryPart := queryIndex.elim [] fun i => afterScheme.drop (i + 1)
  failIf (pathPart.length = 0) (utf16 "Empty oc:// path: " ++ printable input) input
    "OC_PATH_EMPTY"
  let segments ← splitRespectingBrackets pathPart slash input
  failIf (segments.any fun seg => seg.length = 0)
    (utf16 "Empty segment in oc:// path: " ++ printable input) input "OC_PATH_EMPTY_SEGMENT"
  failIf (decide (4 < segments.length))
    (utf16 "Too many segments in oc:// path (max 4): " ++ printable input) input
    "OC_PATH_TOO_DEEP"
  segments.forM (validateSegment input)
  let file := unquoteSeg (segments.headD [])
  validateFileSlot file input
  let session ← extractSession queryPart input
  return {
    file, section? := segments[1]?, item? := segments[2]?, field? := segments[3]?
    session? := session }

def formatSubSegment (sub : Units) : Except Thrown Units :=
  if isQuotedSeg sub then .ok sub
  else if startsWith sub [openBracket] && endsWith sub [closeBracket] then .ok sub
  else if startsWith sub [openBrace] && endsWith sub [closeBrace] then .ok sub
  else quoteSeg sub

def validateSubForFormat (file : Units) (slotName : String) (sub : Units) :
    Except Thrown Unit := do
  failIf (sub.length = 0) (utf16 ("Empty dotted sub-segment in OcPath." ++ slotName)) file
    "OC_PATH_EMPTY_SUB_SEGMENT"
  failIf (hasControlChar sub)
    (utf16 ("Control character in OcPath." ++ slotName ++ " sub-segment \"") ++ printable sub ++
      utf16 "\"") file "OC_PATH_CONTROL_CHAR"

def formatSlot (file : Units) (slotName : String) (slot : Units) : Except Thrown Units := do
  let subs ← splitRespectingBrackets slot dot slot
  subs.forM (validateSubForFormat file slotName)
  let formatted ← subs.mapM formatSubSegment
  return [dot].intercalate formatted

/-- `out += "/" + formatSlot(slot)`, where the slot is there. -/
def appendSlot (file : Units) (slotName : String) (out : Units) :
    Option Units → Except Thrown Units
  | none => .ok out
  | some slot => do
    let formatted ← formatSlot file slotName slot
    return out ++ slash :: formatted

/-- `out += "?session=" + session`, where the session is there. -/
def appendSession (file out : Units) : Option Units → Except Thrown Units
  | none => .ok out
  | some session => do
    validateSessionSlot session file
    return out ++ utf16 "?session=" ++ session

/-- `formattedFile` -/
def formatFile (file : Units) : Except Thrown Units :=
  if file.any isFileStructural then quoteSeg file else .ok file

def formatOcPath (path : OcPath) : Except Thrown Units := do
  failIf (path.file.length = 0) (utf16 "oc:// path requires a file") [] "OC_PATH_FILE_REQUIRED"
  validateFileSlot path.file path.file
  failIf (path.item?.isSome && path.section?.isNone)
    (utf16 "Structural nesting violation: item requires section") path.file "OC_PATH_NESTING"
  failIf (path.field?.isSome && path.item?.isNone)
    (utf16 "Structural nesting violation: field requires item") path.file "OC_PATH_NESTING"
  let formattedFile ← formatFile path.file
  let out := ocScheme ++ formattedFile
  let out ← appendSlot path.file "section" out path.section?
  let out ← appendSlot path.file "item" out path.item?
  let out ← appendSlot path.file "field" out path.field?
  let out ← appendSession path.file out path.session?
  failIf (decide (maxPathLength < out.length))
    (utf16 ("Formatted oc:// exceeds " ++ toString maxPathLength ++ " bytes (length: " ++
      toString out.length ++ ")")) (out.take 80 ++ utf16 "…") "OC_PATH_TOO_LONG"
  if includes out redactedSentinel then .error (.emitSentinel out) else .ok out

end ClawHarder.OcPaths
