import ClawHarder.Lib.PyCodec
import ClawHarder.Lib.PyJson

/-!
# JSON in a model's text

From `seed_runtime.py` (`parse_json_value`) and `model.py` (`normalize_tool_arguments`,
`extract_inline_tool_calls`). `floatRepr` is the `repr` of the float that a text denotes, and
`none` is a `JSONDecodeError`. The searches for thoughts and for the constrained channel, the
cleaning of the prose and `str` of a list or a dictionary are in `Host`.
-/

namespace ClawHarder.ModelText

open PyText (lit codePoint strip)

variable (floatRepr : PyText → PyText)

/-- A text is a prefix: what stands behind it. -/
def behind (word text : PyText) : Option PyText :=
  if word.isPrefixOf text then some (text.drop word.length) else none

def chomp (line : PyText) : PyText :=
  if lit "\r\n" <:+ line then line.dropLast.dropLast
  else if line.getLast?.any PyText.isLineBreak then line.dropLast
  else line

def stripMarkdownFences (text : PyText) : PyText :=
  let stripped := strip text
  if lit "```" <+: stripped ∧ lit "```" <:+ stripped then
    let lines := (PyText.splitKeepends stripped).map chomp
    if 2 ≤ lines.length then strip (PyText.join (lit "\n") lines.tail.dropLast) else stripped
  else stripped

/-- The loop of `_extract_balanced_json_value` and `_extract_balanced_json`: the text up to the
bracket that closes the first one. -/
def scanBalanced (opening closing : CodePoint) (depth : ℤ) (inString escape : Bool) :
    PyText → Option PyText
  | [] => none
  | char :: rest =>
    if escape then (scanBalanced opening closing depth inString false rest).map (char :: ·)
    else if char = codePoint '\\' ∧ inString then
      (scanBalanced opening closing depth inString true rest).map (char :: ·)
    else if char = codePoint '"' then
      (scanBalanced opening closing depth (!inString) false rest).map (char :: ·)
    else if inString then
      (scanBalanced opening closing depth inString false rest).map (char :: ·)
    else if char = opening then
      (scanBalanced opening closing (depth + 1) inString false rest).map (char :: ·)
    else if char = closing then
      if depth - 1 = 0 then some [char]
      else (scanBalanced opening closing (depth - 1) inString false rest).map (char :: ·)
    else (scanBalanced opening closing depth inString false rest).map (char :: ·)

def isOpening (c : CodePoint) : Bool := c = codePoint '[' || c = codePoint '\x7b'

def extractBalancedJsonValue (text : PyText) : Option PyText :=
  let found := text.dropWhile fun c => !isOpening c
  match found with
  | [] => none
  | opening :: _ =>
    let closing := if opening = codePoint '[' then codePoint ']' else codePoint '\x7d'
    scanBalanced opening closing 0 false false found

def parseJsonValue (text : PyText) : PyValue :=
  let stripped := strip (stripMarkdownFences text)
  match PyJson.loads floatRepr stripped with
  | some value => value
  | none =>
    match extractBalancedJsonValue stripped with
    | none => .none
    | some extracted => (PyJson.loads floatRepr extracted).getD .none

structure NormalizationIssue where
  kind : PyText
  message : PyText
  details : PyDict := []

def stripEmptyKeys (args : PyDict) : PyDict := args.filter fun m => !(strip m.1).isEmpty

/-- `.*?\}\s*` and the closing fence: the text up to the brace. -/
def untilFence : PyText → Option PyText
  | [] => none
  | c :: s =>
    if c = codePoint '\x7d' ∧ lit "```" <+: s.dropWhile PyText.isSpace then some [c]
    else (untilFence s).map (c :: ·)

/-- The group of the pattern for a fenced object, matched at the beginning. -/
def fencedAt (s : PyText) : Option PyText := do
  let s ← behind (lit "```") s
  match ((behind (lit "json") s).getD s).dropWhile PyText.isSpace with
  | [] => none
  | c :: s => if c = codePoint '\x7b' then (untilFence s).map (c :: ·) else none

/-- The search for the pattern. -/
def fencedObject : PyText → Option PyText
  | [] => none
  | c :: s => (fencedAt (c :: s)).or (fencedObject s)

/-- `extract_balanced_json_objects`, with the text since the start of the object. -/
def balancedObjects (depth : ℕ) (object : PyText) : PyText → List PyText
  | [] => []
  | char :: rest =>
    if char = codePoint '\x7b' then
      balancedObjects (depth + 1) (if depth = 0 then [char] else object ++ [char]) rest
    else if char = codePoint '\x7d' then
      if depth = 0 then balancedObjects 0 object rest
      else if depth = 1 then (object ++ [char]) :: balancedObjects 0 [] rest
      else balancedObjects (depth - 1) (object ++ [char]) rest
    else balancedObjects depth (object ++ [char]) rest

def extractBalancedJsonObjects (text : PyText) : List PyText := balancedObjects 0 [] text

/-- `type(v).__name__` -/
def typeName : PyValue → PyText
  | .none => lit "NoneType"
  | .bool _ => lit "bool"
  | .int _ => lit "int"
  | .float _ => lit "float"
  | .str _ => lit "str"
  | .list _ => lit "list"
  | .dict _ => lit "dict"

def salvagedArguments : NormalizationIssue where
  kind := lit "salvaged_arguments"
  message := lit "Recovered tool arguments from mixed prose/JSON output."

def invalidJsonArguments (rawText : PyText) : NormalizationIssue where
  kind := lit "invalid_json_arguments"
  message := lit "Tool arguments were malformed JSON; defaulting to empty object."
  details := [(lit "raw", .str (rawText.take 240))]

def parsedNonObject (parsed : PyValue) : NormalizationIssue where
  kind := lit "non_object_arguments"
  message := lit "Tool arguments parsed, but not as a JSON object; defaulting to empty object."
  details := [(lit "value_type", .str (typeName parsed))]

/-- The candidates that parse as an object. -/
def salvage (candidates : List PyText) : Option PyDict :=
  candidates.findSome? fun candidate =>
    (PyJson.loads floatRepr candidate).bind PyValue.asDict?

/-- `normalize_tool_arguments`, for the text of the arguments. -/
def normalizeArgumentText (text : PyText) : PyDict × List NormalizationIssue :=
  let rawText := strip text
  if rawText = [] then ([], [])
  else
    let rawText := ((fencedObject rawText).map strip).getD rawText
    match PyJson.loads floatRepr rawText with
    | some (.dict parsed) => (stripEmptyKeys parsed, [])
    | parsed =>
      -- `null` parses to `None`, which is also what a failure gives
      match parsed.getD .none with
      | .none =>
        match salvage floatRepr (extractBalancedJsonObjects rawText) with
        | some args => (stripEmptyKeys args, [salvagedArguments])
        | none => ([], [invalidJsonArguments rawText])
      | value => ([], [parsedNonObject value])

def normalizeToolArguments : PyValue → PyDict × List NormalizationIssue
  | .dict args => (args, [])
  | .none => ([], [{
      kind := lit "missing_arguments"
      message := lit "Tool call omitted arguments; defaulting to empty object." }])
  | .str text => normalizeArgumentText floatRepr text
  | v => ([], [{
      kind := lit "non_object_arguments"
      message := lit "Tool arguments were not a JSON object; defaulting to empty object."
      details := [(lit "type", .str (typeName v))] }])

structure ToolCall where
  name : PyText
  arguments : PyDict

/-- What is taken from elsewhere. -/
structure Host where
  /-- `str` of a list or a dictionary -/
  reprOf : PyValue → PyText
  /-- the first of the thought patterns that matches: its group, stripped -/
  thought : PyText → Option PyText
  /-- the group of `commentary to=(\S+)` -/
  recipient : PyText → Option PyText
  /-- the group of the pattern for a payload in the constrained channel -/
  constrained : PyText → Option PyText
  /-- the prose without tags and boilerplate -/
  clean : PyText → PyText

/-- `text.replace(word, "")`; what is left of a word that was found is skipped. -/
def removeWord (word : PyText) (skip : ℕ) : PyText → PyText
  | [] => []
  | c :: s =>
    match skip with
    | skip + 1 => removeWord word skip s
    | 0 =>
      if word.isPrefixOf (c :: s) then removeWord word (word.length - 1) s
      else c :: removeWord word 0 s

def isTick (c : CodePoint) : Bool := c = codePoint '\x60'

def normalizeToolName (name : PyText) : PyText :=
  removeWord (lit "functions.") 0 (((strip name).dropWhile isTick).rdropWhile isTick)

/-- `CALL_TOOL\s+(\S+)(?:\s+(.*))?` on the whole text, in either case of letters. -/
def imperative (stripped : PyText) : Option (PyText × Option PyText) :=
  if PyText.lower (stripped.take 9) = lit "call_tool" then
    let rest := stripped.drop 9
    let named := rest.dropWhile PyText.isSpace
    let name := named.takeWhile fun c => !PyText.isSpace c
    let tail := named.dropWhile fun c => !PyText.isSpace c
    let arguments := tail.dropWhile PyText.isSpace
    if named.length = rest.length ∨ name = [] then none
    else if tail = [] then some (name, none)
    else if codePoint '\n' ∈ arguments then none
    else some (name, some arguments)
  else none

/-- `text.replace(old, new, 1)` -/
def replaceFirst (old new : PyText) : PyText → PyText
  | [] => []
  | c :: s =>
    if old.isPrefixOf (c :: s) then new ++ (c :: s).drop old.length
    else c :: replaceFirst old new s

/-- `dedupe_tool_calls`, with the keys seen so far -/
def dedupeToolCalls (seen : List (PyText × PyText)) : List ToolCall → List ToolCall
  | [] => []
  | call :: calls =>
    let key := (call.name, PyJson.dumps (PyJson.sortKeys (.dict call.arguments)))
    if key ∈ seen then dedupeToolCalls seen calls
    else call :: dedupeToolCalls (key :: seen) calls

structure Extraction where
  calls : List ToolCall
  cleaned : PyText
  issues : List NormalizationIssue
  thought : Option PyText

/-- What the loop over the candidates keeps. -/
structure Recovered where
  calls : List ToolCall
  issues : List NormalizationIssue
  tempText : PyText

variable (h : Host)

/-- A call with its arguments normalised. -/
def Recovered.add (r : Recovered) (name : PyText) (rawArguments : PyValue)
    (issue : NormalizationIssue) : Recovered :=
  let (arguments, argIssues) := normalizeToolArguments floatRepr rawArguments
  { r with
    calls := r.calls ++ [⟨name, arguments⟩]
    issues := r.issues ++ issue :: argIssues }

/-- The tool of a payload from the constrained channel. -/
def constrainedTool (text : PyText) (payload : PyDict) : Option PyText :=
  match h.recipient text with
  | some named => some (normalizeToolName named)
  | none =>
    match PyValue.get? (lit "tool") payload with
    | some tool => some (normalizeToolName (PyValue.text h.reprOf tool))
    | none =>
      if (PyValue.get? (lit "key") payload).isSome then
        if (PyValue.get? (lit "value") payload).isSome then some (lit "set_fact")
        else some (lit "get_fact")
      else none

/-- The constrained channel, which is looked at when there is a thought. -/
def recoverConstrained (text : PyText) (r : Recovered) : Recovered :=
  if ((h.thought text).getD []).isEmpty then r
  else
    match (h.constrained text).bind (PyJson.loads floatRepr) with
    | some (.dict payload) =>
      let toolName := (constrainedTool h text payload).getD []
      let raw :=
        if (PyValue.get? (lit "tool") payload).isSome then
          (PyValue.get? (lit "arguments") payload).getD (.dict payload)
        else .dict payload
      if toolName = [] then r
      else r.add floatRepr toolName raw {
        kind := lit "constrained_channel_intent"
        message := lit "Recovered " ++ toolName ++ lit " from model's constrained channel." }
    | _ => r

/-- One candidate of the text. -/
def recoverInline (r : Recovered) (candidate : PyText) : Recovered :=
  match PyJson.loads floatRepr candidate with
  | some (.dict payload) =>
    match PyValue.get? (lit "tool") payload with
    | none => r
    | some tool =>
      let toolName := normalizeToolName (PyValue.text h.reprOf tool)
      if toolName = [] then r
      else
        let added := r.add floatRepr toolName
          ((PyValue.get? (lit "arguments") payload).getD (.dict [])) {
            kind := lit "inline_tool_intent"
            message := lit "Recovered tool call from JSON payload." }
        { added with tempText := replaceFirst candidate (lit " __TOOL_CALL__ ") r.tempText }
  | _ => r

def extractInlineToolCalls (text : PyText) : Extraction :=
  let thought := h.thought text
  let recovered :=
    (extractBalancedJsonObjects text).foldl (recoverInline floatRepr h)
      (recoverConstrained floatRepr h text ⟨[], [], text⟩)
  let ordinary : Extraction :=
    ⟨dedupeToolCalls [] recovered.calls, h.clean recovered.tempText, recovered.issues, thought⟩
  match imperative (strip text) with
  | none => ordinary
  | some (name, rawArguments) =>
    let toolName := normalizeToolName name
    let (arguments, argIssues) :=
      normalizeArgumentText floatRepr (rawArguments.getD (lit "\x7b\x7d"))
    if toolName = [] then ordinary
    else {
      calls := dedupeToolCalls [] [⟨toolName, arguments⟩]
      cleaned := []
      issues := {
        kind := lit "imperative_tool_intent"
        message := lit "Recovered imperative CALL_TOOL syntax." } :: argIssues
      thought := thought }

end ClawHarder.ModelText
