import ClawHarder.Lib.PyBuiltins
import ClawHarder.Spec.ModelText
import Mathlib.Data.List.Sort

/-!
# Streamed model responses

`stream_text` of `model.py`, from the open response on: the lines of the event stream, the
accumulator of tool call fragments, and the calls that are collected when the stream closes.
-/

namespace ClawHarder.Streaming

open PyText (lit strip)

structure Host where
  /-- `repr` of the float that a text denotes -/
  floatRepr : PyText → PyText
  /-- `a == b` where `a` is the float with this `repr` -/
  floatIs : PyText → PyValue → Bool

structure ToolCall where
  name : PyText
  arguments : PyDict
  callId : Option PyText

/-- What the accumulator has under one index. -/
structure Fragment where
  id : PyText := []
  name : PyText := []
  arguments : PyText := []
deriving DecidableEq

def Fragment.add (f g : Fragment) : Fragment :=
  ⟨f.id ++ g.id, f.name ++ g.name, f.arguments ++ g.arguments⟩

variable {κ : Type}

/-- `frag = tc_frags.setdefault(idx, ...)`, and then `+=` on its texts. -/
def accumulate (same : κ → κ → Bool) (idx : κ) (texts : Fragment) :
    List (κ × Fragment) → List (κ × Fragment)
  | [] => [(idx, texts)]
  | (key, frag) :: rest =>
    if same key idx then (key, frag.add texts) :: rest
    else (key, frag) :: accumulate same idx texts rest

variable (h : Host)

/-- `a == b` of two keys -/
def sameKey : PyValue → PyValue → Bool
  | .float r, v => h.floatIs r v
  | v, .float r => h.floatIs r v
  | .none, .none => true
  | .str s, .str t => s = t
  | v, w =>
    match v.asInt?, w.asInt? with
    | some m, some n => m = n
    | _, _ => false

/-- `v or ""`, which is then added to a string -/
def orEmptyText (v : PyValue) : Py PyText :=
  if v.falsy then .ok []
  else
    match v with
    | .str s => .ok s
    | _ => .error .typeError

/-- The index of a tool call chunk, and what it adds. -/
def readToolCallChunk (tcChunk : PyValue) : Py (PyValue × Fragment) := do
  let idx ← Py.get tcChunk "index" (.int 0)
  if !Py.hashable idx then throw .typeError
  let id ← orEmptyText (← Py.get tcChunk "id" .none)
  let fn ← Py.get tcChunk "function" (.dict [])
  let name ← orEmptyText (← Py.get fn "name" .none)
  let arguments ← orEmptyText (← Py.get fn "arguments" .none)
  return (idx, ⟨id, name, arguments⟩)

/-- `v[0]` of a value that is not falsy -/
def firstItem : PyValue → Py PyValue
  | .list (v :: _) => .ok v
  | .str (c :: _) => .ok (.str [c])
  | .list [] | .str [] | .dict _ => .error .keyError
  | _ => .error .typeError

/-- The content of a chunk, if there is any, and its tool call chunks. -/
def readChunk (chunk : PyValue) : Py (List PyValue × List PyValue) := do
  let choices ← Py.get chunk "choices" (.list [])
  if choices.falsy then return ([], [])
  let delta ← Py.get (← firstItem choices) "delta" (.dict [])
  let content ← Py.get delta "content" .none
  let tcChunks ← Py.items (← Py.get delta "tool_calls" (.list []))
  return (if content.falsy then [] else [content], tcChunks)

/-- What a line of the response is. -/
inductive Line where
  /-- no data, or no JSON -/
  | other
  | done
  | chunk (value : PyValue)

def readLine (rawLine : Bytes) : Py Line :=
  match PyText.decodeUtf8 rawLine with
  | none => .error .valueError
  | some text =>
    match ModelText.behind (lit "data: ") (strip text) with
    | none => .ok .other
    | some dataStr =>
      if dataStr = lit "[DONE]" then .ok .done
      else
        match PyJson.loads h.floatRepr dataStr with
        | none => .ok .other
        | some chunk => .ok (.chunk chunk)

abbrev Fragments := List (PyValue × Fragment)

def addToolCallChunk (tcFrags : Fragments) (tcChunk : PyValue) : Py Fragments := do
  let (idx, texts) ← readToolCallChunk tcChunk
  return accumulate (sameKey h) idx texts tcFrags

/-- The loop over the lines: the contents that are yielded, and the accumulator. -/
def readResponse (tcFrags : Fragments) : List Bytes → Py (List PyValue × Fragments)
  | [] => .ok ([], tcFrags)
  | rawLine :: response => do
    match ← readLine h rawLine with
    | .other => readResponse tcFrags response
    | .done => return ([], tcFrags)
    | .chunk value =>
      let (content, tcChunks) ← readChunk value
      let tcFrags ← tcChunks.foldlM (addToolCallChunk h) tcFrags
      let (contents, tcFrags) ← readResponse tcFrags response
      return (content ++ contents, tcFrags)

/-- `frag["id"] or None` -/
def callIdOf (id : PyText) : Option PyText := if id = [] then none else some id

def toolCallOf (frag : Fragment) : ToolCall where
  name := ModelText.normalizeToolName frag.name
  arguments := (ModelText.normalizeArgumentText h.floatRepr frag.arguments).1
  callId := callIdOf frag.id

/-- A fragment without a usable name is left out. -/
def collectCall (frag : Fragment) : Option ToolCall :=
  if ModelText.normalizeToolName frag.name = [] then none else some (toolCallOf h frag)

/-- `sorted(tc_frags.values(), key=lambda f: f["id"])` -/
def sortedFragments (tcFrags : Fragments) : List Fragment :=
  (tcFrags.map Prod.snd).insertionSort fun f g => f.id ≤ g.id

/-- `stream_text` of an open response: the contents that are yielded, and
`collected_tool_calls` after it. -/
def streamText (collectedToolCalls : Option (List ToolCall)) (response : List Bytes) :
    Py (List PyValue × Option (List ToolCall)) := do
  let (contents, tcFrags) ← readResponse h [] response
  return (contents,
    collectedToolCalls.map fun calls =>
      calls ++ (sortedFragments tcFrags).filterMap (collectCall h))

end ClawHarder.Streaming
