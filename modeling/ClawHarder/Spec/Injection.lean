import Mathlib.Data.Rat.Defs
import ClawHarder.Spec.Identity

/-!
# The injected context

`context/injection.ts`: `compile` turns a manifest into the text that is put before
the model. A text is a list of UTF-16 code units, for `slice` cuts between any two of
them. It is `none` when a template meets an object that cannot be made a text, which
throws.

How numbers are printed and texts compared for the locale is the host's (`Printer`).
-/

namespace ClawHarder

/-- A number that a caller gives as a limit. -/
inductive Limit where
  | finite (q : ℚ)
  | infinity
  | negInfinity
  | nan

namespace Limit

def neg : Limit → Limit
  | .finite q => .finite (-q)
  | .infinity => .negInfinity
  | .negInfinity => .infinity
  | .nan => .nan

/-- `limit - k` -/
def minus (k : ℚ) : Limit → Limit
  | .finite q => .finite (q - k)
  | limit => limit

/-- `n > limit` -/
def exceededBy (n : ℕ) : Limit → Bool
  | .finite q => q < n
  | .infinity => false
  | .negInfinity => true
  | .nan => false

def trunc (q : ℚ) : ℤ := if q < 0 then q.ceil else q.floor

/-- The place that an argument of `slice` names in a sequence of this length; a
negative one counts from the end. -/
def position (length : ℕ) : Limit → ℕ
  | .finite q => if trunc q < 0 then (length + trunc q).toNat else min (trunc q).toNat length
  | .infinity => length
  | .negInfinity => 0
  | .nan => 0

end Limit

/-- `l.slice(0, stop)` -/
def sliceTo {α : Type} (stop : Limit) (l : List α) : List α := l.take (stop.position l.length)

/-- `l.slice(start)` -/
def sliceFrom {α : Type} (start : Limit) (l : List α) : List α := l.drop (start.position l.length)

structure InjectionConfig where
  maxChars : Limit := .finite 8000
  maxFacts : Limit := .finite 20
  maxSummaries : Limit := .finite 4
  includeRecentOps : Bool := true
  maxRecentOps : Limit := .finite 5
  includeRefs : Bool := true

/-- What the compiler takes from the host. -/
structure Printer (N : Type) where
  /-- `(n * 100).toFixed(0)` -/
  percent : N → String
  /-- `String(limit)` -/
  limit : Limit → String
  localeCompare : String → String → Ordering

variable {N : Type} [JsNumber N]

mutual

/-- `String(v)`, which throws (`none`) for an object with a `toString` of its own: it
hides the inherited one and is no function. -/
def jsText : Json N → Option String
  | .null => some "null"
  | .bool b => some (if b then "true" else "false")
  | .num n => some (JsNumber.toText n)
  | .str s => some s
  | .arr items => (jsItemTexts items).map (String.intercalate ",")
  | .obj members =>
    if (Json.member? "toString" members).isSome then none else some "[object Object]"

/-- The texts of the items of an array, where `null` has none. -/
def jsItemTexts : List (Json N) → Option (List String)
  | [] => some []
  | .null :: rest => do return "" :: (← jsItemTexts rest)
  | item :: rest => do return (← jsText item) :: (← jsItemTexts rest)

end

omit [JsNumber N] in
/-- A member that is neither missing nor `null`: what is left of `??`. -/
def field? (key : String) (members : List (String × Json N)) : Option (Json N) :=
  match Json.member? key members with
  | some .null => none
  | found => found

/-- The text of a member in a template. -/
def memberText (key : String) (members : List (String × Json N)) : Option String :=
  match Json.member? key members with
  | some v => jsText v
  | none => some "undefined"

/-- `texts.join(separator)`, for lists of code units -/
def joinUnits (separator : String) (texts : List (List ℕ)) : List ℕ :=
  List.intercalate (utf16 separator) texts

namespace Injection

/-- The properties of every object; none of them is a number. -/
def inheritedNames : List String :=
  ["constructor", "__defineGetter__", "__defineSetter__", "hasOwnProperty", "__lookupGetter__",
    "__lookupSetter__", "isPrototypeOf", "propertyIsEnumerable", "toString", "valueOf", "__proto__",
    "toLocaleString"]

/-- `table[type] ?? 10`, `none` when that is no number. -/
def priorityIn (table : List (String × ℤ)) (type : String) : Option ℤ :=
  match table.lookup type with
  | some priority => some priority
  | none => if type ∈ inheritedNames then none else some 10

def typePriority : String → Option ℤ :=
  priorityIn [("constraint", 100), ("task", 90), ("credential", 80), ("context", 70),
    ("contact", 60), ("preference", 50), ("knowledge", 40), ("service", 30), ("event", 20)]

def summaryTypePriority : String → Option ℤ :=
  priorityIn [("goal", 100), ("session", 80), ("conflict", 70), ("task", 60), ("contact", 40)]

/-- The sign of a difference that a comparator returns; what is no number counts as 0. -/
def comparePriority (a b : Option ℤ) (otherwise : Ordering) : Ordering :=
  match a, b with
  | some a, some b => if a - b ≠ 0 then compare (a - b) 0 else otherwise
  | _, _ => .eq

/-- `a - b`, as a comparator returns it -/
def compareConfidence (a b : N) : Ordering := compare (a - b) (0.0 : N)

/-- `list.sort(comparator)`, which is stable. -/
def sortBy {α : Type} (comparator : α → α → Ordering) (list : List α) : List α :=
  list.mergeSort fun a b => (comparator a b).isLE

/-- The objective; the first active goal summary decides, if there is one. -/
def extractObjective (manifest : Manifest N) : Option (Option String) :=
  match manifest.summaries.values.find? fun s => s.type = "goal" ∧ s.state = .active with
  | some s =>
    let staleTag := if s.stale then " [STALE — refresh before acting]" else ""
    match s.keyPoints.head? with
    | some point => some (if point ≠ "" then some (point ++ staleTag) else none)
    | none => some none
  | none =>
    let tasks := sortBy (fun a b => compareConfidence b.confidence a.confidence)
      (manifest.facts.values.filter fun f => f.type = "task" ∧ f.state = .active)
    match tasks.head? with
    | some t => do
      let title ← jsText
        ((((field? "title" t.value).or (field? "goal" t.value)).or
          (field? "id" t.value)).getD (.str ""))
      return if title ≠ "" then some title else none
    | none => some none

def compareFacts (a b : Fact N) : Ordering :=
  comparePriority (typePriority b.type) (typePriority a.type)
    (if b.confidence - a.confidence ≠ (0.0 : N) then compareConfidence b.confidence a.confidence
    else compare a.discoveryIndex b.discoveryIndex)

def selectFacts (config : InjectionConfig) (manifest : Manifest N) : List (Fact N) :=
  sliceTo config.maxFacts
    (sortBy compareFacts (manifest.facts.values.filter fun f => f.state = .active))

def selectConflictedFacts (manifest : Manifest N) : List (Fact N) :=
  manifest.facts.values.filter fun f => f.state = .conflicted

def compareSummaries (a b : Summary N) : Ordering :=
  if a.stale ≠ b.stale then compare a.stale.toNat b.stale.toNat
  else comparePriority (summaryTypePriority b.type) (summaryTypePriority a.type) .eq

def selectSummaries (config : InjectionConfig) (manifest : Manifest N) : List (Summary N) :=
  sliceTo config.maxSummaries
    (sortBy compareSummaries (manifest.summaries.values.filter fun s => s.state = .active))

/-- Is the operation one that the context mentions? -/
def relevant (type : OperationType) : Bool :=
  type = .factAdded || type = .factSuperseded || type = .factConflicted || type = .summaryAdded ||
    type = .manifestCommitted || type = .recallEvent

def summarizeOp (op : Operation N) : Option String :=
  let metadata := op.metadata
  match op.type with
  | .factAdded => do
    let state ← jsText ((field? "state" metadata).getD (.str "active"))
    return "Fact " ++ (← memberText "fact_id" metadata) ++ " added (" ++ state ++ ")"
  | .factSuperseded => do
    let superseded ←
      match field? "superseded_id" metadata with
      | some id => jsText id
      | none => memberText "fact_id" metadata
    let replacement ← jsText ((field? "new_fact_id" metadata).getD (.str "manual"))
    return "Fact " ++ superseded ++ " superseded by " ++ replacement
  | .factConflicted => do
    return "Conflict: facts " ++ (← memberText "new_fact_id" metadata) ++ " and " ++
      (← memberText "conflicted_id" metadata)
  | .summaryAdded => do
    return "Summary " ++ (← memberText "summary_id" metadata) ++ " generated (" ++
      (← memberText "type" metadata) ++ ":" ++ (← memberText "scope" metadata) ++ ")"
  | .manifestCommitted => do
    return "State committed (rev " ++ (← jsText ((field? "ts" metadata).getD (.str ""))) ++ ")"
  | .recallEvent => do
    return "Recall: " ++ (← memberText "ref_id" metadata) ++ " mode=" ++
      (← memberText "mode" metadata)
  | _ => some "" -- not reached: only relevant operations are summarized

/-- The time stamps and texts of the latest relevant operations. -/
def extractRecentOps (config : InjectionConfig) (manifest : Manifest N) :
    Option (List (String × String)) :=
  (sliceFrom config.maxRecentOps.neg (manifest.operations.filter fun op => relevant op.type)).mapM
    fun op => do return (op.timestamp, ← summarizeOp op)

omit [JsNumber N] in
def selectRefs (P : Printer N) (manifest : Manifest N) : List Reference :=
  (sortBy (fun a b => P.localeCompare b.createdAt a.createdAt) manifest.references.values).take 8

/-- A credential is rendered by its account and service, never by its other values. -/
def renderFactValue (fact : Fact N) : Option String :=
  if fact.type = "credential" then do
    let user ← jsText
      (((field? "username" fact.value).or (field? "account" fact.value)).getD (.str "?"))
    let svc ← jsText
      (((field? "service" fact.value).or (field? "host" fact.value)).getD (.str "?"))
    return "[credential slot] " ++ user ++ "@" ++ svc ++ " — use identity_key to reference"
  else
    let shown := fact.value.filter fun e =>
      match e.2 with
      | .null => false
      | .str s => s ≠ ""
      | _ => true
    some (String.intercalate ", "
      ((shown.take 4).map fun e => e.1 ++ ": " ++ e.2.stringify JsNumber.toText))

/-- The line of an active fact. -/
def factLine (P : Printer N) (f : Fact N) : Option String := do
  let conf := P.percent f.confidence ++ "%"
  let obs :=
    if 1 < f.observations.observationCount then " ×" ++ toString f.observations.observationCount
    else ""
  let value ← renderFactValue f
  return "- [" ++ f.factId ++ "] **" ++ f.type ++ "** (" ++ conf ++ obs ++ "): " ++ value

def renderFactsSection (P : Printer N) (facts : List (Fact N)) : Option String := do
  return "## Active Facts\n\n" ++ String.intercalate "\n" (← facts.mapM (factLine P))

/-- The line of a conflicted fact. -/
def conflictedLine (P : Printer N) (f : Fact N) : Option String := do
  let conf := P.percent f.confidence ++ "%"
  let value ← renderFactValue f
  return "- [STATE: CONFLICTED] [" ++ f.factId ++ "] **" ++ f.type ++ "** (" ++ conf ++ "): " ++ value

def renderConflictedSection (P : Printer N) (facts : List (Fact N)) : Option String := do
  return "## Conflicted Beliefs ⚠️\n\n" ++ String.intercalate "\n" (← facts.mapM (conflictedLine P)) ++
    "\n\n_These beliefs require resolution before acting on them._"

omit [JsNumber N] in
def renderSummariesSection (P : Printer N) (summaries : List (Summary N)) : String :=
  "## Summaries\n\n" ++ String.intercalate "\n\n" (summaries.map fun s =>
    let staleTag := if s.stale then " **[STALE]**" else ""
    let conf := P.percent s.confidence ++ "%"
    let points := String.intercalate "\n" ((s.keyPoints.take 3).map fun p => "  - " ++ p)
    let conflicts :=
      if s.conflicts ≠ [] then "\n  - ⚠️ " ++ String.intercalate "; " (s.conflicts.take 2) else ""
    let actions :=
      match s.recommendedNextActions.head? with
      | some action => "\n  → " ++ action
      | none => ""
    "**[" ++ s.summaryId ++ "]** " ++ s.type ++ ":" ++ s.scope ++ staleTag ++ " (" ++ conf ++ ")\n" ++
      points ++ conflicts ++ actions)

omit [JsNumber N] in
/-- The time of day is cut out of the time stamp. -/
def renderOpsSection (ops : List (String × String)) : List ℕ :=
  utf16 "## Recent Events\n\n" ++ joinUnits "\n" (ops.map fun op =>
    utf16 "- `" ++ ((utf16 op.1).take 19).drop 11 ++ utf16 "` " ++ utf16 op.2)

/-- `(bytes / 1024).toFixed(1)` -/
def kilobytes (bytes : ℕ) : String :=
  let tenths := (20 * bytes + 1024) / 2048
  toString (tenths / 10) ++ "." ++ toString (tenths % 10)

def renderRefsSection (refs : List Reference) : String :=
  "## Available References\n\n" ++ String.intercalate "\n" (refs.map fun r =>
    let size :=
      if 1024 < r.byteSize then kilobytes r.byteSize ++ "KB" else toString r.byteSize ++ "B"
    "- `" ++ r.refId ++ "` — " ++ r.label ++ " (" ++ toString r.lineCount ++ " lines, " ++ size ++
      ", src: " ++ r.source ++ ")") ++
    "\n\n_Recall with: `recall_evidence(\x7b ref_id, mode: \"summary\" | \"search\" | \"range\" \x7d)`_"

/-- The part of the context that a builder adds, if it adds one. -/
def sectionIf {α : Type} (items : List α) (render : List α → Option (List ℕ)) :
    Option (List (List ℕ)) :=
  if items = [] then some [] else (render items).map fun text => [text]

/-- The sections, in the order of their priority. -/
def sections (P : Printer N) (config : InjectionConfig) (manifest : Manifest N) :
    Option (List (List ℕ)) := do
  let objective ← extractObjective manifest
  let facts ← sectionIf (selectFacts config manifest) fun facts =>
    (renderFactsSection P facts).map utf16
  let conflicted ← sectionIf (selectConflictedFacts manifest) fun facts =>
    (renderConflictedSection P facts).map utf16
  let summaries ← sectionIf (selectSummaries config manifest) fun summaries =>
    some (utf16 (renderSummariesSection P summaries))
  let ops ←
    if config.includeRecentOps then do
      sectionIf (← extractRecentOps config manifest) fun ops => some (renderOpsSection ops)
    else some []
  let refs ←
    if config.includeRefs then
      sectionIf (selectRefs P manifest) fun refs => some (utf16 (renderRefsSection refs))
    else some []
  return objective.toList.map (fun text => utf16 ("**Objective:** " ++ text)) ++ facts ++
    conflicted ++ summaries ++ ops ++ refs ++
    [utf16 "_Use summaries for navigation. For precise execution, drill into FACT_IDs via `recall_evidence`._"]

/-- The context that is injected, cut with a note when it is too long. -/
def compile (P : Printer N) (config : InjectionConfig) (manifest : Manifest N) :
    Option (List ℕ) := do
  let body := joinUnits "\n\n" (← sections P config manifest)
  if config.maxChars.exceededBy body.length then
    return sliceTo (config.maxChars.minus 120) body ++
      utf16 ("\n\n[Operational context truncated at " ++ P.limit config.maxChars ++
        " chars. Use recall_evidence for full state.]")
  else
    return utf16 "# Current Operational Memory\n\n" ++ body

end Injection

end ClawHarder
