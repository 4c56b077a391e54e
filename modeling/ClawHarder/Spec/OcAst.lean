import ClawHarder.Spec.OcPath

/-!
# The files that `oc://` paths address

From `ast.ts`, `jsonc/ast.ts`, `jsonl/ast.ts`, `jsonc/parse.ts`, `jsonc/emit.ts` and
`jsonl/emit.ts`: the trees of the three kinds of files, and the texts that are rendered from
them. What JavaScript does with numbers and letters is in `Js`, and `jsonc-parser` is in
`JsoncParser`. Rendering is what an edit does; echoing the text of a parsed file is left out.
-/

namespace ClawHarder.OcPaths

abbrev lineFeed : ℕ := 0x0A
abbrev carriageReturn : ℕ := 0x0D
abbrev space : ℕ := 0x20
abbrev hash : ℕ := 0x23
abbrev dollar : ℕ := 0x24
abbrev plus : ℕ := 0x2B
abbrev hyphen : ℕ := 0x2D
abbrev colon : ℕ := 0x3A
abbrev underscore : ℕ := 0x5F

/-- `[0-9]` -/
def isDigit (c : ℕ) : Bool := 0x30 ≤ c && c ≤ 0x39

/-- The characters of a finite number: digits, `.`, `e`, `+` and `-`. -/
def isNumeral (c : ℕ) : Bool := isDigit c || [dot, 0x65, plus, hyphen].contains c

/-- The number that `/^\d+$/` spells. -/
def decimal? (s : Units) : Option ℕ :=
  if s = [] || s.any (fun c => !isDigit c) then none
  else some (s.foldl (fun n c => 10 * n + (c - 0x30)) 0)

/-- A value of `JSON.parse`, with the members of an object as `Object.entries` has them. -/
inductive JsonValue (N : Type) where
  | null
  | boolean (value : Bool)
  | number (value : N)
  | string (value : Units)
  | array (items : List (JsonValue N))
  | object (entries : List (Units × JsonValue N))

structure Js where
  Num : Type
  /-- `Number(text)` -/
  number : Units → Num
  /-- `String(n)` -/
  text : Num → Units
  isFinite : Num → Bool
  /-- `a < b` of finite numbers -/
  less : Num → Num → Bool
  /-- the number, if it is an integer and not negative -/
  index? : Num → Option ℕ
  /-- `text.toLowerCase()` -/
  lower : Units → Units
  /-- `JSON.parse`, none where it throws -/
  parseJson : Units → Option (JsonValue Num)
  text_plain : ∀ n, underscore ∉ text n
  text_finite : ∀ n, isFinite n = true → text n ≠ [] ∧ ∀ c ∈ text n, isNumeral c = true

theorem isNumeral_toDigits (n : ℕ) :
    ∀ c ∈ (Nat.toDigits 10 n).map Char.toNat, isNumeral c = true := by
  intro c hc
  obtain ⟨digit, hdigit, rfl⟩ := List.mem_map.1 hc
  have hten := Nat.isDigit_of_mem_toDigits (by decide) (by decide) hdigit
  rw [Char.isDigit, Bool.and_eq_true, decide_eq_true_eq, decide_eq_true_eq] at hten
  rw [isNumeral, isDigit, Bool.or_eq_true, Bool.and_eq_true, decide_eq_true_eq, decide_eq_true_eq]
  exact .inl ⟨hten.1, hten.2⟩

/-- Digits spell numbers, letters are of ASCII, and no JSON is read. -/
def plainJs : Js where
  Num := Option ℕ
  number := decimal?
  text n? := (n?.map fun n => (Nat.toDigits 10 n).map Char.toNat).getD (utf16 "NaN")
  isFinite := Option.isSome
  less a? b? := decide (a?.getD 0 < b?.getD 0)
  index? := id
  lower := List.map fun c => if 0x41 ≤ c && c ≤ 0x5A then c + 0x20 else c
  parseJson _ := none
  text_plain n? h := by
    cases n? with
    | none => exact absurd h (by decide)
    | some n =>
      have hnumeral := isNumeral_toDigits n underscore h
      exact absurd hnumeral (by decide)
  text_finite n? h := by
    cases n? with
    | none => cases h
    | some n => exact ⟨by simp [Nat.toDigits_ne_nil], isNumeral_toDigits n⟩

structure JsoncEntry (V : Type) where
  key : Units
  value : V
  line : ℕ

inductive JsoncValue (N : Type) where
  | object (entries : List (JsoncEntry (JsoncValue N))) (line : Option ℕ)
  | array (items : List (JsoncValue N)) (line : Option ℕ)
  | string (value : Units) (line : Option ℕ)
  | number (value : N) (line : Option ℕ)
  | boolean (value : Bool) (line : Option ℕ)
  | null (line : Option ℕ)

def JsoncValue.line? {N : Type} : JsoncValue N → Option ℕ
  | .object _ line | .array _ line | .string _ line | .number _ line | .boolean _ line
  | .null line => line

structure JsoncAst (N : Type) where
  raw : Units
  root? : Option (JsoncValue N)

inductive JsonlLine (N : Type) where
  | value (line : ℕ) (value : JsoncValue N) (raw : Units)
  | blank (line : ℕ) (raw : Units)
  | malformed (line : ℕ) (raw : Units)

def JsonlLine.line {N : Type} : JsonlLine N → ℕ
  | .value line _ _ | .blank line _ | .malformed line _ => line

inductive LineEnding where
  | crlf
  | lf

def LineEnding.text : LineEnding → Units
  | .crlf => [carriageReturn, lineFeed]
  | .lf => [lineFeed]

structure JsonlAst (N : Type) where
  raw : Units
  lines : List (JsonlLine N)
  lineEnding? : Option LineEnding

structure FrontmatterEntry where
  key : Units
  value : Units
  line : ℕ

structure AstItem where
  text : Units
  slug : Units
  line : ℕ
  /-- the key and the value of `- key: value` -/
  kv? : Option (Units × Units)

structure AstBlock where
  heading : Units
  slug : Units
  line : ℕ
  bodyText : Units
  items : List AstItem

structure MdAst where
  raw : Units
  frontmatter : List FrontmatterEntry
  preamble : Units
  blocks : List AstBlock

inductive OcAst (N : Type) where
  | md (ast : MdAst)
  | jsonc (ast : JsoncAst N)
  | jsonl (ast : JsonlAst N)

def OcAst.raw {N : Type} : OcAst N → Units
  | .md ast => ast.raw
  | .jsonc ast => ast.raw
  | .jsonl ast => ast.raw

section Values

variable {N : Type}

mutual

def jsonToJsoncValue : JsonValue N → JsoncValue N
  | .null => .null none
  | .string v => .string v none
  | .number v => .number v none
  | .boolean v => .boolean v none
  | .array items => .array (jsonToJsoncItems items) none
  | .object entries => .object (jsonToJsoncEntries entries) none

def jsonToJsoncItems : List (JsonValue N) → List (JsoncValue N)
  | [] => []
  | v :: items => jsonToJsoncValue v :: jsonToJsoncItems items

def jsonToJsoncEntries : List (Units × JsonValue N) → List (JsoncEntry (JsoncValue N))
  | [] => []
  | (key, v) :: entries => ⟨key, jsonToJsoncValue v, 0⟩ :: jsonToJsoncEntries entries

end

/-- `Object.fromEntries`: a key keeps its first place and its last value. -/
def fromEntries (entries : List (Units × JsonValue N)) : List (Units × JsonValue N) :=
  entries.foldl (fun members e =>
    if members.any (fun m => m.1 = e.1) then
      members.map fun m => if m.1 = e.1 then e else m
    else members ++ [e]) []

mutual

/-- `jsoncValueToJson`. In which order an object has its members is left to `modify`. -/
def jsoncValueToJson : JsoncValue N → JsonValue N
  | .object entries _ => .object (fromEntries (jsoncEntriesToJson entries))
  | .array items _ => .array (jsoncItemsToJson items)
  | .string v _ => .string v
  | .number v _ => .number v
  | .boolean v _ => .boolean v
  | .null _ => .null

def jsoncItemsToJson : List (JsoncValue N) → List (JsonValue N)
  | [] => []
  | v :: items => jsoncValueToJson v :: jsoncItemsToJson items

def jsoncEntriesToJson : List (JsoncEntry (JsoncValue N)) → List (Units × JsonValue N)
  | [] => []
  | ⟨key, v, _⟩ :: entries => (key, jsoncValueToJson v) :: jsoncEntriesToJson entries

end

end Values

def hex4 (c : ℕ) : Units :=
  let digits := utf16 (String.ofList (Nat.toDigits 16 c))
  List.replicate (4 - digits.length) 0x30 ++ digits

def isHighSurrogate (c : ℕ) : Bool := 0xD800 ≤ c && c ≤ 0xDBFF

def isLowSurrogate (c : ℕ) : Bool := 0xDC00 ≤ c && c ≤ 0xDFFF

/-- A unit of a JSON string that is no half of a pair. -/
def escapeUnit (c : ℕ) : Units :=
  if c = quote then utf16 "\\\""
  else if c = backslash then utf16 "\\\\"
  else if c = 0x08 then utf16 "\\b"
  else if c = 0x09 then utf16 "\\t"
  else if c = lineFeed then utf16 "\\n"
  else if c = 0x0C then utf16 "\\f"
  else if c = carriageReturn then utf16 "\\r"
  else if c < 0x20 || isHighSurrogate c || isLowSurrogate c then utf16 "\\u" ++ hex4 c
  else [c]

def escapeUnits : Units → Units
  | [] => []
  | [c] => escapeUnit c
  | c :: d :: s =>
    if isHighSurrogate c && isLowSurrogate d then c :: d :: escapeUnits s
    else escapeUnit c ++ escapeUnits (d :: s)

/-- `JSON.stringify` of a text. -/
def jsonString (s : Units) : Units := quote :: (escapeUnits s ++ [quote])

/-- What stands around and between the parts of an object or an array. -/
structure Spacing where
  pad : Units
  colon : Units
  comma : Units

def jsoncSpacing : Spacing := ⟨utf16 " ", utf16 ": ", utf16 ", "⟩

def jsonlSpacing : Spacing := ⟨[], utf16 ":", utf16 ","⟩

section Render

variable (J : Js) (spacing : Spacing) (guardPath : Units)

/-- The path of a leaf in an error. -/
def leafPath (walked : List Units) : Units := guardPath ++ slash :: [slash].intercalate walked

mutual

/-- `renderValue` of both emitters. -/
def renderValue (walked : List Units) : JsoncValue J.Num → Except Thrown Units
  | .object entries _ => do
    let parts ← renderEntries walked entries
    return openBrace :: (spacing.pad ++ spacing.comma.intercalate parts ++ spacing.pad ++
      [closeBrace])
  | .array items _ => do
    let parts ← renderItems walked 0 items
    return openBracket :: (spacing.pad ++ spacing.comma.intercalate parts ++ spacing.pad ++
      [closeBracket])
  | .string v _ =>
    if includes v redactedSentinel then .error (.emitSentinel (leafPath guardPath walked))
    else .ok (jsonString v)
  | .number v _ => .ok (J.text v)
  | .boolean v _ => .ok (utf16 (toString v))
  | .null _ => .ok (utf16 "null")

def renderEntries (walked : List Units) :
    List (JsoncEntry (JsoncValue J.Num)) → Except Thrown (List Units)
  | [] => .ok []
  | ⟨key, v, _⟩ :: entries => do
    let text ← renderValue (walked ++ [key]) v
    let parts ← renderEntries walked entries
    return (jsonString key ++ spacing.colon ++ text) :: parts

def renderItems (walked : List Units) : ℕ → List (JsoncValue J.Num) → Except Thrown (List Units)
  | _, [] => .ok []
  | i, v :: items => do
    let text ← renderValue (walked ++ [utf16 (toString i)]) v
    let parts ← renderItems walked (i + 1) items
    return text :: parts

end

end Render

/-- `oc://` and the file of the options. -/
def guardPathOf (fileName? : Option Units) : Units :=
  ocScheme ++ (fileName?.filter fun file => file ≠ []).getD []

/-- `emitJsonc` with `mode: "render"` -/
def emitJsonc (J : Js) (root? : Option (JsoncValue J.Num)) (fileName? : Option Units) :
    Except Thrown Units :=
  match root? with
  | none => .ok []
  | some root => renderValue J jsoncSpacing (guardPathOf fileName?) [] root

def renderLine (J : Js) (guardPath : Units) : JsonlLine J.Num → Except Thrown Units
  | .value line value _ =>
    renderValue J jsonlSpacing (guardPath ++ utf16 ("/L" ++ toString line)) [] value
  | .blank _ raw => .ok raw
  | .malformed _ raw => .ok raw

/-- `emitJsonl` with `mode: "render"` -/
def emitJsonl (J : Js) (ast : JsonlAst J.Num) (fileName? : Option Units) : Except Thrown Units := do
  let out ← ast.lines.mapM (renderLine J (guardPathOf fileName?))
  return (ast.lineEnding?.getD .lf).text.intercalate out

end ClawHarder.OcPaths
