import ClawHarder.Spec.OcResolve

/-!
# Edits at an `oc://` path

From `universal.ts`, `edit.ts`, `jsonc/edit.ts`, `jsonc/parse.ts` and `jsonl/edit.ts`:
`setOcPath` with the leaf edits and the insertions of the three kinds of files. `parseTree` and
`modify` of `jsonc-parser` are in `JsoncParser`.
-/

namespace ClawHarder.OcPaths

inductive SetFailure where
  | unresolved
  | noRoot
  | notWritable
  | noItemKv
  | notAValueLine
  | parseError
  | typeMismatch
  | wildcardNotAllowed
deriving DecidableEq

/-- What is returned with `ok: false`. -/
structure Refusal where
  reason : SetFailure
  detail? : Option Units := none

/-- `ok: true` with an `A`, or a refusal. -/
abbrev Edited (A : Type) := Except Refusal A

def refuse {A : Type} (reason : SetFailure) : Except Thrown (Edited A) := .ok (.error { reason })

def refuseWith {A : Type} (reason : SetFailure) (detail : Units) : Except Thrown (Edited A) :=
  .ok (.error { reason, detail? := some detail })

def written {A : Type} (ast : A) : Except Thrown (Edited A) := .ok (.ok ast)

/-- `guardSentinel` of `sentinel.ts` -/
def guardSentinel (value ocPath : Units) : Except Thrown Unit :=
  if includes value redactedSentinel then .error (.emitSentinel ocPath) else .ok ()

/-- `/[:#&*?|<>=!%@`,[\]{}\r\n]/` -/
def isFrontmatterStructural (c : ℕ) : Bool :=
  (utf16 ":#&*?|<>=!%@,[]\x7b\x7d").contains c || c = 0x60 || c = carriageReturn || c = lineFeed

def formatFrontmatterValue (value : Units) : Units :=
  if value = [] then utf16 "\"\""
  else if value.any isFrontmatterStructural then jsonString value
  else value

def frontmatterParts (ast : MdAst) : List Units :=
  if ast.frontmatter = [] then []
  else
    let fences := utf16 "---"
    fences :: (ast.frontmatter.map fun fm =>
      fm.key ++ utf16 ": " ++ formatFrontmatterValue fm.value) ++ [fences]

/-- The parts, and an empty line before what follows. -/
def separate (parts : List Units) : List Units := if parts = [] then [] else parts ++ [[]]

def preambleParts (ast : MdAst) (parts : List Units) : List Units :=
  if ast.preamble = [] then parts else separate parts ++ [ast.preamble]

def blockParts (parts : List Units) (block : AstBlock) : List Units :=
  let parts := separate parts ++ [utf16 "## " ++ block.heading]
  if block.bodyText = [] then parts else parts ++ [block.bodyText]

/-- What `finalize` of `edit.ts` and `rebuildMdRaw` of `universal.ts` join. -/
def mdParts (ast : MdAst) : List Units :=
  ast.blocks.foldl blockParts (preambleParts ast (frontmatterParts ast))

/-- `rebuildMdRaw`, and `finalize` -/
def rebuildMdRaw (ast : MdAst) : MdAst := { ast with raw := [lineFeed].intercalate (mdParts ast) }

/-- What `.` does not match. -/
def isTerminator (c : ℕ) : Bool := [lineFeed, carriageReturn, 0x2028, 0x2029].contains c

/-- A match of a regular expression with one group, and the text around it. -/
structure BulletMatch where
  before : Units
  group : Units
  /-- what the expression matches after the group -/
  value : Units
  after : Units

/-- `-\s*KEY\s*:\s*` with the whitespace `ws` after the hyphen, and what is left. -/
def afterKey (key : Units) (s : Units) (ws : ℕ) : Option Units :=
  let atKey := s.drop ws
  if key.isPrefixOf atKey then
    match (atKey.drop key.length).dropWhile isSpace with
    | c :: rest => if c = colon then some (rest.dropWhile isSpace) else none
    | [] => none
  else none

/-- `/^(\s*-\s*KEY\s*:\s*).*$/m` at the start of a text. Only the whitespace before the key can
be cut in several ways, and the longest is tried first. -/
def bulletAt (key : Units) (s : Units) : Option BulletMatch :=
  match s.dropWhile isSpace with
  | c :: rest =>
    if c = hyphen then
      let spaces := (rest.takeWhile isSpace).length
      ((List.range (spaces + 1)).reverse.findSome? (afterKey key rest)).map fun left =>
        { before := []
          group := s.take (s.length - left.length)
          value := left.takeWhile fun c => !isTerminator c
          after := left.dropWhile fun c => !isTerminator c }
    else none
  | [] => none

/-- The first match in a text, which may begin at the start of a line. -/
def findBullet (key : Units) (atStart : Bool) : Units → Option BulletMatch
  | [] => none
  | c :: s =>
    match if atStart then bulletAt key (c :: s) else none with
    | some m => some m
    | none => (findBullet key (isTerminator c) s).map fun m => { m with before := c :: m.before }

/-- What `$` stands for before the text, in a replacement for one group, and of how many
characters after `$` it takes account. -/
def reference (m : BulletMatch) : Units → Option (Units × ℕ)
  | [] => none
  | d :: rest =>
    if d = dollar then some ([dollar], 1)
    else if d = ampersand then some (m.group ++ m.value, 1)
    else if d = 0x60 then some (m.before, 1)
    else if d = 0x27 then some (m.after, 1)
    else if d = 0x31 then some (m.group, 1)
    else if d = 0x30 ∧ rest.head? = some 0x31 then some (m.group, 2)
    else none

/-- The replacement text from where `skip` more characters have been read. -/
def expandFrom (m : BulletMatch) (skip : ℕ) : Units → Units
  | [] => []
  | c :: s =>
    match skip with
    | skip + 1 => expandFrom m skip s
    | 0 =>
      match if c = dollar then reference m s else none with
      | some (text, read) => text ++ expandFrom m read s
      | none => c :: expandFrom m 0 s

/-- What `String.prototype.replace` makes of a replacement. -/
def expand (m : BulletMatch) (replacement : Units) : Units := expandFrom m 0 replacement

/-- `body.replace(re, "$1" + value)` for the bullet of a key -/
def replaceBullet (key value body : Units) : Units :=
  match findBullet key true body with
  | none => body
  | some m => m.before ++ expand m (dollar :: 0x31 :: value) ++ m.after

/-- One turn of the loop of `rebuildBlockBody`, with the new and the old item. -/
def rebuildItem (body : Units) (items : AstItem × AstItem) : Units :=
  match items.1.kv?, items.2.kv? with
  | some (_, newValue), some (oldKey, oldValue) =>
    if newValue = oldValue then body else replaceBullet oldKey newValue body
  | _, _ => body

def rebuildBlockBody (block : AstBlock) (newItems : List AstItem) : Units :=
  (newItems.zip block.items).foldl rebuildItem block.bodyText

/-- The item of `setMdOcPath`, with its new value. -/
def setItem (J : Js) (ast : MdAst) (sectionSeg itemSeg field newValue : Units) : Except Thrown (Edited MdAst) :=
  match ast.blocks.findIdx? (fun b => b.slug = J.lower sectionSeg) with
  | none => refuse .unresolved
  | some blockIdx =>
    match ast.blocks[blockIdx]? with
    | none => refuse .unresolved
    | some block =>
      match block.items.findIdx? (fun i => i.slug = J.lower itemSeg) with
      | none => refuse .unresolved
      | some itemIdx =>
        match block.items[itemIdx]? with
        | none => refuse .unresolved
        | some item =>
          match item.kv? with
          | none => refuse .noItemKv
          | some (key, _) =>
            if J.lower key ≠ J.lower field then refuse .unresolved
            else
              let newItem := { item with kv? := some (key, newValue) }
              let newItems := block.items.set itemIdx newItem
              let newBlock :=
                { block with items := newItems, bodyText := rebuildBlockBody block newItems }
              written (rebuildMdRaw { ast with blocks := ast.blocks.set blockIdx newBlock })

def setMdOcPath (J : Js) (ast : MdAst) (path : OcPath) (newValue : Units) : Except Thrown (Edited MdAst) := do
  let formatted ← formatOcPath path
  guardSentinel newValue formatted
  if path.section? = some frontmatterSection then
    match path.item?.or path.field? with
    | none => refuse .unresolved
    | some key =>
      match ast.frontmatter.findIdx? (fun e => e.key = key) with
      | none => refuse .unresolved
      | some idx =>
        let newFm := ast.frontmatter.modify idx fun e => { e with value := newValue }
        written (rebuildMdRaw { ast with frontmatter := newFm })
  else
    match path.section?, path.item?, path.field? with
    | some sectionSeg, some itemSeg, some field => setItem J ast sectionSeg itemSeg field newValue
    | _, _, _ => refuse .notWritable

def isSlugChar (c : ℕ) : Bool := (0x61 ≤ c && c ≤ 0x7A) || isDigit c

/-- `.replace(/[^a-z0-9]+/g, "-")` -/
def hyphenate (s : Units) : Units :=
  (s.splitBy fun a b => isSlugChar a = isSlugChar b).flatMap fun run =>
    if run.any isSlugChar then run else [hyphen]

def slugifyHeading (J : Js) (s : Units) : Units :=
  let slug := hyphenate (trim (J.lower s))
  (slug.dropWhile fun c => c = hyphen).rdropWhile fun c => c = hyphen

/-- `/^([^:]+?)\s*:\s*(.+)$/`: the two groups. -/
def kvMatch (text : Units) : Option (Units × Units) :=
  let key := text.takeWhile fun c => c ≠ colon
  match text.dropWhile fun c => c ≠ colon with
  | [] => none
  | _ :: rest =>
    let short := key.rdropWhile isSpace
    let value := rest.dropWhile isSpace
    -- where only whitespace is left, its last character is the value
    let value := if value = [] then rest.drop (rest.length - 1) else value
    if key = [] ∨ value = [] ∨ value.any isTerminator then none
    else some (if short = [] then key.take 1 else short, value)

/-- `body.replace(/\n*$/, "\n") + line`, or the line alone -/
def appendLine (body line : Units) : Units :=
  if body = [] then line else body.rdropWhile (fun c => c = lineFeed) ++ [lineFeed] ++ line

def setMdInsertion (J : Js) (ast : MdAst) (info : InsertionInfo) (value : Units) :
    Except Thrown (Edited MdAst) :=
  let p := info.parentPath
  match p.section? with
  | none =>
    if info.marker ≠ .last then
      refuseWith .notWritable (utf16 "md file-level insertion uses bare `+`")
    else
      let block : AstBlock :=
        { heading := value, slug := slugifyHeading J value, line := 0, bodyText := [], items := [] }
      written (rebuildMdRaw { ast with blocks := ast.blocks ++ [block] })
  | some sectionSeg =>
    if sectionSeg = frontmatterSection then
      match info.marker with
      | .keyed key =>
        if ast.frontmatter.any fun e => e.key = key then
          refuseWith .typeMismatch (utf16 "frontmatter key '" ++ key ++
            utf16 "' already exists; use set, not insert")
        else
          let entry : FrontmatterEntry := { key, value, line := 0 }
          written (rebuildMdRaw { ast with frontmatter := ast.frontmatter ++ [entry] })
      | _ => refuseWith .notWritable (utf16 "md frontmatter insertion requires +key")
    else if p.item? = none ∧ p.field? = none then
      if info.marker ≠ .last then
        refuseWith .notWritable (utf16 "md section insertion uses bare `+`")
      else
        match ast.blocks.findIdx? (fun b => b.slug = J.lower sectionSeg) with
        | none => refuse .unresolved
        | some blockIdx =>
          let kv := kvMatch value
          let newItem : AstItem :=
            { text := value, slug := slugifyHeading J ((kv.map Prod.fst).getD value), line := 0
              kv? := kv.map fun groups => (trim groups.1, trim groups.2) }
          let newBlocks := ast.blocks.modify blockIdx fun block =>
            { block with
              items := block.items ++ [newItem]
              bodyText := appendLine block.bodyText (utf16 "- " ++ value) }
          written (rebuildMdRaw { ast with blocks := newBlocks })
    else refuse .notWritable

section Structured

variable {J : Js}

def coerceJsoncLeaf (J : Js) (valueText : Units) : JsoncValue J.Num → Option (JsoncValue J.Num)
  | .string _ line => some (.string valueText line)
  | .number _ line =>
    let n := J.number valueText
    if J.isFinite n then some (.number n line) else none
  | .boolean _ line =>
    if valueText = utf16 "true" then some (.boolean true line)
    else if valueText = utf16 "false" then some (.boolean false line)
    else none
  | .null line => if valueText = utf16 "null" then some (.null line) else none
  | _ => none

/-- `leafValue.kind` -/
def kindName {N : Type} : JsoncValue N → Units
  | .object _ _ => utf16 "object"
  | .array _ _ => utf16 "array"
  | .string _ _ => utf16 "string"
  | .number _ _ => utf16 "number"
  | .boolean _ _ => utf16 "boolean"
  | .null _ => utf16 "null"

/-- What `setStructuredLeaf` finds at the path. -/
inductive StructuredLeafMatch (N : Type) where
  | root
  | line
  | leaf (value : JsoncValue N)

/-- `setStructuredLeaf`, with `onLine` for a whole line -/
def setStructuredLeaf {A : Type} (J : Js) (value : Units)
    (existing : Option (StructuredLeafMatch J.Num)) (set : JsoncValue J.Num → Except Thrown (Edited A))
    (onLine : Except Thrown (Edited A)) : Except Thrown (Edited A) :=
  match existing with
  | none => refuse .unresolved
  | some .root =>
    refuseWith .notWritable (utf16 "root replacement is not supported via setOcPath")
  | some .line => onLine
  | some (.leaf leafValue) =>
    match coerceJsoncLeaf J value leafValue with
    | none =>
      refuseWith .parseError (utf16 "cannot coerce \"" ++ value ++ utf16 "\" to " ++
        kindName leafValue)
    | some coerced => set coerced

/-- A property or an element on the way to a value. -/
inductive EditSegment where
  | key (name : Units)
  | index (i : ℕ)
deriving DecidableEq

structure JsoncProperty (V : Type) where
  keyOffset : ℕ
  key : Units
  value? : Option V

/-- A node of `parseTree`, with its offset and its length. -/
inductive JsoncNode (N : Type) where
  | object (offset length : ℕ) (properties : List (JsoncProperty (JsoncNode N)))
  | array (offset length : ℕ) (items : List (JsoncNode N))
  | string (offset length : ℕ) (value : Units)
  | number (offset length : ℕ) (value : N)
  | boolean (offset length : ℕ) (value : Bool)
  | null (offset length : ℕ)

def JsoncNode.offset {N : Type} : JsoncNode N → ℕ
  | .object offset _ _ | .array offset _ _ | .string offset _ _ | .number offset _ _
  | .boolean offset _ _ | .null offset _ => offset

def JsoncNode.length {N : Type} : JsoncNode N → ℕ
  | .object _ length _ | .array _ length _ | .string _ length _ | .number _ length _
  | .boolean _ length _ | .null _ length => length

inductive ParseErrorCode where
  | endOfFileExpected
  | invalidSymbol
  | other
deriving DecidableEq

structure JsoncParser (N : Type) where
  /-- `parseTree` with trailing commas and comments: the tree, and each error with its offset -/
  parseTree : Units → Option (JsoncNode N) × List (ParseErrorCode × ℕ)
  /-- `applyEdits(text, modify(text, path, value))`, none where there is no edit -/
  modify : Units → List EditSegment → JsonValue N → Option Units

/-- The 1-based line of an offset, as `createLineMap` has it. -/
def lineForOffset (raw : Units) (offset : ℕ) : ℕ := (raw.take offset).count lineFeed + 1

def maxParseDepth : ℕ := 256

def maxJsoncInputBytes : ℕ := 16 * 1024 * 1024

section

variable {N : Type} (raw : Units)

mutual

/-- `nodeToJsoncValue`, none where it throws -/
def nodeToJsoncValue (depth : ℕ) : JsoncNode N → Option (JsoncValue N)
  | .object offset _ properties =>
    if maxParseDepth < depth then none
    else do
      let entries ← propertiesToEntries depth properties
      return .object entries (some (lineForOffset raw offset))
  | .array offset _ items =>
    if maxParseDepth < depth then none
    else do
      let items ← nodesToItems depth items
      return .array items (some (lineForOffset raw offset))
  | .string offset _ value =>
    if maxParseDepth < depth then none else some (.string value (some (lineForOffset raw offset)))
  | .number offset _ value =>
    if maxParseDepth < depth then none else some (.number value (some (lineForOffset raw offset)))
  | .boolean offset _ value =>
    if maxParseDepth < depth then none else some (.boolean value (some (lineForOffset raw offset)))
  | .null offset _ =>
    if maxParseDepth < depth then none else some (.null (some (lineForOffset raw offset)))

/-- A property without a value is left out. -/
def propertiesToEntries (depth : ℕ) :
    List (JsoncProperty (JsoncNode N)) → Option (List (JsoncEntry (JsoncValue N)))
  | [] => some []
  | ⟨_, _, none⟩ :: properties => propertiesToEntries depth properties
  | ⟨keyOffset, key, some node⟩ :: properties => do
    let value ← nodeToJsoncValue (depth + 1) node
    let entries ← propertiesToEntries depth properties
    return ⟨key, value, lineForOffset raw keyOffset⟩ :: entries

def nodesToItems (depth : ℕ) : List (JsoncNode N) → Option (List (JsoncValue N))
  | [] => some []
  | node :: nodes => do
    let value ← nodeToJsoncValue (depth + 1) node
    let items ← nodesToItems depth nodes
    return value :: items

end

end

/-- `isTrailingInput` of `toDiagnostic`: the error is a warning. -/
def isTrailingInput {N : Type} (tree : Option (JsoncNode N)) (error : ParseErrorCode × ℕ) : Bool :=
  error.1 = .endOfFileExpected ||
    tree.any fun node => error.1 = .invalidSymbol && node.offset + node.length ≤ error.2

def parseJsonc {N : Type} (P : JsoncParser N) (raw : Units) : JsoncAst N :=
  let root? :=
    if trim raw = [] then none
    else if maxJsoncInputBytes < raw.length then none
    else
      let (tree, errors) := P.parseTree (if startsWith raw [0xFEFF] then raw.drop 1 else raw)
      if errors.all (isTrailingInput tree) then tree.bind (nodeToJsoncValue raw 0) else none
  { raw, root? }

mutual

/-- `guardSentinel` of `jsonc/edit.ts` -/
def guardValue {N : Type} (guardPath : Units) : JsoncValue N → Except Thrown Unit
  | .string v _ => guardSentinel v guardPath
  | .array items _ => guardItems guardPath 0 items
  | .object entries _ => guardEntries guardPath entries
  | _ => .ok ()

def guardItems {N : Type} (guardPath : Units) : ℕ → List (JsoncValue N) → Except Thrown Unit
  | _, [] => .ok ()
  | i, v :: items => do
    guardValue (guardPath ++ slash :: utf16 (toString i)) v
    guardItems guardPath (i + 1) items

def guardEntries {N : Type} (guardPath : Units) :
    List (JsoncEntry (JsoncValue N)) → Except Thrown Unit
  | [] => .ok ()
  | ⟨key, v, _⟩ :: entries => do
    guardValue (guardPath ++ slash :: key) v
    guardEntries guardPath entries

end

def resolveEditSegments (J : Js) (current : JsoncValue J.Num) :
    List Units → Option (List EditSegment)
  | [] => some []
  | segment :: segments =>
    if segment = [] then none
    else
      let segment :=
        if isPositionalSeg segment then (positionalForJsonc current segment).getD segment
        else segment
      match current with
      | .object entries _ =>
        match entries.find? fun e => e.key = segment with
        | none => none
        | some entry =>
          (resolveEditSegments J entry.value segments).map (EditSegment.key segment :: ·)
      | .array items _ =>
        match itemIndex? J segment items.length with
        | none => none
        | some idx =>
          match items[idx]? with
          | none => none
          | some item => (resolveEditSegments J item segments).map (EditSegment.index idx :: ·)
      | _ => none

/-- The text of a segment in `segments.join("/")`. -/
def EditSegment.text : EditSegment → Units
  | .key name => name
  | .index i => utf16 (toString i)

def setJsoncOcPath (J : Js) (P : JsoncParser J.Num) (ast : JsoncAst J.Num) (path : OcPath)
    (newValue : JsoncValue J.Num) : Except Thrown (Edited (JsoncAst J.Num)) :=
  match ast.root? with
  | none => refuse .noRoot
  | some root => do
    let segments ← pathSegments path
    match resolveEditSegments J root segments with
    | none => refuse .unresolved
    | some segments =>
      let walked := [slash].intercalate (segments.map EditSegment.text)
      guardValue (ocScheme ++ path.file ++ slash :: walked) newValue
      match P.modify ast.raw segments (jsoncValueToJson newValue) with
      | none => refuse .unresolved
      | some nextRaw =>
        let reparsed := parseJsonc P nextRaw
        if reparsed.root?.isNone then refuse .unresolved else written reparsed

def mutateAt (J : Js) (mutate : JsoncValue J.Num → Option (JsoncValue J.Num))
    (current : JsoncValue J.Num) : List Units → Option (JsoncValue J.Num)
  | [] => mutate current
  | seg :: segments =>
    if seg = [] then none
    else
      match current with
      | .object entries line =>
        let lookupKey := if isQuotedSeg seg then unquoteSeg seg else seg
        match entries.findIdx? (fun e => e.key = lookupKey) with
        | none => none
        | some idx =>
          match entries[idx]? with
          | none => none
          | some child =>
            (mutateAt J mutate child.value segments).map fun replaced =>
              .object (entries.set idx { child with value := replaced }) line
      | .array items line =>
        match itemIndex? J seg items.length with
        | none => none
        | some idx =>
          match items[idx]? with
          | none => none
          | some child =>
            (mutateAt J mutate child segments).map fun replaced =>
              .array (items.set idx replaced) line
      | _ => none

def mutateJsoncContainer (J : Js) (ast : JsoncAst J.Num) (parentPath : OcPath)
    (mutate : JsoncValue J.Num → Option (JsoncValue J.Num)) : Except Thrown (Edited (JsoncAst J.Num)) :=
  match ast.root? with
  | none => refuse .noRoot
  | some root => do
    let segments ← pathSubs parentPath
    match mutateAt J mutate root segments with
    | none => refuse .unresolved
    | some newRoot => do
      let raw ← emitJsonc J (some newRoot) none
      written { raw, root? := some newRoot }

/-- Into an array, at the end or before an index. -/
def insertItem {N : Type} (marker : Marker) (value : JsoncValue N) :
    JsoncValue N → Option (JsoncValue N)
  | .array items line =>
    match marker with
    | .last => some (.array (items ++ [value]) line)
    | .indexed index => some (.array (items.insertIdx (min index items.length) value) line)
    | .keyed _ => some (.array items line)
  | _ => none

/-- Into an object, at the end. -/
def insertEntry {N : Type} (key : Units) (value : JsoncValue N) :
    JsoncValue N → Option (JsoncValue N)
  | .object entries line =>
    if entries.any fun e => e.key = key then none
    else some (.object (entries ++ [⟨key, value, 0⟩]) line)
  | _ => none

/-- The rest of `setJsoncInsertion`, with the container that was found and the new value. -/
def insertInto (J : Js) (ast : JsoncAst J.Num) (info : InsertionInfo) (containerMatch : OcMatch)
    (newValue : JsoncValue J.Num) : Except Thrown (Edited (JsoncAst J.Num)) :=
  match containerMatch with
  | .insertionPoint .jsoncArray _ =>
    match info.marker with
    | .keyed _ => refuseWith .typeMismatch (utf16 "cannot insert by key into array")
    | marker => mutateJsoncContainer J ast info.parentPath (insertItem marker newValue)
  | .insertionPoint _ _ =>
    match info.marker with
    | .keyed key => mutateJsoncContainer J ast info.parentPath (insertEntry key newValue)
    | _ => refuseWith .typeMismatch (utf16 "jsonc object insertion requires +key")
  | _ => refuse .unresolved

def setJsoncInsertion (J : Js) (ast : JsoncAst J.Num) (info : InsertionInfo) (value : Units) :
    Except Thrown (Edited (JsoncAst J.Num)) := do
  let containerMatch ← resolveJsoncInsertion J ast info
  match containerMatch with
  | none => refuse .unresolved
  | some containerMatch =>
    match J.parseJson value with
    | none => refuseWith .parseError (utf16 "jsonc insertion requires JSON value")
    | some parsed => insertInto J ast info containerMatch (jsonToJsoncValue parsed)

def replaceAt (J : Js) (newValue current : JsoncValue J.Num) :
    List Units → Option (JsoncValue J.Num)
  | [] => some newValue
  | seg :: segments =>
    if seg = [] then none
    else
      match current with
      | .object entries line =>
        match if isPositionalSeg seg then positionalForJsonc current seg else some seg with
        | none => none
        | some segNorm =>
          let lookupKey := if isQuotedSeg segNorm then unquoteSeg segNorm else segNorm
          match entries.findIdx? (fun e => e.key = lookupKey) with
          | none => none
          | some idx =>
            match entries[idx]? with
            | none => none
            | some child =>
              (replaceAt J newValue child.value segments).map fun replaced =>
                .object (entries.set idx { child with value := replaced }) line
      | .array items line =>
        match if isPositionalSeg seg then positionalForJsonc current seg else some seg with
        | none => none
        | some segNorm =>
          match itemIndex? J segNorm items.length with
          | none => none
          | some idx =>
            match items[idx]? with
            | none => none
            | some child =>
              (replaceAt J newValue child segments).map fun replaced =>
                .array (items.set idx replaced) line
      | _ => none

/-- `pickLineIndex`, with none for -1 -/
def pickLineIndex {N : Type} (ast : JsonlAst N) (addr : Units) : Option ℕ :=
  if addr = posLast then
    (ast.lines.reverse.findIdx? isValueLine).map fun i => ast.lines.length - 1 - i
  else
    match lineAddress addr with
    | none => none
    | some target => ast.lines.findIdx? fun l => l.line = target

/-- `finalize` of `jsonl/edit.ts` -/
def finalizeLine (J : Js) (ast : JsonlAst J.Num) (lineIdx : ℕ) (newLine : JsonlLine J.Num)
    (fileName : Units) : Except Thrown (Edited (JsonlAst J.Num)) := do
  let next := { ast with raw := [], lines := ast.lines.set lineIdx newLine }
  let rendered ← emitJsonl J next (some fileName)
  written { next with raw := rendered }

def setJsonlOcPath (J : Js) (ast : JsonlAst J.Num) (path : OcPath) (newValue : JsoncValue J.Num) :
    Except Thrown (Edited (JsonlAst J.Num)) :=
  match path.section? with
  | none => refuse .unresolved
  | some head =>
    match pickLineIndex ast head with
    | none => refuse .unresolved
    | some lineIdx =>
      match ast.lines[lineIdx]? with
      | none => refuse .unresolved
      | some (.value line value raw) =>
        if path.item? = none ∧ path.field? = none then
          finalizeLine J ast lineIdx (.value line newValue raw) path.file
        else do
          let segments ← pathSubs { path with section? := none }
          match replaceAt J newValue value segments with
          | none => refuse .unresolved
          | some replaced => finalizeLine J ast lineIdx (.value line replaced raw) path.file
      | some _ => refuse .notAValueLine

def appendJsonlOcPath (J : Js) (ast : JsonlAst J.Num) (value : JsoncValue J.Num) :
    Except Thrown (JsonlAst J.Num) := do
  let nextLineNo := ((ast.lines.getLast?.map JsonlLine.line).getD 0) + 1
  let next := { ast with raw := [], lines := ast.lines ++ [.value nextLineNo value []] }
  let rendered ← emitJsonl J next none
  return { next with raw := rendered }

def setJsonlInsertion (J : Js) (ast : JsonlAst J.Num) (info : InsertionInfo) (value : Units) :
    Except Thrown (Edited (JsonlAst J.Num)) :=
  if info.parentPath.section?.isSome ∨ info.marker ≠ .last then
    refuseWith .notWritable (utf16 "jsonl insertion only supports oc://FILE/+ append")
  else
    match J.parseJson value with
    | none => refuseWith .parseError (utf16 "jsonl line append requires JSON value")
    | some parsed => do
      let ast ← appendJsonlOcPath J ast (jsonToJsoncValue parsed)
      written ast

def JsoncMatch.leaf {N : Type} : JsoncMatch N → StructuredLeafMatch N
  | .root => .root
  | .value node _ => .leaf node
  | .objectEntry node _ => .leaf node.value

def JsonlMatch.leaf {N : Type} : JsonlMatch N → StructuredLeafMatch N
  | .root => .root
  | .line _ => .line
  | .value node _ _ => .leaf node
  | .objectEntry node _ _ => .leaf node.value

/-- A leaf of a JSON file, in `setOcPath`. -/
def setJsoncLeaf (J : Js) (P : JsoncParser J.Num) (ast : JsoncAst J.Num) (path : OcPath)
    (value : Units) : Except Thrown (Edited (JsoncAst J.Num)) := do
  let existing ← resolveJsoncOcPath J ast path
  setStructuredLeaf J value (existing.map JsoncMatch.leaf) (setJsoncOcPath J P ast path)
    (refuse .notWritable)

/-- A leaf or a line of a file of JSON lines, in `setOcPath`. -/
def setJsonlLeaf (J : Js) (ast : JsonlAst J.Num) (path : OcPath) (value : Units) :
    Except Thrown (Edited (JsonlAst J.Num)) := do
  let existing ← resolveJsonlOcPath J ast path
  setStructuredLeaf J value (existing.map JsonlMatch.leaf) (setJsonlOcPath J ast path)
    (match J.parseJson value with
    | none => refuseWith .parseError (utf16 "line replacement requires JSON value")
    | some parsed => setJsonlOcPath J ast path (jsonToJsoncValue parsed))

/-- The result for a file of its kind. -/
def lift {A B : Type} (f : A → B) (r : Except Thrown (Edited A)) : Except Thrown (Edited B) := do
  let result ← r
  return result.map f

def setOcPath (J : Js) (P : JsoncParser J.Num) (ast : OcAst J.Num) (path : OcPath)
    (value : Units) : Except Thrown (Edited (OcAst J.Num)) := do
  if ← isPattern path then
    refuseWith .wildcardNotAllowed (utf16
      "setOcPath requires a concrete path; use findOcPaths to enumerate matches first")
  else
    match detectInsertion path, ast with
    | some info, .md ast => lift .md (setMdInsertion J ast info value)
    | some info, .jsonc ast => lift .jsonc (setJsoncInsertion J ast info value)
    | some info, .jsonl ast => lift .jsonl (setJsonlInsertion J ast info value)
    | none, .md ast => lift .md (setMdOcPath J ast path value)
    | none, .jsonc ast => lift .jsonc (setJsoncLeaf J P ast path value)
    | none, .jsonl ast => lift .jsonl (setJsonlLeaf J ast path value)

end Structured

end ClawHarder.OcPaths
