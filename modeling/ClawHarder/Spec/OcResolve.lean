import ClawHarder.Spec.OcAst

/-!
# What an `oc://` path resolves to

From `universal.ts`, `resolve.ts`, `jsonc/resolve.ts`, `jsonl/resolve.ts` and the tokens of
`oc-path.ts`: `resolveOcPath` and `detectInsertion` over the three kinds of files.
-/

namespace ClawHarder.OcPaths

def posLast : Units := utf16 "$last"

def wildcardSingle : Units := utf16 "*"

def wildcardRecursive : Units := utf16 "**"

def isPositionalSeg (seg : Units) : Bool := seg = posLast

/-- `parseOrdinalSeg`, which `isOrdinalSeg` matches -/
def parseOrdinalSeg : Units → Option ℕ
  | c :: digits => if c = hash then decimal? digits else none
  | [] => none

structure PositionalContainer where
  indexable : Bool
  size : ℕ
  keys : List Units := []

def resolvePositionalSeg (seg : Units) (container : PositionalContainer) : Option Units :=
  if seg ≠ posLast || container.size = 0 then none
  else if !container.indexable then container.keys.getLast?
  else some (utf16 (toString (container.size - 1)))

def isUnionSeg (seg : Units) : Bool :=
  decide (2 ≤ seg.length) && startsWith seg [openBrace] && endsWith seg [closeBrace]

/-- `isPredicateSeg`: only the operators of one character are found in the set of characters. -/
def isPredicateSeg (seg : Units) : Bool :=
  decide (4 ≤ seg.length) && startsWith seg [openBracket] && endsWith seg [closeBracket] &&
    predicateOps.any fun op => (inner seg).any fun c => [c] = op

/-- A sub-segment that matches more than one thing. -/
def isPatternSub (sub : Units) : Bool :=
  sub = wildcardSingle || sub = wildcardRecursive || isUnionSeg sub || isPredicateSeg sub

/-- `splitRespectingBrackets(slot, ".")` of a slot, if it is there -/
def slotSubs (slot : Option Units) : Except Thrown (List Units) :=
  match slot with
  | none => .ok []
  | some s => splitRespectingBrackets s dot s

/-- The sub-segments of the three slots. -/
def pathSubs (path : OcPath) : Except Thrown (List Units) := do
  let sectionSubs ← slotSubs path.section?
  let itemSubs ← slotSubs path.item?
  let fieldSubs ← slotSubs path.field?
  return sectionSubs ++ itemSubs ++ fieldSubs

/-- `isPattern`, which is also `hasWildcard`. A slot is read when those before it are plain. -/
def isPattern (path : OcPath) : Except Thrown Bool := do
  let sectionSubs ← slotSubs path.section?
  if sectionSubs.any isPatternSub then return true
  let itemSubs ← slotSubs path.item?
  if itemSubs.any isPatternSub then return true
  let fieldSubs ← slotSubs path.field?
  return fieldSubs.any isPatternSub

inductive Marker where
  | last
  | keyed (key : Units)
  | indexed (index : ℕ)
deriving DecidableEq

structure InsertionInfo where
  parentPath : OcPath
  marker : Marker

/-- The marker after `+`. -/
def markerOf (rest : Units) : Marker :=
  if rest = [] then .last
  else
    match decimal? rest with
    | some index => .indexed index
    | none => .keyed rest

/-- `detectInsertion`: the last slot that is there, and the path without it. -/
def detectInsertion (path : OcPath) : Option InsertionInfo :=
  let (deepest, parentPath) :=
    match path.section?, path.item?, path.field? with
    | _, _, some field => (some field, { path with field? := none })
    | _, some item, none => (some item, { path with item? := none })
    | section?, none, none => (section?, { path with section? := none })
  match deepest with
  | some (c :: rest) => if c = plus then some ⟨parentPath, markerOf rest⟩ else none
  | _ => none

section Structured

variable {J : Js}

inductive JsoncMatch (N : Type) where
  | root
  | value (node : JsoncValue N) (path : List Units)
  | objectEntry (node : JsoncEntry (JsoncValue N)) (path : List Units)

def positionalForJsonc {N : Type} (node : JsoncValue N) (seg : Units) : Option Units :=
  match node with
  | .object entries _ =>
    resolvePositionalSeg seg
      { indexable := false, size := entries.length, keys := entries.map JsoncEntry.key }
  | .array items _ => resolvePositionalSeg seg { indexable := true, size := items.length }
  | _ => none

/-- The index that a segment of an array gives: `Number(seg)`, if that is in range. -/
def itemIndex? (J : Js) (seg : Units) (size : ℕ) : Option ℕ :=
  (J.index? (J.number seg)).filter fun idx => idx < size

/-- The loop over the segments in `resolveJsoncOcPath` and `resolveJsonlOcPath`. -/
def walkSegments (J : Js) (current : JsoncValue J.Num)
    (lastEntry : Option (JsoncEntry (JsoncValue J.Num))) (walked : List Units) :
    List Units → Option (JsoncMatch J.Num)
  | [] =>
    match lastEntry with
    | some entry => some (.objectEntry entry walked)
    | none => some (.value current walked)
  | seg :: segments =>
    if seg = [] then none
    else
      let seg := if isPositionalSeg seg then (positionalForJsonc current seg).getD seg else seg
      match current with
      | .object entries _ =>
        match entries.find? fun e => e.key = seg with
        | none => none
        | some entry => walkSegments J entry.value (some entry) (walked ++ [seg]) segments
      | .array items _ =>
        match (itemIndex? J seg items.length).bind (items[·]?) with
        | none => none
        | some item => walkSegments J item none (walked ++ [seg]) segments
      | _ => none

/-- `pathSegments` of `jsonc/edit.ts`: the segments as the resolvers take them. -/
def pathSegments (path : OcPath) : Except Thrown (List Units) := do
  let subs ← pathSubs path
  return subs.map unquoteSeg

def resolveJsoncOcPath (J : Js) (ast : JsoncAst J.Num) (path : OcPath) :
    Except Thrown (Option (JsoncMatch J.Num)) := do
  match ast.root? with
  | none => return none
  | some root =>
    let segments ← pathSegments path
    if segments = [] then return some .root
    return walkSegments J root none [] segments

inductive JsonlMatch (N : Type) where
  | root
  | line (node : JsonlLine N)
  | value (node : JsoncValue N) (line : ℕ) (path : List Units)
  | objectEntry (node : JsoncEntry (JsoncValue N)) (line : ℕ) (path : List Units)

/-- The line number that `/^L(\d+)$/` spells. -/
def lineAddress : Units → Option ℕ
  | c :: digits => if c = 0x4C then decimal? digits else none
  | [] => none

def isValueLine {N : Type} : JsonlLine N → Bool
  | .value _ _ _ => true
  | _ => false

def pickLine {N : Type} (ast : JsonlAst N) (addr : Units) : Option (JsonlLine N) :=
  if addr = posLast then ast.lines.reverse.find? isValueLine
  else
    match lineAddress addr with
    | none => none
    | some target => ast.lines.find? fun l => l.line = target

def resolveJsonlOcPath (J : Js) (ast : JsonlAst J.Num) (path : OcPath) :
    Except Thrown (Option (JsonlMatch J.Num)) := do
  match path.section? with
  | none => return some .root
  | some head =>
    match pickLine ast head with
    | none => return none
    | some lineEntry =>
      if path.item? = none ∧ path.field? = none then return some (.line lineEntry)
      match lineEntry with
      | .value line value _ =>
        let segments ← pathSegments { path with section? := none }
        match walkSegments J value none [] segments with
        | none => return none
        | some .root => return none
        | some (.value node walked) => return some (.value node line walked)
        | some (.objectEntry node walked) => return some (.objectEntry node line walked)
      | _ => return none

end Structured

inductive OcPathMatch where
  | root
  | frontmatter (node : FrontmatterEntry)
  | block (node : AstBlock)
  | item (node : AstItem) (block : AstBlock)
  | itemField (node : AstItem) (block : AstBlock) (value : Units)

def frontmatterSection : Units := utf16 "[frontmatter]"

/-- The item that a segment addresses: an ordinal, `$last` or a slug. -/
def pickItem (J : Js) (block : AstBlock) (seg : Units) : Option AstItem :=
  match parseOrdinalSeg seg with
  | some n => block.items[n]?
  | none =>
    if isPositionalSeg seg then
      match resolvePositionalSeg seg { indexable := true, size := block.items.length } with
      | none => none
      | some concrete => (J.index? (J.number concrete)).bind (block.items[·]?)
    else block.items.find? fun i => i.slug = J.lower seg

def resolveMdOcPath (J : Js) (ast : MdAst) (path : OcPath) : Option OcPathMatch :=
  match path.section? with
  | none => some .root
  | some sectionSeg =>
    if sectionSeg = frontmatterSection then
      match path.item?.or path.field? with
      | none => none
      | some key => (ast.frontmatter.find? fun e => e.key = key).map .frontmatter
    else
      match ast.blocks.find? fun b => b.slug = J.lower sectionSeg, path.item?, path.field? with
      | none, _, _ => none
      | some block, none, _ => some (.block block)
      | some block, some itemSeg, field? =>
        match pickItem J block itemSeg, field? with
        | none, _ => none
        | some item, none => some (.item item block)
        | some item, some field =>
          match item.kv? with
          | none => none
          | some (key, value) =>
            if J.lower key = J.lower field then some (.itemField item block value) else none

inductive LeafType where
  | string
  | number
  | boolean
  | null
deriving DecidableEq

inductive NodeDescriptor where
  | mdBlock
  | mdItem
  | jsoncObject
  | jsoncArray
  | jsonlLine
deriving DecidableEq

inductive ContainerKind where
  | mdSection
  | mdFile
  | mdFrontmatter
  | jsoncObject
  | jsoncArray
  | jsonlFile
deriving DecidableEq

inductive OcMatch where
  | root (line : ℕ)
  | leaf (valueText : Units) (leafType : LeafType) (line : ℕ)
  | node (descriptor : NodeDescriptor) (line : ℕ)
  | insertionPoint (container : ContainerKind) (line : ℕ)
deriving DecidableEq

def jsoncValueToMatch (J : Js) (value : JsoncValue J.Num) (line : ℕ) : OcMatch :=
  match value with
  | .object _ _ => .node .jsoncObject line
  | .array _ _ => .node .jsoncArray line
  | .string v _ => .leaf v .string line
  | .number v _ => .leaf (J.text v) .number line
  | .boolean v _ => .leaf (utf16 (toString v)) .boolean line
  | .null _ => .leaf (utf16 "null") .null line

def resolveMdToUniversal (J : Js) (ast : MdAst) (path : OcPath) : Option OcMatch :=
  (resolveMdOcPath J ast path).map fun m =>
    match m with
    | .root => .root 1
    | .frontmatter node => .leaf node.value .string node.line
    | .block node => .node .mdBlock node.line
    | .item node _ => .node .mdItem node.line
    | .itemField node _ value => .leaf value .string node.line

def resolveJsoncToUniversal (J : Js) (ast : JsoncAst J.Num) (path : OcPath) :
    Except Thrown (Option OcMatch) := do
  let m ← resolveJsoncOcPath J ast path
  return m.map fun m =>
    match m with
    | .root => .root 1
    | .objectEntry node _ => jsoncValueToMatch J node.value node.line
    | .value node _ => jsoncValueToMatch J node (node.line?.getD 1)

def resolveJsonlToUniversal (J : Js) (ast : JsonlAst J.Num) (path : OcPath) :
    Except Thrown (Option OcMatch) := do
  let m ← resolveJsonlOcPath J ast path
  return m.map fun m =>
    match m with
    | .root => .root 1
    | .line node => .node .jsonlLine node.line
    | .objectEntry node line _ => jsoncValueToMatch J node.value line
    | .value node line _ => jsoncValueToMatch J node line

def resolveMdInsertion (J : Js) (ast : MdAst) (info : InsertionInfo) : Option OcMatch :=
  let p := info.parentPath
  match p.section? with
  | none => some (.insertionPoint .mdFile 1)
  | some sectionSeg =>
    if sectionSeg = frontmatterSection then some (.insertionPoint .mdFrontmatter 1)
    else if p.item? = none ∧ p.field? = none then
      match resolveMdOcPath J ast p with
      | some (.block node) => some (.insertionPoint .mdSection node.line)
      | _ => none
    else none

def resolveJsoncInsertion (J : Js) (ast : JsoncAst J.Num) (info : InsertionInfo) :
    Except Thrown (Option OcMatch) := do
  let m ← resolveJsoncOcPath J ast info.parentPath
  let containerNode := match m with
    | none => none
    | some .root => ast.root?
    | some (.objectEntry node _) => some node.value
    | some (.value node _) => some node
  return match containerNode with
    | some (.object _ line) => some (.insertionPoint .jsoncObject (line.getD 1))
    | some (.array _ line) => some (.insertionPoint .jsoncArray (line.getD 1))
    | _ => none

def resolveJsonlInsertion {N : Type} (ast : JsonlAst N) (info : InsertionInfo) : Option OcMatch :=
  if info.parentPath.section?.isSome then none
  else
    let lastLine := (ast.lines.getLast?.map JsonlLine.line).getD 0
    some (.insertionPoint .jsonlFile (lastLine + 1))

def wildcardInResolve : Units :=
  utf16 "resolveOcPath received a wildcard pattern; use findOcPaths instead: "

def resolveOcPath (J : Js) (ast : OcAst J.Num) (path : OcPath) :
    Except Thrown (Option OcMatch) := do
  if ← isPattern path then
    let formatted ← formatOcPath path
    fail (wildcardInResolve ++ formatted) formatted "OC_PATH_WILDCARD_IN_RESOLVE"
  else
    match detectInsertion path, ast with
    | some info, .md ast => return resolveMdInsertion J ast info
    | some info, .jsonc ast => resolveJsoncInsertion J ast info
    | some info, .jsonl ast => return resolveJsonlInsertion ast info
    | none, .md ast => return resolveMdToUniversal J ast path
    | none, .jsonc ast => resolveJsoncToUniversal J ast path
    | none, .jsonl ast => resolveJsonlToUniversal J ast path

end ClawHarder.OcPaths
