import ClawHarder.Lib.Nesting
import ClawHarder.Spec.OcEdit

/-!
# Searching with an `oc://` pattern

From `find.ts` and the unions and predicates of `oc-path.ts`: `findOcPaths` over files of JSON
with comments and of JSON lines. The walk over markdown is left out.
-/

namespace ClawHarder.OcPaths

def parseUnionSeg (seg : Units) : Option (List Units) :=
  if !isUnionSeg seg then none
  else if inner seg = [] then none
  else
    let alts := (inner seg).splitOn comma
    if alts.any fun a => a = [] then none else some alts

variable {J : Js}

def evaluatePredicate (J : Js) (actual? : Option Units) (pred : PredicateSpec) : Bool :=
  match actual? with
  | none => false
  | some actual =>
    if pred.op = utf16 "=" then actual = pred.value
    else if pred.op = utf16 "!=" then actual ≠ pred.value
    else
      let a := J.number actual
      let b := J.number pred.value
      if !J.isFinite a || !J.isFinite b then false
      else if pred.op = utf16 "<" then J.less a b
      else if pred.op = utf16 "<=" then !J.less b a
      else if pred.op = utf16 ">" then J.less b a
      else !J.less a b

/-- The text of a leaf of an object, with the text of null. -/
def fieldText (J : Js) (nullText : Option Units) (node : JsoncValue J.Num) (key : Units) :
    Option Units :=
  match node with
  | .object entries _ =>
    match entries.find? fun e => e.key = key with
    | none => none
    | some e =>
      match e.value with
      | .string v _ => some v
      | .number v _ => some (J.text v)
      | .boolean v _ => some (utf16 (toString v))
      | .null _ => nullText
      | _ => none
  | _ => none

def jsoncChildFieldText (J : Js) (node : JsoncValue J.Num) (key : Units) : Option Units :=
  fieldText J (some (utf16 "null")) node key

def topLevelLeafText (J : Js) (value : JsoncValue J.Num) (key : Units) : Option Units :=
  fieldText J none value key

inductive Slot where
  | section
  | item
  | field
deriving DecidableEq

structure SlotSub where
  slot : Slot
  value : Units
deriving DecidableEq

def patternSubs (pattern : OcPath) : Except Thrown (List SlotSub) := do
  let sectionSubs ← slotSubs pattern.section?
  let itemSubs ← slotSubs pattern.item?
  let fieldSubs ← slotSubs pattern.field?
  return sectionSubs.map (SlotSub.mk .section) ++ itemSubs.map (SlotSub.mk .item) ++
    fieldSubs.map (SlotSub.mk .field)

/-- `needsExpansion` of one sub-segment. -/
def needsExpansion (sub : SlotSub) : Bool :=
  sub.value = wildcardSingle || sub.value = wildcardRecursive || isPositionalSeg sub.value ||
    isUnionSeg sub.value || isPredicateSeg sub.value

/-- The sub-segments of a slot, joined, if there are any. -/
def packSlot (slot : Slot) (subs : List SlotSub) : Option Units :=
  let values := (subs.filter fun s => s.slot = slot).map SlotSub.value
  if values = [] then none else some ([dot].intercalate values)

def repackSlotSubs (pattern : OcPath) (subs : List SlotSub) : OcPath :=
  { file := pattern.file, section? := packSlot .section subs
    item? := packSlot .item subs
    field? := packSlot .field subs
    session? := pattern.session? }

theorem length_alternative {seg alt : Units} {alts : List Units}
    (h : parseUnionSeg seg = some alts) (halt : alt ∈ alts) : alt.length < seg.length := by
  unfold parseUnionSeg at h
  dsimp only at h
  split_ifs at h with hunion hempty
  obtain rfl := Option.some.inj h
  have hinner := List.length_le_intercalate (b := [comma]) halt
  rw [List.intercalate_splitOn] at hinner
  have hlong : 2 ≤ seg.length := by
    rw [isUnionSeg, Bool.not_eq_true', Bool.and_eq_false_iff, not_or, Bool.not_eq_false,
      Bool.not_eq_false, Bool.and_eq_true, decide_eq_true_eq] at hunion
    exact hunion.1.1
  have hlength : (inner seg).length = seg.length - 1 - 1 := by simp [inner]
  omega

/-- The alternatives of a union, which may again be unions. -/
def alternatives (value : Units) : List Units :=
  match h : parseUnionSeg value with
  | none => if isUnionSeg value then [] else [value]
  | some alts => alts.attach.flatMap fun alt =>
    have := length_alternative h alt.2
    alternatives alt.1
termination_by value.length

/-- `keySub`, or what is thrown for it, and the part that is addressed, which only statements about
the search look at. -/
structure Label where
  text : Except Thrown Units
  edge : EditSegment

structure WalkOps (T C : Type) where
  enumerate : T → List (Label × C)
  lookup : T → Units → Option (Label × C)
  positional : T → Units → Option (Label × C)
  predicate : T → PredicateSpec → List (Label × C)

/-- What `dispatchSeg` does next: it calls `onMatch`, or it goes to a child with the sub-segments
that are left. -/
inductive Turn (C : Type) where
  | emit
  | down (slot : Slot) (label : Label) (child : C) (subs : List SlotSub)

/-- `dispatchSeg` for a sub-segment that is no union -/
def dispatchAlt {T C : Type} (ops : WalkOps T C) (node : T) (slot : Slot) (rest : List SlotSub)
    (value : Units) : List (Turn C) :=
  if isPredicateSeg value then
    match parsePredicateSeg value with
    | none => []
    | some pred => (ops.predicate node pred).map fun m => .down slot m.1 m.2 rest
  else if value = wildcardRecursive then
    (if rest = [] then [.emit] else []) ++ (ops.enumerate node).flatMap fun m =>
      [.down slot m.1 m.2 rest, .down slot m.1 m.2 (⟨slot, value⟩ :: rest)]
  else if value = wildcardSingle then
    (ops.enumerate node).map fun m => .down slot m.1 m.2 rest
  else if isPositionalSeg value then
    (ops.positional node value).toList.map fun m => .down slot m.1 m.2 rest
  else (ops.lookup node value).toList.map fun m => .down slot m.1 m.2 rest

/-- `dispatchSeg`. The walk with an alternative in place of a union comes back to it. -/
def dispatchSeg {T C : Type} (ops : WalkOps T C) (node : T) : List SlotSub → List (Turn C)
  | [] => [.emit]
  | cur :: rest => (alternatives cur.value).flatMap (dispatchAlt ops node cur.slot rest)

theorem child_of_turn {T C : Type} {ops : WalkOps T C} {node : T} {P : C → Prop}
    (henumerate : ∀ m ∈ ops.enumerate node, P m.2)
    (hlookup : ∀ key m, ops.lookup node key = some m → P m.2)
    (hpositional : ∀ seg m, ops.positional node seg = some m → P m.2)
    (hpredicate : ∀ pred, ∀ m ∈ ops.predicate node pred, P m.2) {subs rest : List SlotSub}
    {slot : Slot} {label : Label} {child : C}
    (h : .down slot label child rest ∈ dispatchSeg ops node subs) : P child := by
  cases subs with
  | nil => simp [dispatchSeg] at h
  | cons cur subs =>
    obtain ⟨value, -, h⟩ := List.mem_flatMap.1 h
    unfold dispatchAlt at h
    by_cases hpredicateSeg : isPredicateSeg value = true
    · rw [if_pos hpredicateSeg] at h
      split at h
      next => cases h
      next pred hpred =>
        obtain ⟨m, hm, heq⟩ := List.mem_map.1 h
        cases heq
        exact hpredicate pred m hm
    rw [if_neg hpredicateSeg] at h
    by_cases hrecursive : value = wildcardRecursive
    · rw [if_pos hrecursive, List.mem_append, List.mem_flatMap] at h
      rcases h with h | ⟨m, hm, h⟩
      · split_ifs at h <;> simp at h
      · have hchild : child = m.2 := by
          rcases List.mem_pair.1 h with heq | heq <;> cases heq <;> rfl
        exact hchild ▸ henumerate m hm
    rw [if_neg hrecursive] at h
    split_ifs at h
    · obtain ⟨m, hm, heq⟩ := List.mem_map.1 h
      cases heq
      exact henumerate m hm
    · obtain ⟨m, hm, heq⟩ := List.mem_map.1 h
      cases heq
      exact hpositional value m (Option.mem_toList.1 hm)
    · obtain ⟨m, hm, heq⟩ := List.mem_map.1 h
      cases heq
      exact hlookup value m (Option.mem_toList.1 hm)

def maxTraversalDepth : ℕ := 256

def checkDepth (walked : List SlotSub) : Except Thrown Unit :=
  failIf (maxTraversalDepth < walked.length) (utf16
    "findOcPaths exceeded MAX_TRAVERSAL_DEPTH (256) — likely a pathological pattern")
    [] "OC_PATH_DEPTH_EXCEEDED"

/-- `enumerate` of `jsoncOps` -/
def jsoncParts (J : Js) : JsoncValue J.Num → List (Label × JsoncValue J.Num)
  | .object entries _ => entries.map fun e => (⟨quoteSeg e.key, .key e.key⟩, e.value)
  | .array items _ =>
    items.zipIdx.map fun item => (⟨.ok (utf16 (toString item.2)), .index item.2⟩, item.1)
  | _ => []

/-- `lookup` of `jsoncOps` -/
def jsoncLookup (J : Js) (node : JsoncValue J.Num) (key : Units) :
    Option (Label × JsoncValue J.Num) :=
  match node with
  | .object entries _ =>
    let lookupKey := if isQuotedSeg key then unquoteSeg key else key
    (entries.find? fun e => e.key = lookupKey).map fun e => (⟨.ok key, .key e.key⟩, e.value)
  | .array items _ =>
    (itemIndex? J key items.length).bind fun idx =>
      items[idx]?.map fun item => (⟨.ok key, .index idx⟩, item)
  | _ => none

def jsoncOps (J : Js) : WalkOps (JsoncValue J.Num) (JsoncValue J.Num) where
  enumerate := jsoncParts J
  lookup := jsoncLookup J
  positional node seg := (positionalForJsonc node seg).bind (jsoncLookup J node)
  predicate node pred := (jsoncParts J node).filter fun m =>
    evaluatePredicate J (jsoncChildFieldText J m.2 pred.key) pred

theorem sizeOf_jsoncParts {node : JsoncValue J.Num} :
    ∀ m ∈ jsoncParts J node, sizeOf m.2 < sizeOf node := by
  intro m hm
  cases node with
  | object entries line =>
    obtain ⟨e, he, rfl⟩ := List.mem_map.1 hm
    have hentry := List.sizeOf_lt_of_mem he
    have hvalue : sizeOf e.value < sizeOf e := by
      cases e
      simp
      omega
    simp
    omega
  | array items line =>
    obtain ⟨item, hitem, rfl⟩ := List.mem_map.1 hm
    have hmem := List.sizeOf_lt_of_mem (List.fst_mem_of_mem_zipIdx hitem)
    simp
    omega
  | string v line => cases hm
  | number v line => cases hm
  | boolean v line => cases hm
  | null line => cases hm

theorem sizeOf_jsoncLookup {node : JsoncValue J.Num} {key : Units} {m : Label × JsoncValue J.Num}
    (h : jsoncLookup J node key = some m) : sizeOf m.2 < sizeOf node := by
  cases node with
  | object entries line =>
    obtain ⟨e, he, rfl⟩ := Option.map_eq_some_iff.1 h
    have hpart : (⟨quoteSeg e.key, .key e.key⟩, e.value) ∈ jsoncParts J (.object entries line) :=
      List.mem_map_of_mem (List.mem_of_find?_eq_some he)
    have hless := sizeOf_jsoncParts _ hpart
    exact hless
  | array items line =>
    obtain ⟨idx, hidx, h⟩ := Option.bind_eq_some_iff.1 h
    obtain ⟨item, hitem, rfl⟩ := Option.map_eq_some_iff.1 h
    have hmem := List.sizeOf_lt_of_mem (List.mem_of_getElem? hitem)
    simp
    omega
  | string v line => cases h
  | number v line => cases h
  | boolean v line => cases h
  | null line => cases h

theorem sizeOf_turn {node child : JsoncValue J.Num} {subs rest : List SlotSub} {slot : Slot}
    {label : Label} (h : .down slot label child rest ∈ dispatchSeg (jsoncOps J) node subs) :
    sizeOf child < sizeOf node := by
  refine child_of_turn (P := fun c => sizeOf c < sizeOf node) sizeOf_jsoncParts
    (fun key m hm => sizeOf_jsoncLookup hm) (fun seg m hm => ?_) (fun pred m hm => ?_) h
  · obtain ⟨key, -, hkey⟩ := Option.bind_eq_some_iff.1 hm
    exact sizeOf_jsoncLookup hkey
  · exact sizeOf_jsoncParts m (List.mem_of_mem_filter hm)

def walkJsonc (J : Js) (node : JsoncValue J.Num) (subs walked : List SlotSub) :
    Except Thrown (List (List SlotSub)) := do
  checkDepth walked
  let found ← (dispatchSeg (jsoncOps J) node subs).attach.mapM fun
    | ⟨.emit, _⟩ => .ok [walked]
    | ⟨.down slot label child subs, h⟩ => do
      have := sizeOf_turn h
      let keySub ← label.text
      walkJsonc J child subs (walked ++ [⟨slot, keySub⟩])
  return found.flatten
termination_by sizeOf node

/-- `L` and the number of a line. -/
def lineText (line : ℕ) : Units := 0x4C :: utf16 (toString line)

/-- `enumerate` of `jsonlOps` -/
def jsonlParts {N : Type} (ast : JsonlAst N) : List (Label × JsonlLine N) :=
  (ast.lines.filter isValueLine).map fun l => (⟨.ok (lineText l.line), .index l.line⟩, l)

/-- `lookup` of `jsonlOps` -/
def jsonlLookup {N : Type} (ast : JsonlAst N) (key : Units) : Option (Label × JsonlLine N) :=
  (pickLine ast key).map fun line =>
    (⟨.ok (if isValueLine line then lineText line.line else key), .index line.line⟩, line)

def jsonlOps (J : Js) : WalkOps (JsonlAst J.Num) (JsonlLine J.Num) where
  enumerate := jsonlParts
  lookup := jsonlLookup
  positional := jsonlLookup
  predicate ast pred := (jsonlParts ast).filter fun m =>
    match m.2 with
    | .value _ v _ => evaluatePredicate J (topLevelLeafText J v pred.key) pred
    | _ => false

/-- `walk` of `jsonlOps` for a line -/
def walkLine (J : Js) (line : JsonlLine J.Num) (subs walked : List SlotSub) :
    Except Thrown (List (List SlotSub)) :=
  if subs = [] then .ok [walked]
  else
    match line with
    | .value _ v _ => walkJsonc J v subs walked
    | _ => .ok []

def walkJsonl (J : Js) (ast : JsonlAst J.Num) (subs : List SlotSub) :
    Except Thrown (List (List SlotSub)) := do
  let found ← (dispatchSeg (jsonlOps J) ast subs).mapM fun
    | .emit => .ok [[]]
    | .down slot label line subs => do
      let keySub ← label.text
      walkLine J line subs [⟨slot, keySub⟩]
  return found.flatten

/-- The files with a structure of JSON. -/
inductive StructuredAst (N : Type) where
  | jsonc (ast : JsoncAst N)
  | jsonl (ast : JsonlAst N)

def StructuredAst.toOcAst {N : Type} : StructuredAst N → OcAst N
  | .jsonc ast => .jsonc ast
  | .jsonl ast => .jsonl ast

/-- A path that is found, with what it resolves to. -/
structure FoundPath where
  path : OcPath
  found : OcMatch

/-- The paths that `findOcPaths` collects. -/
def collectPaths (J : Js) (ast : StructuredAst J.Num) (pattern : OcPath) (subs : List SlotSub) :
    Except Thrown (List OcPath) := do
  let found ← match ast with
    | .jsonc ast =>
      match ast.root? with
      | none => .ok []
      | some root => walkJsonc J root subs []
    | .jsonl ast => walkJsonl J ast subs
  return found.map (repackSlotSubs pattern)

/-- What is reported for a path, if it resolves. -/
def reportPath (J : Js) (ast : StructuredAst J.Num) (path : OcPath) :
    Except Thrown (Option FoundPath) := do
  let m ← resolveOcPath J ast.toOcAst path
  return m.map (FoundPath.mk path)

def findOcPaths (J : Js) (ast : StructuredAst J.Num) (pattern : OcPath) :
    Except Thrown (List FoundPath) := do
  let subs ← patternSubs pattern
  if !subs.any needsExpansion then
    let found ← reportPath J ast pattern
    return found.toList
  else
    let concretePaths ← collectPaths J ast pattern subs
    let out ← concretePaths.mapM (reportPath J ast)
    return out.reduceOption

end ClawHarder.OcPaths
