import Mathlib.Algebra.Group.Nat.Defs
import ClawHarder.Lib.Effectful
import ClawHarder.Lib.Glob
import ClawHarder.Proof.OcPath
import ClawHarder.Spec.OcFind

/-!
# The walk of `findOcPaths`

The files of both kinds are trees, and a path pattern is a pattern over them: `select` and `glob`
say what its sub-segments stand for.

* `walkJsonc_eq`, `walkJsonl_eq`: the walk finds what the search over the tree finds, where each
  key that it comes to can be printed and no way is too long.
* `finds_matches`: **where the pattern is exact, the walk comes to the nodes that it means, to each
  once.**
-/

namespace ClawHarder.OcPaths

open Glob

/-- What a path can address: a file of JSON lines, a value, or a line that holds none. -/
inductive OcNode (N : Type) where
  | file (ast : JsonlAst N)
  | value (v? : Option (JsoncValue N))

def lineValue? {N : Type} : JsonlLine N → Option (JsoncValue N)
  | .value _ v _ => some v
  | _ => none

/-- Objects have distinct keys, and arrays are no longer than JavaScript has them. -/
inductive JsoncValue.Distinct {N : Type} : JsoncValue N → Prop
  | object {entries line} (hkeys : (entries.map JsoncEntry.key).Nodup)
      (hvalues : ∀ e ∈ entries, e.value.Distinct) : Distinct (.object entries line)
  | array {items line} (hlength : items.length < 2 ^ 32) (hitems : ∀ v ∈ items, v.Distinct) :
      Distinct (.array items line)
  | string {v line} : Distinct (.string v line)
  | number {v line} : Distinct (.number v line)
  | boolean {v line} : Distinct (.boolean v line)
  | null {line} : Distinct (.null line)

def OcNode.Distinct {N : Type} : OcNode N → Prop
  | .file ast => (ast.lines.map JsonlLine.line).Nodup ∧
      ∀ l ∈ ast.lines, ∀ v, lineValue? l = some v → v.Distinct
  | .value v? => ∀ v, v? = some v → v.Distinct

section Nodes

variable {J : Js}

def onChild {C N : Type} (f : C → OcNode N) (m : Label × C) : Label × OcNode N := (m.1, f m.2)

abbrev ofValue {N : Type} (m : Label × JsoncValue N) : Label × OcNode N :=
  onChild (fun v => .value (some v)) m

abbrev ofLine {N : Type} (m : Label × JsonlLine N) : Label × OcNode N :=
  onChild (fun l => .value (lineValue? l)) m

def OcNode.parts (J : Js) : OcNode J.Num → List (Label × OcNode J.Num)
  | .file ast => (jsonlParts ast).map ofLine
  | .value (some v) => (jsoncParts J v).map ofValue
  | .value none => []

noncomputable def OcNode.size (J : Js) : OcNode J.Num → ℕ
  | .file ast => sizeOf ast.lines
  | .value (some v) => sizeOf v
  | .value none => 0

theorem size_part (n : OcNode J.Num) : ∀ p ∈ n.parts J, p.2.size J < n.size J := by
  intro p hp
  cases n with
  | file ast =>
    obtain ⟨m, hm, rfl⟩ := List.mem_map.1 hp
    obtain ⟨l, hl, rfl⟩ := List.mem_map.1 hm
    have hlines := List.sizeOf_lt_of_mem (List.mem_of_mem_filter hl)
    cases l with
    | value line v raw =>
      simp only [JsonlLine.value.sizeOf_spec] at hlines
      show sizeOf v < sizeOf ast.lines
      omega
    | blank line raw => simp [isValueLine] at hl
    | malformed line raw => simp [isValueLine] at hl
  | value v? =>
    cases v? with
    | none => cases hp
    | some v =>
      obtain ⟨m, hm, rfl⟩ := List.mem_map.1 hp
      exact sizeOf_jsoncParts m hm

noncomputable def forest (J : Js) : Forest (OcNode J.Num) Label := ⟨OcNode.parts J, OcNode.size J, size_part⟩

/-- `$last`: the last part, with the text that the search prints for it. -/
def OcNode.lastPart (J : Js) : OcNode J.Num → Option (Label × OcNode J.Num)
  | .file ast => (ast.lines.reverse.find? isValueLine).map fun l =>
      ofLine (⟨.ok (lineText l.line), .index l.line⟩, l)
  | .value (some (.object entries _)) =>
    entries.getLast?.map fun e => ofValue (⟨.ok e.key, .key e.key⟩, e.value)
  | .value (some (.array items _)) => items.getLast?.map fun v =>
      ofValue (⟨.ok (utf16 (toString (items.length - 1))), .index (items.length - 1)⟩, v)
  | _ => none

/-- The part that a literal names, by a key or an index that may stand in quotes. -/
def OcNode.named (J : Js) (value : Units) : OcNode J.Num → Option (Label × OcNode J.Num)
  | .file ast => (jsonlLookup ast value).map ofLine
  | .value (some (.object entries _)) =>
    (entries.find? fun e => e.key = unquoteSeg value).map fun e =>
      ofValue (⟨.ok value, .key e.key⟩, e.value)
  | .value (some (.array items _)) =>
    (itemIndex? J (unquoteSeg value) items.length).bind fun idx => items[idx]?.map fun v =>
      ofValue (⟨.ok value, .index idx⟩, v)
  | _ => none

def OcNode.holding (J : Js) (pred : PredicateSpec) : OcNode J.Num → List (Label × OcNode J.Num)
  | .file ast => ((jsonlOps J).predicate ast pred).map ofLine
  | .value (some v) => ((jsoncOps J).predicate v pred).map ofValue
  | .value none => []

def select (J : Js) (value : Units) (n : OcNode J.Num) : List (Label × OcNode J.Num) :=
  if isPredicateSeg value then
    match parsePredicateSeg value with
    | none => []
    | some pred => n.holding J pred
  else if value = wildcardSingle then n.parts J
  else if isPositionalSeg value then (n.lastPart J).toList
  else (n.named J value).toList

def globAlt (J : Js) (value : Units) : Alt (OcNode J.Num) Label :=
  if value = wildcardRecursive then .deep else .step (select J value)

def globSub (J : Js) (sub : SlotSub) : Sub Slot (OcNode J.Num) Label :=
  ⟨sub.slot, (alternatives sub.value).map (globAlt J)⟩

def glob (J : Js) (subs : List SlotSub) : List (Sub Slot (OcNode J.Num) Label) :=
  subs.map (globSub J)

/-- What JavaScript makes of the numeral of an index, and of a text in quotes. -/
structure Js.Numerals (J : Js) : Prop where
  index : ∀ i < 2 ^ 32, J.index? (J.number (utf16 (toString i))) = some i
  quoted : ∀ s, J.index? (J.number (quote :: (s ++ [quote]))) = none

/-- A text is printed for the label, and it stands for a key with or without quotes, or for an
index. -/
def Label.Readable (l : Label) : Prop :=
  ∃ t, l.text = .ok t ∧ match l.edge with
    | .key key => unquoteSeg t = key
    | .index _ => isQuotedSeg t = false

theorem unquoteSeg_of_not (t : Units) (h : isQuotedSeg t = false) : unquoteSeg t = t := by
  rw [unquoteSeg, h]
  rfl

/-- What `dispatchSeg` goes to for a sub-segment that takes one step. -/
def opsSelect {T C : Type} (ops : WalkOps T C) (node : T) (value : Units) : List (Label × C) :=
  if isPredicateSeg value then
    match parsePredicateSeg value with
    | none => []
    | some pred => ops.predicate node pred
  else if value = wildcardSingle then ops.enumerate node
  else if isPositionalSeg value then (ops.positional node value).toList
  else (ops.lookup node value).toList

variable {slot : Slot} {rest : List SlotSub} {value : Units}

theorem dispatchAlt_step {T C : Type} {ops : WalkOps T C} {node : T} (h : value ≠ wildcardRecursive) :
    dispatchAlt ops node slot rest value =
      (opsSelect ops node value).map fun m => .down slot m.1 m.2 rest := by
  unfold dispatchAlt opsSelect
  rw [if_neg h]
  split_ifs
  · cases parsePredicateSeg value <;> rfl
  · rfl
  · rfl
  · rfl

theorem dispatchAlt_deep {T C : Type} {ops : WalkOps T C} {node : T} :
    dispatchAlt ops node slot rest wildcardRecursive =
      (if rest = [] then [.emit] else []) ++ (ops.enumerate node).flatMap fun m =>
        [.down slot m.1 m.2 rest, .down slot m.1 m.2 (⟨slot, wildcardRecursive⟩ :: rest)] := by
  have hpredicate : isPredicateSeg wildcardRecursive = false := by decide +kernel
  unfold dispatchAlt
  rw [hpredicate, if_neg Bool.false_ne_true, if_pos rfl]

theorem alternatives_single (h : isUnionSeg value = false) :
    alternatives value = [value] := by
  have hparse : parseUnionSeg value = none := by simp [parseUnionSeg, h]
  unfold alternatives
  split
  next => simp [h]
  next alts halts => simp [hparse] at halts

theorem globSub_deep (slot : Slot) : globSub J ⟨slot, wildcardRecursive⟩ = ⟨slot, [.deep]⟩ := by
  have hunion : isUnionSeg wildcardRecursive = false := by decide +kernel
  rw [globSub, alternatives_single hunion]
  simp [globAlt]

section Turns

variable {T C : Type} {ops : WalkOps T C} {t : T} {n : OcNode J.Num} {f : C → OcNode J.Num}

noncomputable def turnFinds (J : Js) {C : Type} (f : C → OcNode J.Num) :
    Turn C → List (List (Slot × Label))
  | .emit => [[]]
  | .down slot label child rest =>
    ((forest J).find (glob J rest) (f child)).map ((slot, label) :: ·)

noncomputable def turnVisits (J : Js) {C : Type} (f : C → OcNode J.Num) :
    Turn C → List (List (Slot × Label))
  | .emit => []
  | .down slot label child rest =>
    [(slot, label)] :: ((forest J).visited (glob J rest) (f child)).map ((slot, label) :: ·)

/-- The operations give the parts of a node, and those that a sub-segment stands for. -/
structure Agrees (J : Js) (ops : WalkOps T C) (t : T) (f : C → OcNode J.Num) (n : OcNode J.Num) :
    Prop where
  parts : (ops.enumerate t).map (onChild f) = n.parts J
  selected : ∀ value, value ≠ wildcardRecursive →
    (∀ m ∈ select J value n, m.1.Readable) →
      (opsSelect ops t value).map (onChild f) = select J value n

theorem selected_readable {cur : SlotSub} {rest : List SlotSub}
    (hread : ∀ way ∈ (forest J).visited (glob J (cur :: rest)) n, ∀ l ∈ way, l.2.Readable)
    {value : Units} (hvalue : value ∈ alternatives cur.value) (hne : value ≠ wildcardRecursive) :
    ∀ m ∈ select J value n, m.1.Readable := by
  intro m hm
  refine hread [(cur.slot, m.1)] ?_ _ (List.mem_singleton_self _)
  refine List.mem_flatMap.2 ⟨_, List.mem_map_of_mem hvalue, ?_⟩
  rw [globAlt, if_neg hne]
  exact List.mem_flatMap.2 ⟨m, hm, List.mem_cons_self⟩

theorem visited_turns (h : Agrees J ops t f n) {subs : List SlotSub}
    (hread : ∀ way ∈ (forest J).visited (glob J subs) n, ∀ l ∈ way, l.2.Readable) :
    ∀ turn ∈ dispatchSeg ops t subs, ∀ way ∈ turnVisits J f turn,
      way ∈ (forest J).visited (glob J subs) n := by
  cases subs with
  | nil =>
    intro turn hturn way hway
    obtain rfl := List.mem_singleton.1 hturn
    cases hway
  | cons cur rest =>
    intro turn hturn way hway
    obtain ⟨value, hvalue, hturn⟩ := List.mem_flatMap.1 hturn
    refine List.mem_flatMap.2 ⟨_, List.mem_map_of_mem hvalue, ?_⟩
    by_cases hdeep : value = wildcardRecursive
    · subst hdeep
      rw [dispatchAlt_deep, List.mem_append, List.mem_flatMap] at hturn
      rw [globAlt, if_pos rfl]
      show way ∈ (forest J).visitedAlt cur.slot ((forest J).visited (glob J rest)) n .deep
      rw [← visited_single, visited_deep]
      rcases hturn with hturn | ⟨m, hm, hturn⟩
      · split_ifs at hturn
        · obtain rfl := List.mem_singleton.1 hturn
          cases hway
        · cases hturn
      · have hpart : onChild f m ∈ (forest J).parts n := by
          show onChild f m ∈ n.parts J
          rw [← h.parts]
          exact List.mem_map_of_mem hm
        refine List.mem_flatMap.2 ⟨onChild f m, hpart, ?_⟩
        -- the child is visited with the wildcard consumed, and with the wildcard kept
        rcases List.mem_pair.1 hturn with rfl | rfl
        · rcases List.mem_cons.1 hway with rfl | hway
          · exact List.mem_cons_self
          · obtain ⟨behind, hbehind, rfl⟩ := List.mem_map.1 hway
            exact List.mem_cons_of_mem _ (List.mem_map_of_mem (List.mem_append_left _ hbehind))
        · rcases List.mem_cons.1 hway with rfl | hway
          · exact List.mem_cons_self
          · obtain ⟨behind, hbehind, rfl⟩ := List.mem_map.1 hway
            rw [glob, List.map_cons, globSub_deep] at hbehind
            exact List.mem_cons_of_mem _ (List.mem_map_of_mem (List.mem_append_right _ hbehind))
    · have hselected := h.selected value hdeep (selected_readable hread hvalue hdeep)
      rw [dispatchAlt_step hdeep] at hturn
      obtain ⟨m, hm, rfl⟩ := List.mem_map.1 hturn
      rw [globAlt, if_neg hdeep]
      refine List.mem_flatMap.2 ⟨onChild f m, ?_, hway⟩
      rw [← hselected]
      exact List.mem_map_of_mem hm

theorem find_turns (h : Agrees J ops t f n) {subs : List SlotSub}
    (hread : ∀ way ∈ (forest J).visited (glob J subs) n, ∀ l ∈ way, l.2.Readable) :
    (forest J).find (glob J subs) n = (dispatchSeg ops t subs).flatMap (turnFinds J f) := by
  cases subs with
  | nil => rfl
  | cons cur rest =>
    show ((alternatives cur.value).map (globAlt J)).flatMap _ =
      ((alternatives cur.value).flatMap _).flatMap _
    rw [List.flatMap_map, List.flatMap_assoc]
    refine List.flatMap_congr fun value hvalue => ?_
    by_cases hdeep : value = wildcardRecursive
    · subst hdeep
      have hempty : (glob J rest).isEmpty = decide (rest = []) := by cases rest <;> rfl
      rw [globAlt, if_pos rfl, dispatchAlt_deep, List.flatMap_append]
      show (forest J).findAlt cur.slot (glob J rest).isEmpty ((forest J).find (glob J rest)) n .deep = _
      rw [← find_single, find_deep, hempty]
      congr 1
      · by_cases hrest : rest = []
        · subst hrest
          rfl
        · simp [hrest]
      · show (n.parts J).flatMap _ = _
        rw [← h.parts, List.flatMap_map, List.flatMap_assoc]
        refine List.flatMap_congr fun m _ => ?_
        have hkept : glob J (⟨cur.slot, wildcardRecursive⟩ :: rest) =
            ⟨cur.slot, [.deep]⟩ :: glob J rest := by
          rw [glob, List.map_cons, globSub_deep]
          rfl
        simp [turnFinds, onChild, hkept]
    · have hselected := h.selected value hdeep (selected_readable hread hvalue hdeep)
      rw [globAlt, if_neg hdeep, dispatchAlt_step hdeep, List.flatMap_map]
      show (select J value n).flatMap _ = _
      rw [← hselected, List.flatMap_map]
      rfl

end Turns

theorem find_distinct {A B : Type} [DecidableEq B] {key : A → B} {xs : List A}
    (hdistinct : (xs.map key).Nodup) {x : A} (hx : x ∈ xs) :
    (xs.find? fun y => key y = key x) = some x := by
  induction xs with
  | nil => cases hx
  | cons y xs ih =>
    rw [List.map_cons, List.nodup_cons] at hdistinct
    rcases List.mem_cons.1 hx with rfl | hx
    · simp
    · have hne : key y ≠ key x := fun heq => hdistinct.1 (heq ▸ List.mem_map_of_mem hx)
      rw [List.find?_cons_of_neg (by simpa using hne)]
      exact ih hdistinct.2 hx

theorem itemIndex?_of {key : Units} {size idx : ℕ} (hidx : J.index? (J.number key) = some idx)
    (hlt : idx < size) : itemIndex? J key size = some idx := by
  rw [itemIndex?, hidx]
  simp [Option.filter, hlt]

variable {v : JsoncValue J.Num}

theorem positional_value (hJ : J.Numerals) (hv : v.Distinct)
    (hread : ∀ m ∈ (OcNode.value (some v)).lastPart J, m.1.Readable) :
    ((positionalForJsonc v posLast).bind (jsoncLookup J v)).map ofValue =
      (OcNode.value (some v)).lastPart J := by
  cases hv with
  | @object entries line hkeys hvalues =>
    rcases List.eq_nil_or_concat' entries with rfl | ⟨front, e, rfl⟩
    · rfl
    · have hlast : (front ++ [e]).getLast? = some e := List.getLast?_concat
      obtain ⟨t, ht, hkey⟩ := hread (ofValue (⟨.ok e.key, .key e.key⟩, e.value)) (by
        simp [OcNode.lastPart])
      obtain rfl := Except.ok.inj ht
      have hpositional : positionalForJsonc (N := J.Num) (.object (front ++ [e]) line) posLast =
          some e.key := by
        simp [positionalForJsonc, resolvePositionalSeg]
      have hlookup : (if isQuotedSeg e.key then unquoteSeg e.key else e.key) = e.key := by
        split_ifs
        · exact hkey
        · rfl
      have hfind := find_distinct hkeys (List.mem_append_right front (List.mem_singleton_self e))
      rw [hpositional, Option.bind_some, jsoncLookup]
      simp only [hlookup, hfind, OcNode.lastPart, hlast, Option.map_some]
  | @array items line hlength hitems =>
    rcases List.eq_nil_or_concat' items with rfl | ⟨front, item, rfl⟩
    · rfl
    · have hpositional : positionalForJsonc (N := J.Num) (.array (front ++ [item]) line) posLast =
          some (utf16 (toString front.length)) := by
        simp [positionalForJsonc, resolvePositionalSeg]
      have hlt : front.length < (front ++ [item]).length := by simp
      have hindex := itemIndex?_of (hJ.index front.length (hlt.trans hlength)) hlt
      have hitem : (front ++ [item])[front.length]? = some item := List.getElem?_concat_length
      rw [hpositional, Option.bind_some, jsoncLookup, hindex]
      simp [OcNode.lastPart]
  | string => rfl
  | number => rfl
  | boolean => rfl
  | null => rfl

theorem lookup_value (hJ : J.Numerals) (v : JsoncValue J.Num)
    (hread : ∀ m ∈ (OcNode.value (some v)).named J value, m.1.Readable) :
    (jsoncLookup J v value).map ofValue = (OcNode.value (some v)).named J value := by
  cases v with
  | object entries line =>
    have hlookup : (if isQuotedSeg value then unquoteSeg value else value) = unquoteSeg value := by
      by_cases hquoted : isQuotedSeg value = true
      · rw [if_pos hquoted]
      · rw [if_neg hquoted, unquoteSeg, if_neg hquoted]
    rw [jsoncLookup]
    simp only [hlookup, OcNode.named, Option.map_map]
    rfl
  | array items line =>
    by_cases hquoted : isQuotedSeg value = true
    · -- a text in quotes is no index for the search, so it may not be one for the reader
      obtain ⟨body, rfl⟩ := isQuotedSeg_iff.1 hquoted
      have hnone : itemIndex? J (quote :: (body ++ [quote])) items.length = none := by
        rw [itemIndex?, hJ.quoted]
        rfl
      have hnamed : (OcNode.value (some (.array items line))).named J (quote :: (body ++ [quote])) =
          none := by
        by_contra hne
        obtain ⟨m, hm⟩ := Option.ne_none_iff_exists'.1 hne
        obtain ⟨t, ht, hedge⟩ := hread m hm
        obtain ⟨idx, hidx, hm⟩ := Option.bind_eq_some_iff.1 hm
        obtain ⟨item, hitem, rfl⟩ := Option.map_eq_some_iff.1 hm
        obtain rfl := Except.ok.inj ht
        exact absurd hquoted (by simpa [onChild] using hedge)
      rw [hnamed, jsoncLookup, hnone]
      rfl
    · have hunquoted : unquoteSeg value = value := by rw [unquoteSeg, if_neg hquoted]
      simp only [jsoncLookup, OcNode.named, hunquoted]
      cases itemIndex? J value items.length with
      | none => rfl
      | some idx =>
        rw [Option.bind_some, Option.bind_some, Option.map_map]
        rfl
  | string v line => rfl
  | number v line => rfl
  | boolean v line => rfl
  | null line => rfl

theorem agrees_value (hJ : J.Numerals) (hv : v.Distinct) :
    Agrees J (jsoncOps J) v (fun v => .value (some v)) (.value (some v)) := by
  refine ⟨rfl, fun value hne hread => ?_⟩
  unfold opsSelect
  unfold select at hread ⊢
  by_cases hpredicate : isPredicateSeg value = true
  · rw [if_pos hpredicate, if_pos hpredicate]
    cases parsePredicateSeg value <;> rfl
  rw [if_neg hpredicate] at hread
  rw [if_neg hpredicate, if_neg hpredicate]
  by_cases hsingle : value = wildcardSingle
  · rw [if_pos hsingle, if_pos hsingle]
    rfl
  rw [if_neg hsingle] at hread
  rw [if_neg hsingle, if_neg hsingle]
  by_cases hpositional : isPositionalSeg value = true
  · rw [if_pos hpositional] at hread
    rw [if_pos hpositional, if_pos hpositional]
    obtain rfl : value = posLast := of_decide_eq_true hpositional
    have hlast := positional_value hJ hv fun m hm => hread m (Option.mem_toList.2 hm)
    rw [← hlast]
    exact Option.toList_map.symm
  · rw [if_neg hpositional] at hread
    rw [if_neg hpositional, if_neg hpositional]
    have hnamed := lookup_value hJ v fun m hm => hread m (Option.mem_toList.2 hm)
    rw [← hnamed]
    exact Option.toList_map.symm

theorem agrees_file (ast : JsonlAst J.Num) :
    Agrees J (jsonlOps J) ast (fun l => .value (lineValue? l)) (.file ast) := by
  refine ⟨rfl, fun value hne _ => ?_⟩
  unfold opsSelect select
  split_ifs with hpredicate hsingle hpositional
  · cases parsePredicateSeg value <;> rfl
  · rfl
  · obtain rfl : value = posLast := of_decide_eq_true hpositional
    have hlast : (jsonlLookup ast posLast).map ofLine = (OcNode.file ast).lastPart J := by
      have hpick : pickLine ast posLast = ast.lines.reverse.find? isValueLine := if_pos rfl
      rw [jsonlLookup, hpick, OcNode.lastPart]
      cases hfind : ast.lines.reverse.find? isValueLine with
      | none => rfl
      | some l =>
        have hvalue := List.find?_some hfind
        simp only [Option.map_some, hvalue, if_true]
    rw [← hlast]
    exact Option.toList_map.symm
  · exact Option.toList_map.symm

def printed (l : Slot × Label) : SlotSub := ⟨l.1, l.2.text.toOption.getD []⟩

theorem distinct_part (hv : v.Distinct) :
    ∀ m ∈ jsoncParts J v, m.2.Distinct := by
  intro m hm
  cases hv with
  | object hkeys hvalues =>
    obtain ⟨e, he, rfl⟩ := List.mem_map.1 hm
    exact hvalues e he
  | array hlength hitems =>
    obtain ⟨item, hitem, rfl⟩ := List.mem_map.1 hm
    exact hitems item.1 (List.fst_mem_of_mem_zipIdx hitem)
  | string => cases hm
  | number => cases hm
  | boolean => cases hm
  | null => cases hm

theorem distinct_lookup (hv : v.Distinct) {key : Units}
    {m : Label × JsoncValue J.Num} (hm : jsoncLookup J v key = some m) : m.2.Distinct := by
  cases hv with
  | object hkeys hvalues =>
    obtain ⟨e, he, rfl⟩ := Option.map_eq_some_iff.1 hm
    exact hvalues e (List.mem_of_find?_eq_some he)
  | array hlength hitems =>
    obtain ⟨idx, hidx, hm⟩ := Option.bind_eq_some_iff.1 hm
    obtain ⟨item, hitem, rfl⟩ := Option.map_eq_some_iff.1 hm
    exact hitems item (List.mem_of_getElem? hitem)
  | string => cases hm
  | number => cases hm
  | boolean => cases hm
  | null => cases hm

variable {subs : List SlotSub} {label : Label}

theorem distinct_turn {child : JsoncValue J.Num} (hv : v.Distinct)
    (h : .down slot label child rest ∈ dispatchSeg (jsoncOps J) v subs) : child.Distinct := by
  refine child_of_turn (P := JsoncValue.Distinct) (distinct_part hv)
    (fun key m hm => distinct_lookup hv hm) (fun seg m hm => ?_) (fun pred m hm => ?_) h
  · obtain ⟨key, -, hkey⟩ := Option.bind_eq_some_iff.1 hm
    exact distinct_lookup hv hkey
  · exact distinct_part hv m (List.mem_of_mem_filter hm)

/-- The search goes on such ways from where it is, and prints a text for each label. -/
structure Walkable (J : Js) (subs : List SlotSub) (n : OcNode J.Num) (depth : ℕ) : Prop where
  readable : ∀ way ∈ (forest J).visited (glob J subs) n, ∀ l ∈ way, l.2.Readable
  depth_le : depth ≤ maxTraversalDepth
  deep_le : ∀ way ∈ (forest J).visited (glob J subs) n, depth + way.length ≤ maxTraversalDepth

variable {n : OcNode J.Num}

theorem Walkable.down {T C : Type} {ops : WalkOps T C} {t : T}
    {f : C → OcNode J.Num} (hagrees : Agrees J ops t f n) {depth : ℕ}
    (h : Walkable J subs n depth) {child : C}
    (hturn : .down slot label child rest ∈ dispatchSeg ops t subs) :
    label.Readable ∧ Walkable J rest (f child) (depth + 1) := by
  have hvisited := visited_turns hagrees h.readable _ hturn
  have hlabel := hvisited [(slot, label)] List.mem_cons_self
  have hbehind : ∀ way ∈ (forest J).visited (glob J rest) (f child),
      (slot, label) :: way ∈ (forest J).visited (glob J subs) n := fun way hway =>
    hvisited _ (List.mem_cons_of_mem _ (List.mem_map_of_mem hway))
  refine ⟨h.readable _ hlabel _ (List.mem_singleton_self _), ?_, ?_, ?_⟩
  · intro way hway l hl
    exact h.readable _ (hbehind way hway) l (List.mem_cons_of_mem _ hl)
  · have hstep := h.deep_le _ hlabel
    simpa using hstep
  · intro way hway
    have hstep := h.deep_le _ (hbehind way hway)
    rw [List.length_cons] at hstep
    omega

theorem checkDepth_ok {walked : List SlotSub} (h : walked.length ≤ maxTraversalDepth) :
    checkDepth walked = .ok () := failIf_eq_ok.2 (decide_eq_false (Nat.not_lt.2 h))

theorem text_of_readable (slot : Slot) (h : label.Readable) :
    label.text = .ok (printed (slot, label)).value := by
  obtain ⟨t, ht, -⟩ := h
  rw [printed, ht]
  rfl

/-- **The walk finds what the search over the tree finds.** -/
theorem walkJsonc_eq (hJ : J.Numerals) (hv : v.Distinct) (walked : List SlotSub)
    (h : Walkable J subs (.value (some v)) walked.length) :
    walkJsonc J v subs walked = .ok (((forest J).find (glob J subs) (.value (some v))).map
      fun way => walked ++ way.map printed) := by
  induction hsize : sizeOf v using Nat.strongRecOn generalizing v subs walked with
  | ind size ih =>
    subst hsize
    have hagrees := agrees_value hJ hv
    have hthen : ∀ x : Except Thrown (List (List SlotSub)),
        ((Except.ok () : Except Thrown Unit) >>= fun _ => x) = x := fun _ => rfl
    unfold walkJsonc
    rw [checkDepth_ok h.depth_le, find_turns hagrees h.readable, List.map_flatMap, hthen]
    refine (congrArg (fun found : Except Thrown (List (List (List SlotSub))) =>
      found >>= fun found => pure found.flatten)
        (Effectful.mapM_ok (f := fun turn => (turnFinds J (fun v => .value (some v)) turn.1).map
          fun way => walked ++ way.map printed) ?_)).trans (congrArg Except.ok ?_)
    · rintro ⟨turn, hturn⟩ -
      cases turn with
      | emit => simp [turnFinds]
      | down slot label child rest =>
        obtain ⟨hreadable, hdown⟩ := h.down hagrees hturn
        have hlength : (walked ++ [printed (slot, label)]).length = walked.length + 1 := by simp
        have hchild := ih _ (sizeOf_turn hturn) (distinct_turn hv hturn) _ (hlength ▸ hdown) rfl
        have htext := text_of_readable slot hreadable
        simp only [htext, bind, Except.bind]
        refine hchild.trans ?_
        simp [turnFinds, Function.comp_def]
    · rw [← List.flatMap_def]
      exact (List.flatMap_subtype fun turn hturn => rfl).trans (by rw [List.unattach_attach])

variable {ast : JsonlAst J.Num}

theorem mem_of_pickLine {addr : Units} {l : JsonlLine J.Num}
    (h : pickLine ast addr = some l) : l ∈ ast.lines := by
  unfold pickLine at h
  split_ifs at h
  · exact List.mem_reverse.1 (List.mem_of_find?_eq_some h)
  · split at h
    next => cases h
    next target htarget => exact List.mem_of_find?_eq_some h

theorem mem_jsonlParts :
    ∀ m ∈ jsonlParts ast, m.2 ∈ ast.lines ∧ isValueLine m.2 = true := by
  intro m hm
  obtain ⟨l, hl, rfl⟩ := List.mem_map.1 hm
  exact List.mem_filter.1 hl

variable {line : JsonlLine J.Num}

theorem mem_line_turn
    (h : .down slot label line rest ∈ dispatchSeg (jsonlOps J) ast subs) : line ∈ ast.lines := by
  have hlookup : ∀ key m, jsonlLookup ast key = some m → m.2 ∈ ast.lines := by
    intro key m hm
    obtain ⟨l, hl, rfl⟩ := Option.map_eq_some_iff.1 hm
    exact mem_of_pickLine hl
  exact child_of_turn (P := fun l => l ∈ ast.lines) (fun m hm => (mem_jsonlParts m hm).1) hlookup
    hlookup (fun pred m hm => (mem_jsonlParts m (List.mem_of_mem_filter hm)).1) h

/-- A line that holds no value is not followed by a wildcard for any number of steps alone, which
the search does not try there. -/
def EndsInValue (J : Js) (ast : JsonlAst J.Num) (subs : List SlotSub) : Prop :=
  ∀ first last, subs = [first, last] → wildcardRecursive ∈ alternatives last.value →
    ∀ value ∈ alternatives first.value, value ≠ wildcardRecursive →
      ∀ m ∈ select J value (.file ast), m.2 ≠ .value none

theorem find_blank (hne : rest ≠ [])
    (hlast : ∀ last, rest = [last] → wildcardRecursive ∉ alternatives last.value) :
    (forest J).find (glob J rest) (.value none) = [] := by
  cases rest with
  | nil => exact absurd rfl hne
  | cons cur rest =>
    have hbelow : (forest J).below (.value none) = [] := by
      rw [below_eq]
      rfl
    refine List.flatMap_eq_nil_iff.2 fun alt halt => ?_
    obtain ⟨value, hvalue, rfl⟩ := List.mem_map.1 halt
    by_cases hdeep : value = wildcardRecursive
    · subst hdeep
      cases rest with
      | nil => exact absurd hvalue (hlast cur rfl)
      | cons next rest =>
        rw [globAlt, if_pos rfl, Forest.findAlt, hbelow]
        rfl
    · have hselect : select J value (.value none) = [] := by
        unfold select
        split_ifs
        · cases parsePredicateSeg value <;> rfl
        · rfl
        · rfl
        · rfl
      rw [globAlt, if_neg hdeep, Forest.findAlt, hselect]
      rfl

theorem not_blank_turn (h : EndsInValue J ast subs)
    (hwalk : Walkable J subs (.file ast) 0)
    (hturn : .down slot label line rest ∈ dispatchSeg (jsonlOps J) ast subs)
    (hblank : lineValue? line = none) :
    ∀ last, rest = [last] → wildcardRecursive ∉ alternatives last.value := by
  rintro last rfl hmem
  cases subs with
  | nil => simp [dispatchSeg] at hturn
  | cons cur subs =>
    obtain ⟨value, hvalue, hturn⟩ := List.mem_flatMap.1 hturn
    by_cases hdeep : value = wildcardRecursive
    · -- the wildcard goes to lines with values
      subst hdeep
      have hline : isValueLine line = true := by
        rw [dispatchAlt_deep, List.mem_append, List.mem_flatMap] at hturn
        rcases hturn with hturn | ⟨m, hm, hturn⟩
        · split_ifs at hturn <;> simp at hturn
        · have hchild : line = m.2 := by
            rcases List.mem_pair.1 hturn with heq | heq <;> cases heq <;> rfl
          exact hchild ▸ (mem_jsonlParts m hm).2
      cases line with
      | value n v raw => cases hblank
      | blank n raw => cases hline
      | malformed n raw => cases hline
    · rw [dispatchAlt_step hdeep] at hturn
      obtain ⟨m, hm, heq⟩ := List.mem_map.1 hturn
      cases heq
      have hselected := (agrees_file ast).selected value hdeep
        (selected_readable hwalk.readable hvalue hdeep)
      have hselect : ofLine m ∈ select J value (.file ast) := by
        rw [← hselected]
        exact List.mem_map_of_mem hm
      exact h cur last rfl hmem value hvalue hdeep _ hselect (congrArg OcNode.value hblank)

theorem walkLine_eq (hJ : J.Numerals)
    (hline : ∀ v, lineValue? line = some v → v.Distinct)
    (walked : List SlotSub) (h : Walkable J rest (.value (lineValue? line)) walked.length)
    (hblank : lineValue? line = none → ∀ last, rest = [last] →
      wildcardRecursive ∉ alternatives last.value) :
    walkLine J line rest walked =
      .ok (((forest J).find (glob J rest) (.value (lineValue? line))).map
        fun way => walked ++ way.map printed) := by
  unfold walkLine
  by_cases hempty : rest = []
  · subst hempty
    simp [glob, Forest.find]
  rw [if_neg hempty]
  cases line with
  | value n v raw => exact walkJsonc_eq hJ (hline v rfl) walked h
  | blank n raw =>
    show _ = Except.ok (List.map _ ((forest J).find (glob J rest) (.value none)))
    rw [find_blank hempty (hblank rfl)]
    rfl
  | malformed n raw =>
    show _ = Except.ok (List.map _ ((forest J).find (glob J rest) (.value none)))
    rw [find_blank hempty (hblank rfl)]
    rfl

theorem walkJsonl_eq (hJ : J.Numerals) (hast : (OcNode.file ast).Distinct) (h : Walkable J subs (.file ast) 0) (hends : EndsInValue J ast subs) :
    walkJsonl J ast subs = .ok (((forest J).find (glob J subs) (.file ast)).map
      fun way => way.map printed) := by
  have hagrees := agrees_file ast
  unfold walkJsonl
  rw [find_turns hagrees h.readable, List.map_flatMap]
  refine (congrArg (fun found : Except Thrown (List (List (List SlotSub))) =>
    found >>= fun found => pure found.flatten)
      (Effectful.mapM_ok (f := fun turn => (turnFinds J (fun l => .value (lineValue? l)) turn).map
        fun way => way.map printed) ?_)).trans (congrArg Except.ok ?_)
  · intro turn hturn
    cases turn with
    | emit => rfl
    | down slot label line rest =>
      obtain ⟨hreadable, hdown⟩ := h.down hagrees hturn
      have htext := text_of_readable slot hreadable
      have hwalk := walkLine_eq hJ (hast.2 line (mem_line_turn hturn))
        [printed (slot, label)] hdown (not_blank_turn hends h hturn)
      simp only [htext, bind, Except.bind]
      refine hwalk.trans ?_
      simp [turnFinds, Function.comp_def]
  · exact List.flatMap_def.symm

theorem distinct_value (hv : v.Distinct) :
    (OcNode.value (some v)).Distinct := fun _ h => Option.some.inj h ▸ hv

theorem proper_parts : Proper Label.edge OcNode.Distinct (OcNode.parts J) := by
  constructor
  · intro n hn
    rcases n with ast | _ | v
    · show List.Pairwise _ ((jsonlParts ast).map ofLine)
      rw [List.pairwise_map, jsonlParts, List.pairwise_map]
      have hlines := List.pairwise_map.1 hn.1
      refine (hlines.filter _).imp fun hne heq => hne ?_
      exact EditSegment.index.inj heq
    · exact List.Pairwise.nil
    · show List.Pairwise _ ((jsoncParts J v).map ofValue)
      rw [List.pairwise_map]
      cases hn v rfl with
      | object hkeys hvalues =>
        rw [jsoncParts, List.pairwise_map]
        exact (List.pairwise_map.1 hkeys).imp fun hne heq => hne (EditSegment.key.inj heq)
      | @array items line hlength hitems =>
        rw [jsoncParts, List.pairwise_map]
        have hindices : (items.zipIdx.map Prod.snd).Nodup := by
          rw [List.zipIdx_map_snd]
          exact List.nodup_range'
        exact (List.pairwise_map.1 hindices).imp fun hne heq => hne (EditSegment.index.inj heq)
      | string => exact List.Pairwise.nil
      | number => exact List.Pairwise.nil
      | boolean => exact List.Pairwise.nil
      | null => exact List.Pairwise.nil
  · intro n hn p hp
    rcases n with ast | _ | v
    · obtain ⟨m, hm, rfl⟩ := List.mem_map.1 hp
      exact hn.2 m.2 (mem_jsonlParts m hm).1
    · cases hp
    · obtain ⟨m, hm, rfl⟩ := List.mem_map.1 hp
      exact distinct_value (distinct_part (hn v rfl) m hm)

theorem holding_sublist (pred : PredicateSpec) (n : OcNode J.Num) :
    (n.holding J pred).Sublist (n.parts J) := by
  rcases n with ast | _ | v
  · exact List.filter_sublist.map ofLine
  · exact List.Sublist.slnil
  · exact List.filter_sublist.map ofValue

variable {p : Label × OcNode J.Num}

/-- A sub-segment that takes one step goes to some of the parts, to the last one or to the one
that it names. -/
theorem mem_select
    (hp : p ∈ select J value n) :
    p ∈ n.parts J ∨ n.lastPart J = some p ∨ n.named J value = some p := by
  unfold select at hp
  split_ifs at hp with hpredicate hsingle hpositional
  · split at hp
    next => cases hp
    next pred hpred => exact .inl ((holding_sublist pred n).subset hp)
  · exact .inl hp
  · exact .inr (.inl (Option.mem_toList.1 hp))
  · exact .inr (.inr (Option.mem_toList.1 hp))

theorem distinct_lastPart (hn : n.Distinct)
    (hp : n.lastPart J = some p) : p.2.Distinct := by
  rcases n with ast | _ | v
  · obtain ⟨l, hl, rfl⟩ := Option.map_eq_some_iff.1 hp
    exact hn.2 l (List.mem_reverse.1 (List.mem_of_find?_eq_some hl))
  · cases hp
  · cases hn v rfl with
    | object hkeys hvalues =>
      obtain ⟨e, he, rfl⟩ := Option.map_eq_some_iff.1 hp
      exact distinct_value (hvalues e (List.mem_of_getLast? he))
    | array hlength hitems =>
      obtain ⟨item, hitem, rfl⟩ := Option.map_eq_some_iff.1 hp
      exact distinct_value (hitems item (List.mem_of_getLast? hitem))
    | string => cases hp
    | number => cases hp
    | boolean => cases hp
    | null => cases hp

theorem distinct_named (hn : n.Distinct) (hp : n.named J value = some p) : p.2.Distinct := by
  rcases n with ast | _ | v
  · obtain ⟨m, hm, rfl⟩ := Option.map_eq_some_iff.1 hp
    obtain ⟨l, hl, rfl⟩ := Option.map_eq_some_iff.1 hm
    exact hn.2 l (mem_of_pickLine hl)
  · cases hp
  · cases hn v rfl with
    | object hkeys hvalues =>
      obtain ⟨e, he, rfl⟩ := Option.map_eq_some_iff.1 hp
      exact distinct_value (hvalues e (List.mem_of_find?_eq_some he))
    | array hlength hitems =>
      obtain ⟨idx, hidx, hp⟩ := Option.bind_eq_some_iff.1 hp
      obtain ⟨item, hitem, rfl⟩ := Option.map_eq_some_iff.1 hp
      exact distinct_value (hitems item (List.mem_of_getElem? hitem))
    | string => cases hp
    | number => cases hp
    | boolean => cases hp
    | null => cases hp

theorem proper_select (value : Units) : Proper Label.edge OcNode.Distinct (select J value) := by
  have hsingle : ∀ o : Option (Label × OcNode J.Num),
      o.toList.Pairwise fun p q => p.1.edge ≠ q.1.edge := by
    intro o
    cases o with
    | none => exact List.Pairwise.nil
    | some p => exact List.pairwise_singleton _ p
  constructor
  · intro n hn
    have hparts := proper_parts.distinct n hn
    unfold select
    split_ifs
    · cases parsePredicateSeg value with
      | none => exact List.Pairwise.nil
      | some pred => exact hparts.sublist (holding_sublist pred n)
    · exact hparts
    · exact hsingle _
    · exact hsingle _
  · intro n hn p hp
    rcases mem_select hp with hp | hp | hp
    · exact proper_parts.kept n hn p hp
    · exact distinct_lastPart hn hp
    · exact distinct_named hn hp

theorem proper_glob (subs : List SlotSub) : ∀ sub ∈ glob J subs, ∀ select',
    .step select' ∈ sub.alts → Proper Label.edge OcNode.Distinct select' := by
  intro sub hsub select' hselect
  obtain ⟨s, -, rfl⟩ := List.mem_map.1 hsub
  obtain ⟨value, -, hvalue⟩ := List.mem_map.1 hselect
  unfold globAlt at hvalue
  split_ifs at hvalue
  obtain rfl := Alt.step.inj hvalue
  exact proper_select value

/-- **Where the pattern is exact, the walk comes to the nodes that it means, to each once.** -/
theorem finds_matches (hn : n.Distinct)
    (h : (forest J).Exact Label.edge (glob J subs) n) :
    Finds Label.edge ((forest J).find (glob J subs) n) ((forest J).Matches (glob J subs) n) :=
  find_exact proper_parts (proper_glob subs) hn h

end Nodes

end ClawHarder.OcPaths
