import Mathlib.Data.List.ReduceOption
import ClawHarder.Proof.OcEditSentinel
import ClawHarder.Proof.OcFindPaths

/-!
# What `findOcPaths` reports

* `findsExactly`: **the search returns the places whose key paths match the pattern, each once,
  where no key is misread and no wildcard for any number of steps misses or repeats a match.**
-/

namespace ClawHarder.OcPaths

open Glob

variable {J : Js}

def Slot.rank : Slot → ℕ
  | .section => 0
  | .item => 1
  | .field => 2

def InOrder (subs : List SlotSub) : Prop := subs.Pairwise fun a b => a.slot.rank ≤ b.slot.rank

def slotValues (slot : Slot) (subs : List SlotSub) : List Units :=
  (subs.filter fun s => s.slot = slot).map SlotSub.value

variable {subs : List SlotSub}

theorem slotValues_eq_nil {slot : Slot} (h : ∀ s ∈ subs, s.slot ≠ slot) :
    slotValues slot subs = [] := by
  have hnone : subs.filter (fun s => s.slot = slot) = [] := by
    rw [List.filter_eq_nil_iff]
    intro s hs
    simpa using h s hs
  rw [slotValues, hnone, List.map_nil]

theorem slotValues_append (slot : Slot) (subs subs' : List SlotSub) :
    slotValues slot (subs ++ subs') = slotValues slot subs ++ slotValues slot subs' := by
  rw [slotValues, List.filter_append, List.map_append]
  rfl

theorem slotValues_mk (slot slot' : Slot) (values : List Units) :
    slotValues slot (values.map (SlotSub.mk slot')) = if slot' = slot then values else [] := by
  by_cases heq : slot' = slot
  · simp [slotValues, List.filter_map, heq, Function.comp_def]
  · simp [slotValues, List.filter_map, heq, Function.comp_def]

theorem InOrder.values (h : InOrder subs) :
    slotValues .section subs ++ slotValues .item subs ++ slotValues .field subs =
      subs.map SlotSub.value := by
  induction subs with
  | nil => rfl
  | cons s subs ih =>
    obtain ⟨hfirst, hrest⟩ := List.pairwise_cons.1 h
    have hbehind : ∀ slot : Slot, slot.rank < s.slot.rank → slotValues slot subs = [] := by
      intro slot hslot
      refine slotValues_eq_nil fun s' hs' heq => ?_
      have hle := hfirst s' hs'
      rw [heq] at hle
      omega
    have ih := ih hrest
    rw [List.map_cons, ← ih]
    obtain ⟨slot, value⟩ := s
    cases slot with
    | «section» => simp [slotValues]
    | item =>
      have hsection := hbehind .section Nat.zero_lt_one
      rw [hsection]
      simp only [slotValues, List.map_eq_nil_iff] at hsection
      simp [slotValues, hsection]
    | field =>
      have hsection := hbehind .section Nat.zero_lt_two
      have hitem := hbehind .item (Nat.lt_succ_self 1)
      rw [hsection, hitem]
      simp only [slotValues, List.map_eq_nil_iff] at hsection hitem
      simp [slotValues, hsection, hitem]

structure SplitsTo (path : OcPath) (subs : List SlotSub) : Prop where
  inOrder : InOrder subs
  sectionSubs : slotSubs path.section? = .ok (slotValues .section subs)
  itemSubs : slotSubs path.item? = .ok (slotValues .item subs)
  fieldSubs : slotSubs path.field? = .ok (slotValues .field subs)

theorem splitsTo_pattern {pattern : OcPath}
    (h : patternSubs pattern = .ok subs) : SplitsTo pattern subs := by
  obtain ⟨sectionSubs, hsection, h⟩ := Effectful.bind_ok h
  obtain ⟨itemSubs, hitem, h⟩ := Effectful.bind_ok h
  obtain ⟨fieldSubs, hfield, h⟩ := Effectful.bind_ok h
  obtain rfl := Except.ok.inj h
  have hranks : ∀ (slot : Slot) (values : List Units) (s : SlotSub),
      s ∈ values.map (SlotSub.mk slot) → s.slot = slot := by
    intro slot values s hs
    obtain ⟨value, -, rfl⟩ := List.mem_map.1 hs
    rfl
  have hone : ∀ (slot : Slot) (values : List Units), InOrder (values.map (SlotSub.mk slot)) := by
    intro slot values
    rw [InOrder, List.pairwise_map]
    exact List.pairwise_of_forall fun _ _ => le_rfl
  refine ⟨?_, ?_, ?_, ?_⟩
  · refine List.pairwise_append.2 ⟨List.pairwise_append.2 ⟨hone _ _, hone _ _, ?_⟩, hone _ _, ?_⟩
    · intro a ha b hb
      rw [hranks _ _ a ha, hranks _ _ b hb]
      exact Nat.zero_le _
    · intro a ha b hb
      rw [hranks _ _ b hb]
      rcases a.slot <;> decide
  · simpa [slotValues_append, slotValues_mk] using hsection
  · simpa [slotValues_append, slotValues_mk] using hitem
  · simpa [slotValues_append, slotValues_mk] using hfield

theorem slotSubs_pack {slot : Slot}
    (h : ∀ s ∈ subs, nesting.Piece dot s.value) :
    slotSubs (packSlot slot subs) = .ok (slotValues slot subs) := by
  have hpieces : ∀ value ∈ slotValues slot subs, nesting.Piece dot value := by
    intro value hvalue
    obtain ⟨s, hs, rfl⟩ := List.mem_map.1 hvalue
    exact h s (List.mem_of_mem_filter hs)
  by_cases hempty : slotValues slot subs = []
  · have hnone : packSlot slot subs = none := if_pos hempty
    rw [hnone, hempty]
    rfl
  · have hsome : packSlot slot subs = some ([dot].intercalate (slotValues slot subs)) :=
      if_neg hempty
    rw [hsome]
    exact (splitRespectingBrackets_eq_ok rfl).2 ⟨hempty, rfl, hpieces⟩

theorem splitsTo_repack (pattern : OcPath) (horder : InOrder subs)
    (hpieces : ∀ s ∈ subs, nesting.Piece dot s.value) :
    SplitsTo (repackSlotSubs pattern subs) subs :=
  ⟨horder, slotSubs_pack hpieces, slotSubs_pack hpieces, slotSubs_pack hpieces⟩

section Splits

variable {path : OcPath} {subs : List SlotSub}

theorem SplitsTo.pathSubs (h : SplitsTo path subs) :
    pathSubs path = .ok (subs.map SlotSub.value) := by
  rw [OcPaths.pathSubs, h.sectionSubs, h.itemSubs, h.fieldSubs, ← h.inOrder.values]
  rfl

theorem SplitsTo.isPattern (h : SplitsTo path subs)
    (hplain : ∀ s ∈ subs, isPatternSub s.value = false) : isPattern path = .ok false := by
  have hslot : ∀ slot, (slotValues slot subs).any isPatternSub = false := by
    intro slot
    rw [List.any_eq_false]
    intro value hvalue
    obtain ⟨s, hs, rfl⟩ := List.mem_map.1 hvalue
    simp [hplain s (List.mem_of_mem_filter hs)]
  rw [OcPaths.isPattern, h.sectionSubs, h.itemSubs, h.fieldSubs]
  simp only [bind, Except.bind, hslot]
  rfl

theorem slot_eq_none {slot? : Option Units} (h : slotSubs slot? = .ok []) : slot? = none := by
  cases slot? with
  | none => rfl
  | some text => exact absurd rfl ((splitRespectingBrackets_eq_ok rfl).1 h).1

theorem SplitsTo.no_slots (h : SplitsTo path []) :
    path.section? = none ∧ path.item? = none ∧ path.field? = none :=
  ⟨slot_eq_none h.sectionSubs, slot_eq_none h.itemSubs, slot_eq_none h.fieldSubs⟩

/-- There are no sub-segments, or the first one is alone in the section, as lines are addressed. -/
def LineAlone (subs : List SlotSub) : Prop :=
  subs = [] ∨ ∃ value rest, subs = ⟨.section, value⟩ :: rest ∧ ∀ s ∈ rest, s.slot ≠ .section

theorem SplitsTo.line {value : Units} {rest : List SlotSub}
    (h : SplitsTo path (⟨.section, value⟩ :: rest)) (hrest : ∀ s ∈ rest, s.slot ≠ .section) :
    path.section? = some value ∧
      OcPaths.pathSubs { path with section? := none } = .ok (rest.map SlotSub.value) := by
  have hnone := slotValues_eq_nil hrest
  have hvalues : slotValues .section (⟨.section, value⟩ :: rest) = [value] := by
    simpa [slotValues] using hnone
  have hbehind : ∀ slot, slot ≠ .section →
      slotValues slot (⟨.section, value⟩ :: rest) = slotValues slot rest := by
    intro slot hslot
    simp [slotValues, hslot.symm]
  constructor
  · have hsection := h.sectionSubs
    rw [hvalues] at hsection
    cases hslot : path.section? with
    | none =>
      rw [hslot] at hsection
      cases hsection
    | some text =>
      rw [hslot] at hsection
      obtain ⟨-, htext, -⟩ := (splitRespectingBrackets_eq_ok rfl).1 hsection
      rw [htext, List.intercalate_singleton]
  · have horder := InOrder.values (List.pairwise_cons.1 h.inOrder).2
    rw [hnone, List.nil_append] at horder
    rw [OcPaths.pathSubs, h.itemSubs, h.fieldSubs, hbehind .item (by decide),
      hbehind .field (by decide), ← horder]
    rfl

end Splits

def StructuredAst.node? (ast : StructuredAst J.Num) : Option (OcNode J.Num) :=
  match ast with
  | .jsonc ast => ast.root?.map fun root => .value (some root)
  | .jsonl ast => some (.file ast)

/-- The keys and indices that a path spells, from the top of the file. -/
def address (J : Js) (ast : StructuredAst J.Num) (path : OcPath) : Option (List EditSegment) :=
  match ast with
  | .jsonc ast => do
    let root ← ast.root?
    let texts ← (pathSubs path).toOption
    (OcNode.value (some root)).reach J texts
  | .jsonl ast =>
    match path.section? with
    | none => some []
    | some head => do
      let texts ← (pathSubs { path with section? := none }).toOption
      (OcNode.file ast).reach J (head :: texts)

variable {ast : StructuredAst J.Num} {n : OcNode J.Num}

theorem SplitsTo.address {path : OcPath} (h : SplitsTo path subs) (hlines : ∀ file, ast = .jsonl file → LineAlone subs) (hn : ast.node? = some n) :
    address J ast path = n.reach J (subs.map SlotSub.value) := by
  cases ast with
  | jsonc ast =>
    obtain ⟨root, hroot, rfl⟩ := Option.map_eq_some_iff.1 hn
    rw [OcPaths.address, hroot, h.pathSubs]
    rfl
  | jsonl ast =>
    obtain rfl := Option.some.inj hn
    rw [OcPaths.address]
    rcases hlines ast rfl with rfl | ⟨value, rest, rfl, hrest⟩
    · rw [h.no_slots.1, List.map_nil, reach_nil]
    · obtain ⟨hsection, hsubs⟩ := h.line hrest
      simp only [hsection, hsubs]
      rfl

def JsoncMatch.node? {N : Type} : JsoncMatch N → Option (JsoncValue N)
  | .root => none
  | .value node _ => some node
  | .objectEntry node _ => some node.value

theorem walkSegments_node {v : JsoncValue J.Num}
    (lastEntry : Option (JsoncEntry (JsoncValue J.Num)))
    (hentry : ∀ entry, lastEntry = some entry → entry.value = v) (walked segs : List Units) :
    (walkSegments J v lastEntry walked segs).map JsoncMatch.node? =
      (resolveEditSegments J v segs).map (locate v) := by
  induction segs generalizing v lastEntry walked with
  | nil =>
    cases lastEntry with
    | none => rfl
    | some entry =>
      obtain rfl := hentry entry rfl
      rfl
  | cons seg segs ih =>
    rw [walkSegments, resolveEditSegments]
    by_cases hempty : seg = []
    · rw [if_pos hempty, if_pos hempty]
      rfl
    rw [if_neg hempty, if_neg hempty]
    generalize (if isPositionalSeg seg then (positionalForJsonc v seg).getD seg else seg) = name
    cases v with
    | object entries line =>
      cases hfind : entries.find? fun e => e.key = name with
      | none => simp only [hfind, Option.map_none]
      | some entry =>
        have hstep := ih (v := entry.value) (some entry)
          (fun _ heq => Option.some.inj heq ▸ rfl) (walked ++ [name])
        simp only [hfind, hstep, Option.map_map]
        refine Option.map_congr fun loc _ => ?_
        simp only [Function.comp_apply, locate, hfind]
    | array items line =>
      cases hidx : itemIndex? J name items.length with
      | none => simp only [hidx, Option.bind_none, Option.map_none]
      | some idx =>
        cases hitem : items[idx]? with
        | none => simp only [hidx, hitem, Option.bind_some, Option.map_none]
        | some item =>
          have hstep := ih (v := item) none (fun _ heq => by cases heq)
            (walked ++ [name])
          simp only [hidx, hitem, hstep, Option.bind_some, Option.map_map]
          refine Option.map_congr fun loc _ => ?_
          simp only [Function.comp_apply, locate, hitem]
    | string v line => rfl
    | number v line => rfl
    | boolean v line => rfl
    | null line => rfl

theorem walkSegments_cases (v : JsoncValue J.Num) (segs : List Units) :
    (walkSegments J v none [] segs = none ∧ resolveEditSegments J v segs = none) ∨
      ∃ m node loc, walkSegments J v none [] segs = some m ∧ m.node? = some node ∧
        resolveEditSegments J v segs = some loc ∧ locate v loc = some node := by
  have hnode := walkSegments_node (v := v) none (fun _ heq => by cases heq) [] segs
  cases hresolved : resolveEditSegments J v segs with
  | none =>
    rw [hresolved, Option.map_none, Option.map_eq_none_iff] at hnode
    exact .inl ⟨hnode, rfl⟩
  | some loc =>
    obtain ⟨node, hlocated⟩ := Option.isSome_iff_exists.1 (locate_resolved hresolved)
    rw [hresolved, Option.map_some, hlocated] at hnode
    obtain ⟨m, hm, hmatch⟩ := Option.map_eq_some_iff.1 hnode
    exact .inr ⟨m, node, loc, hm, hmatch, rfl, hlocated⟩

theorem resolved_ne_nil {v : JsoncValue J.Num} {segs : List Units} {loc : List EditSegment}
    (h : resolveEditSegments J v segs = some loc) (hne : segs ≠ []) : loc ≠ [] := by
  cases segs with
  | nil => exact absurd rfl hne
  | cons seg segs =>
    unfold resolveEditSegments at h
    by_cases hempty : seg = []
    · rw [if_pos hempty] at h
      cases h
    rw [if_neg hempty] at h
    cases v with
    | object entries line =>
      simp only at h
      split at h
      next => cases h
      next entry hentry =>
        obtain ⟨rest, -, rfl⟩ := Option.map_eq_some_iff.1 h
        exact List.cons_ne_nil _ _
    | array items line =>
      simp only at h
      split at h
      next => cases h
      next idx hidx =>
        split at h
        next => cases h
        next item hitem =>
          obtain ⟨rest, -, rfl⟩ := Option.map_eq_some_iff.1 h
          exact List.cons_ne_nil _ _
    | string v line => cases h
    | number v line => cases h
    | boolean v line => cases h
    | null line => cases h

def Describes (J : Js) (ast : StructuredAst J.Num) (m : OcMatch) (loc : List EditSegment) : Prop :=
  match ast, loc with
  | _, [] => m = .root 1
  | .jsonc ast, loc => ∃ root node line, ast.root? = some root ∧ locate root loc = some node ∧
      m = jsoncValueToMatch J node line
  | .jsonl ast, seg :: loc => ∃ l ∈ ast.lines, seg = .index l.line ∧
      if loc = [] then m = .node .jsonlLine l.line
      else ∃ v node, lineValue? l = some v ∧ locate v loc = some node ∧
        m = jsoncValueToMatch J node l.line

section Resolved

variable {path : OcPath} {subs : List SlotSub}

theorem resolveJsoncToUniversal_rel (h : SplitsTo path subs) (ast : JsoncAst J.Num) :
    ∃ o, resolveJsoncToUniversal J ast path = .ok o ∧
      Option.Rel (Describes J (.jsonc ast)) o (address J (.jsonc ast) path) := by
  have haddress : address J (.jsonc ast) path = ast.root?.bind fun root =>
      resolveEditSegments J root ((subs.map SlotSub.value).map unquoteSeg) := by
    rw [address, h.pathSubs]
    rfl
  rw [haddress]
  cases hroot : ast.root? with
  | none =>
    have hresolve : resolveJsoncOcPath J ast path = .ok none := by
      rw [resolveJsoncOcPath, hroot]
      rfl
    rw [resolveJsoncToUniversal, hresolve]
    exact ⟨none, rfl, .none⟩
  | some root =>
    cases subs with
    | nil =>
      have hresolve : resolveJsoncOcPath J ast path = .ok (some .root) := by
        rw [resolveJsoncOcPath, hroot, pathSegments, h.pathSubs]
        rfl
      rw [resolveJsoncToUniversal, hresolve, Option.bind_some, List.map_nil, List.map_nil,
        resolveEditSegments]
      exact ⟨some (.root 1), rfl, .some rfl⟩
    | cons s subs =>
      have hresolve : resolveJsoncOcPath J ast path =
          .ok (walkSegments J root none [] (((s :: subs).map SlotSub.value).map unquoteSeg)) := by
        rw [resolveJsoncOcPath, hroot, pathSegments, h.pathSubs]
        rfl
      rw [resolveJsoncToUniversal, hresolve, Option.bind_some]
      rcases walkSegments_cases root (((s :: subs).map SlotSub.value).map unquoteSeg) with
        ⟨hwalk, hresolved⟩ | ⟨m, node, loc, hwalk, hnode, hresolved, hlocated⟩
      · rw [hwalk, hresolved]
        exact ⟨none, rfl, .none⟩
      · obtain ⟨edge, loc, rfl⟩ := List.exists_cons_of_ne_nil (resolved_ne_nil hresolved (by simp))
        rw [hwalk, hresolved]
        refine ⟨_, rfl, .some ⟨root, node, ?_⟩⟩
        cases m with
        | root => cases hnode
        | value node' walked =>
          obtain rfl := Option.some.inj hnode
          exact ⟨_, hroot, hlocated, rfl⟩
        | objectEntry entry walked =>
          obtain rfl := Option.some.inj hnode
          exact ⟨_, hroot, hlocated, rfl⟩

theorem resolveJsonlToUniversal_rel (h : SplitsTo path subs) (ast : JsonlAst J.Num) :
    ∃ o, resolveJsonlToUniversal J ast path = .ok o ∧
      Option.Rel (Describes J (.jsonl ast)) o (address J (.jsonl ast) path) := by
  cases hsection : path.section? with
  | none =>
    have hresolve : resolveJsonlOcPath J ast path = .ok (some .root) := by
      rw [resolveJsonlOcPath, hsection]
      rfl
    rw [resolveJsonlToUniversal, hresolve, address, hsection]
    exact ⟨some (.root 1), rfl, .some rfl⟩
  | some head =>
    obtain ⟨texts, htexts⟩ : ∃ texts, texts = slotValues .item subs ++ slotValues .field subs :=
      ⟨_, rfl⟩
    have hsubs : pathSubs { path with section? := none } = .ok texts := by
      rw [pathSubs, h.itemSubs, h.fieldSubs, htexts]
      rfl
    have haddress : address J (.jsonl ast) path = (pickLine ast head).bind fun line =>
        (reachValue J (lineValue? line) texts).map (.index line.line :: ·) := by
      rw [address, hsection]
      simp only [hsubs]
      rfl
    rw [haddress]
    cases hpick : pickLine ast head with
    | none =>
      have hresolve : resolveJsonlOcPath J ast path = .ok none := by
        rw [resolveJsonlOcPath, hsection]
        simp only [hpick]
        rfl
      rw [resolveJsonlToUniversal, hresolve]
      exact ⟨none, rfl, .none⟩
    | some line =>
      have hline : line ∈ ast.lines := mem_of_pickLine hpick
      rw [Option.bind_some]
      by_cases hwhole : path.item? = none ∧ path.field? = none
      · -- the whole line
        have hnone : texts = [] := by
          have hitem := h.itemSubs
          have hfield := h.fieldSubs
          rw [hwhole.1] at hitem
          rw [hwhole.2] at hfield
          rw [htexts, ← Except.ok.inj hitem, ← Except.ok.inj hfield, List.nil_append]
        have hresolve : resolveJsonlOcPath J ast path = .ok (some (.line line)) := by
          rw [resolveJsonlOcPath, hsection]
          simp only [hpick, if_pos hwhole]
          rfl
        have hreach : reachValue J (lineValue? line) [] = some [] :=
          reach_nil (.value (lineValue? line))
        rw [resolveJsonlToUniversal, hresolve, hnone, hreach]
        exact ⟨_, rfl, .some ⟨line, hline, rfl, rfl⟩⟩
      · have hne : texts ≠ [] := by
          intro hnone
          obtain ⟨hitem, hfield⟩ := List.append_eq_nil_iff.1 (htexts ▸ hnone)
          exact hwhole ⟨slot_eq_none (hitem ▸ h.itemSubs), slot_eq_none (hfield ▸ h.fieldSubs)⟩
        have hunquoted : texts.map unquoteSeg ≠ [] := fun hnil => hne (List.map_eq_nil_iff.1 hnil)
        have hempty : lineValue? line = none →
            ∃ o, resolveJsonlToUniversal J ast path = .ok o ∧ Option.Rel (Describes J (.jsonl ast)) o
              ((reachValue J (lineValue? line) texts).map (.index line.line :: ·)) := by
          intro hvalue
          have hresolve : resolveJsonlOcPath J ast path = .ok none := by
            rw [resolveJsonlOcPath, hsection]
            simp only [hpick, if_neg hwhole]
            cases line with
            | value n v raw => cases hvalue
            | blank n raw => rfl
            | malformed n raw => rfl
          rw [resolveJsonlToUniversal, hresolve, hvalue, reachValue]
          simp only [if_neg hne]
          exact ⟨none, rfl, .none⟩
        cases line with
        | blank n raw => exact hempty rfl
        | malformed n raw => exact hempty rfl
        | value n v raw =>
          have hreach : reachValue J (lineValue? (.value n v raw)) texts =
              resolveEditSegments J v (texts.map unquoteSeg) := rfl
          rw [hreach, resolveJsonlToUniversal, resolveJsonlOcPath, hsection]
          simp only [hpick, if_neg hwhole, pathSegments, hsubs]
          rcases walkSegments_cases v (texts.map unquoteSeg) with
            ⟨hwalk, hresolved⟩ | ⟨m, node, loc, hwalk, hnode, hresolved, hlocated⟩
          · simp only [bind, Except.bind, pure, Except.pure, hwalk, hresolved]
            exact ⟨none, rfl, .none⟩
          · have hloc := resolved_ne_nil hresolved hunquoted
            simp only [bind, Except.bind, pure, Except.pure, hwalk, hresolved]
            cases m with
            | root => cases hnode
            | value node' walked =>
              obtain rfl := Option.some.inj hnode
              refine ⟨_, rfl, .some ⟨_, hline, rfl, ?_⟩⟩
              rw [if_neg hloc]
              exact ⟨v, _, rfl, hlocated, rfl⟩
            | objectEntry entry walked =>
              obtain rfl := Option.some.inj hnode
              refine ⟨_, rfl, .some ⟨_, hline, rfl, ?_⟩⟩
              rw [if_neg hloc]
              exact ⟨v, _, rfl, hlocated, rfl⟩

/-- **A path without a pattern or an insertion resolves where it has an address, to what is there.** -/
theorem resolveOcPath_rel (h : SplitsTo path subs)
    (hplain : ∀ s ∈ subs, isPatternSub s.value = false) (hinsertion : detectInsertion path = none)
    (ast : StructuredAst J.Num) :
    ∃ o, resolveOcPath J ast.toOcAst path = .ok o ∧
      Option.Rel (Describes J ast) o (address J ast path) := by
  have hresolve : resolveOcPath J ast.toOcAst path = match ast with
      | .jsonc ast => resolveJsoncToUniversal J ast path
      | .jsonl ast => resolveJsonlToUniversal J ast path := by
    unfold resolveOcPath
    rw [h.isPattern hplain, hinsertion]
    cases ast <;> rfl
  rw [hresolve]
  cases ast with
  | jsonc ast => exact resolveJsoncToUniversal_rel h ast
  | jsonl ast => exact resolveJsonlToUniversal_rel h ast

end Resolved

def KeyPathMatches (J : Js) (ast : StructuredAst J.Num) (subs : List SlotSub)
    (loc : List EditSegment) : Prop :=
  ∃ n way, ast.node? = some n ∧ (forest J).Matches (glob J subs) n way ∧ edges Label.edge way = loc

/-- The path is concrete, resolves to the match that is reported with it, and addresses the place. -/
structure FoundAt (J : Js) (ast : StructuredAst J.Num) (f : FoundPath) (loc : List EditSegment) :
    Prop where
  concrete : isPattern f.path = .ok false
  resolves : resolveOcPath J ast.toOcAst f.path = .ok (some f.found)
  addressed : address J ast f.path = some loc
  describes : Describes J ast f.found loc

/-- The search returns the places whose key paths match, each once. -/
def FindsExactly (J : Js) (ast : StructuredAst J.Num) (pattern : OcPath) (subs : List SlotSub) :
    Prop :=
  ∃ out locs, findOcPaths J ast pattern = .ok out ∧ List.Forall₂ (FoundAt J ast) out locs ∧
    locs.Nodup ∧ ∀ loc, loc ∈ locs ↔ KeyPathMatches J ast subs loc

/-- The section is one sub-segment, which takes one step, to a line. -/
def NamesLines (subs : List SlotSub) : Prop :=
  subs = [] ∨ ∃ value rest, subs = ⟨.section, value⟩ :: rest ∧
    wildcardRecursive ∉ alternatives value ∧ ∀ s ∈ rest, s.slot ≠ .section

/-- What the walk needs of a node: it neither misses a match nor repeats one, it does not go too
deep or to a key that it cannot print, and what it prints is not read as an insertion. -/
structure WalkedExactly (J : Js) (pattern : OcPath) (subs : List SlotSub) (n : OcNode J.Num) :
    Prop where
  exactly : (forest J).Exact Label.edge (glob J subs) n
  walkable : Walkable J subs n 0
  ends : ∀ file, n = .file file → EndsInValue J file subs
  plain : ∀ way, (forest J).Matches (glob J subs) n way →
    detectInsertion (repackSlotSubs pattern (way.map printed)) = none

structure Findable (J : Js) (ast : StructuredAst J.Num) (pattern : OcPath) (subs : List SlotSub) :
    Prop where
  split : patternSubs pattern = .ok subs
  distinct : ∀ n, ast.node? = some n → n.Distinct
  lines : ∀ file, ast = .jsonl file → NamesLines subs
  printable : ∀ n way, ast.node? = some n → (forest J).Matches (glob J subs) n way →
    ∀ l ∈ way, l.2.Printable
  literal : subs.any needsExpansion = false →
    detectInsertion pattern = none ∧ ∀ s ∈ subs, unquoteSeg s.value ≠ posLast
  walked : subs.any needsExpansion = true → ∀ n, ast.node? = some n → WalkedExactly J pattern subs n

variable {way : List (Slot × Label)}

theorem inOrder_printed (h : InOrder subs) (hway : (forest J).Matches (glob J subs) n way) :
    InOrder (way.map printed) := by
  have htags : (glob J subs).Pairwise fun a b => a.tag.rank ≤ b.tag.rank := by
    rw [glob, List.pairwise_map]
    exact h
  rw [InOrder, List.pairwise_map]
  exact pairwise_of_matches (forest J) (r := fun a b => a.rank ≤ b.rank) (fun _ => le_rfl) htags hway

theorem lineAlone_printed (h : NamesLines subs) (hway : (forest J).Matches (glob J subs) n way) :
    LineAlone (way.map printed) := by
  rcases h with rfl | ⟨value, rest, rfl, hone, hrest⟩
  · obtain rfl : way = [] := hway
    exact .inl rfl
  · obtain ⟨alt, halt, hway⟩ := hway
    obtain ⟨value', hvalue', rfl⟩ := List.mem_map.1 halt
    have hstep : value' ≠ wildcardRecursive := fun heq => hone (heq ▸ hvalue')
    rw [globAlt, if_neg hstep] at hway
    obtain ⟨p, -, way', hway', rfl⟩ := hway
    refine .inr ⟨_, way'.map printed, rfl, ?_⟩
    intro s hs
    obtain ⟨l, hl, rfl⟩ := List.mem_map.1 hs
    obtain ⟨sub, hsub, htag⟩ := tag_of_matches (forest J) hway' l hl
    obtain ⟨s', hs', rfl⟩ := List.mem_map.1 hsub
    have hslot := hrest s' hs'
    rw [printed, ← htag]
    exact hslot

theorem NamesLines.lineAlone (h : NamesLines subs) : LineAlone subs := by
  rcases h with rfl | ⟨value, rest, rfl, -, hrest⟩
  · exact .inl rfl
  · exact .inr ⟨value, rest, rfl, hrest⟩

theorem foundAt_of_rel {path : OcPath}
    (h : SplitsTo path subs) (hplain : ∀ s ∈ subs, isPatternSub s.value = false)
    (hinsertion : detectInsertion path = none) {loc : List EditSegment}
    (haddress : address J ast path = some loc) :
    ∃ f, reportPath J ast path = .ok (some f) ∧ FoundAt J ast f loc := by
  obtain ⟨o, hresolve, hrel⟩ := resolveOcPath_rel h hplain hinsertion ast
  rw [haddress] at hrel
  cases hrel with
  | some hdescribes =>
    refine ⟨⟨path, _⟩, ?_, h.isPattern hplain, hresolve, haddress, hdescribes⟩
    rw [reportPath, hresolve]
    rfl

theorem reportPath_none {path : OcPath}
    (h : SplitsTo path subs) (hplain : ∀ s ∈ subs, isPatternSub s.value = false)
    (hinsertion : detectInsertion path = none) (haddress : address J ast path = none) :
    reportPath J ast path = .ok none := by
  obtain ⟨o, hresolve, hrel⟩ := resolveOcPath_rel h hplain hinsertion ast
  rw [haddress] at hrel
  cases hrel
  rw [reportPath, hresolve]
  rfl

theorem reports {A : Type} {path : A → OcPath}
    {loc : A → List EditSegment} {xs : List A}
    (h : ∀ x ∈ xs, ∃ f, reportPath J ast (path x) = .ok (some f) ∧ FoundAt J ast f (loc x)) :
    ∃ out : List FoundPath, (xs.map path).mapM (reportPath J ast) = .ok (out.map some) ∧
      List.Forall₂ (FoundAt J ast) out (xs.map loc) := by
  induction xs with
  | nil => exact ⟨[], rfl, .nil⟩
  | cons x xs ih =>
    rw [List.forall_mem_cons] at h
    obtain ⟨f, hreport, hfound⟩ := h.1
    obtain ⟨out, hreports, hall⟩ := ih h.2
    refine ⟨f :: out, ?_, .cons hfound hall⟩
    rw [List.map_cons, List.mapM_cons, hreport, hreports]
    rfl

theorem isPatternSub_literal {s : SlotSub} (h : needsExpansion s = false) :
    isPatternSub s.value = false := by
  simp only [needsExpansion, Bool.or_eq_false_iff] at h
  simp only [isPatternSub, Bool.or_eq_false_iff]
  exact ⟨⟨h.1.1.1, h.1.2⟩, h.2⟩

/-- **Without anything to expand, the path is reported where it leads.** -/
theorem findsExactly_literal {pattern : OcPath}
    (h : Findable J ast pattern subs) (hliteral : subs.any needsExpansion = false) :
    FindsExactly J ast pattern subs := by
  have hsplit := splitsTo_pattern h.split
  obtain ⟨hinsertion, hlast⟩ := h.literal hliteral
  have hneeds : ∀ s ∈ subs, needsExpansion s = false := by simpa using hliteral
  have hplain : ∀ s ∈ subs, isPatternSub s.value = false :=
    fun s hs => isPatternSub_literal (hneeds s hs)
  have hmatches : ∀ loc, address J ast pattern = some loc ↔ KeyPathMatches J ast subs loc := by
    intro loc
    cases hnode : ast.node? with
    | none =>
      have haddress : address J ast pattern = none := by
        cases ast with
        | jsonc ast =>
          rw [address, Option.map_eq_none_iff.1 hnode]
          rfl
        | jsonl ast => cases hnode
      rw [haddress]
      refine iff_of_false (fun heq => by cases heq) ?_
      rintro ⟨n, way, hn, -⟩
      rw [hnode] at hn
      cases hn
    | some n =>
      rw [hsplit.address (fun file hfile => (h.lines file hfile).lineAlone) hnode,
        reach_literal (fun s hs => ⟨hneeds s hs, hlast s hs⟩) fun way => h.printable n way hnode]
      constructor
      · rintro ⟨way, hway, hloc⟩
        exact ⟨n, way, hnode, hway, hloc⟩
      · rintro ⟨n', way, hn', hway, hloc⟩
        obtain rfl := Option.some.inj (hnode.symm.trans hn')
        exact ⟨way, hway, hloc⟩
  have hfind : findOcPaths J ast pattern = (do
      let found ← reportPath J ast pattern
      return found.toList) := by
    rw [findOcPaths, h.split]
    simp only [bind, Except.bind, hliteral, Bool.not_false, if_true]
  cases haddress : address J ast pattern with
  | none =>
    refine ⟨[], [], ?_, .nil, List.nodup_nil, fun loc => ?_⟩
    · rw [hfind, reportPath_none hsplit hplain hinsertion haddress]
      rfl
    · rw [← hmatches, haddress]
      simp
  | some loc =>
    obtain ⟨f, hreport, hfound⟩ := foundAt_of_rel hsplit hplain hinsertion haddress
    refine ⟨[f], [loc], ?_, .cons hfound .nil, List.nodup_singleton loc, fun loc' => ?_⟩
    · rw [hfind, hreport]
      rfl
    · rw [← hmatches, haddress, List.mem_singleton, Option.some.injEq]
      exact eq_comm

theorem collectPaths_eq (hJ : J.Numerals) {pattern : OcPath} (hn : ast.node? = some n) (hdistinct : n.Distinct)
    (h : WalkedExactly J pattern subs n) :
    collectPaths J ast pattern subs = .ok (((forest J).find (glob J subs) n).map
      fun way => repackSlotSubs pattern (way.map printed)) := by
  cases ast with
  | jsonc ast =>
    obtain ⟨root, hroot, rfl⟩ := Option.map_eq_some_iff.1 hn
    have hwalk := walkJsonc_eq hJ (hdistinct root rfl) [] h.walkable
    rw [collectPaths]
    simp only [hroot, hwalk]
    simp [bind, Except.bind, pure, Except.pure, Function.comp_def]
  | jsonl ast =>
    obtain rfl := Option.some.inj hn
    have hwalk := walkJsonl_eq hJ hdistinct h.walkable (h.ends ast rfl)
    rw [collectPaths]
    simp only [hwalk]
    simp [bind, Except.bind, pure, Except.pure, Function.comp_def]

/-- **The search returns the places whose key paths match the pattern, each once, where it is
right.** -/
theorem findsExactly (hJ : J.Numerals) {ast : StructuredAst J.Num} {pattern : OcPath}
    {subs : List SlotSub} (h : Findable J ast pattern subs) : FindsExactly J ast pattern subs := by
  cases hexpands : subs.any needsExpansion with
  | false => exact findsExactly_literal h hexpands
  | true =>
    have hsplit := splitsTo_pattern h.split
    have hfind : findOcPaths J ast pattern = (do
        let concretePaths ← collectPaths J ast pattern subs
        let out ← concretePaths.mapM (reportPath J ast)
        return out.reduceOption) := by
      rw [findOcPaths, h.split]
      simp only [bind, Except.bind, hexpands, Bool.not_true, Bool.false_eq_true, if_false]
    cases hnode : ast.node? with
    | none =>
      refine ⟨[], [], ?_, .nil, List.nodup_nil, fun loc => ?_⟩
      · cases ast with
        | jsonc ast =>
          rw [hfind, collectPaths]
          simp only [Option.map_eq_none_iff.1 hnode]
          rfl
        | jsonl ast => cases hnode
      · refine iff_of_false (List.not_mem_nil) ?_
        rintro ⟨n, way, hn, -⟩
        rw [hnode] at hn
        cases hn
    | some n =>
      have hdistinct := h.distinct n hnode
      have hwalked := h.walked hexpands n hnode
      have hfinds := finds_matches hdistinct hwalked.exactly
      have hpath : ∀ way ∈ (forest J).find (glob J subs) n, ∃ f,
          reportPath J ast (repackSlotSubs pattern (way.map printed)) = .ok (some f) ∧
            FoundAt J ast f (edges Label.edge way) := by
        intro way hway
        have hmatch := (hfinds.mem way).1 hway
        have hprint := h.printable n way hnode hmatch
        have hspec : ∀ s ∈ way.map printed,
            nesting.Piece dot s.value ∧ isPatternSub s.value = false := by
          intro s hs
          obtain ⟨l, hl, rfl⟩ := List.mem_map.1 hs
          obtain ⟨hpiece, hplain, -⟩ := (hprint l hl).spec
          exact ⟨hpiece, hplain⟩
        have hrepack := splitsTo_repack pattern (inOrder_printed hsplit.inOrder hmatch)
          fun s hs => (hspec s hs).1
        refine foundAt_of_rel hrepack (fun s hs => (hspec s hs).2) (hwalked.plain way hmatch) ?_
        rw [hrepack.address (fun file hfile => lineAlone_printed (h.lines file hfile) hmatch) hnode,
          List.map_map]
        exact reach_printed hJ hdistinct hmatch hprint
      obtain ⟨out, hreports, hall⟩ := reports hpath
      refine ⟨out, _, ?_, hall, hfinds.nodup, fun loc => ?_⟩
      · rw [hfind, collectPaths_eq hJ hnode hdistinct hwalked]
        simp only [bind, Except.bind, hreports]
        simp [pure, Except.pure, List.reduceOption]
      · rw [List.mem_map]
        constructor
        · rintro ⟨way, hway, hloc⟩
          exact ⟨n, way, hnode, (hfinds.mem way).1 hway, hloc⟩
        · rintro ⟨n', way, hn', hway, hloc⟩
          obtain rfl := Option.some.inj (hnode.symm.trans hn')
          exact ⟨way, (hfinds.mem way).2 hway, hloc⟩

theorem plainJs_numerals : plainJs.Numerals := by
  constructor
  · intro i _
    exact decimal?_toString i
  · intro s
    have hdigit : isDigit quote = false := rfl
    show decimal? (quote :: (s ++ [quote])) = none
    simp [decimal?, hdigit]

theorem dispatchSeg_single {T C : Type} (ops : WalkOps T C) (node : T) (slot : Slot)
    (rest : List SlotSub) : dispatchSeg ops node (⟨slot, wildcardSingle⟩ :: rest) =
      (ops.enumerate node).map fun m => .down slot m.1 m.2 rest := by
  have hunion : isUnionSeg wildcardSingle = false := by decide
  have hpredicate : isPredicateSeg wildcardSingle = false := by decide
  have hstep : wildcardSingle ≠ wildcardRecursive := by decide
  rw [dispatchSeg, alternatives_single hunion, List.flatMap_singleton, dispatchAlt_step hstep]
  simp [opsSelect, hpredicate]

theorem globSub_single (slot : Slot) :
    globSub J ⟨slot, wildcardSingle⟩ = ⟨slot, [.step (OcNode.parts J)]⟩ := by
  have hunion : isUnionSeg wildcardSingle = false := by decide
  have hpredicate : isPredicateSeg wildcardSingle = false := by decide
  have hstep : wildcardSingle ≠ wildcardRecursive := by decide
  have hselect : select J wildcardSingle = OcNode.parts J := by
    funext n
    simp [select, hpredicate]
  rw [globSub, alternatives_single hunion, List.map_singleton, globAlt, if_neg hstep, hselect]

theorem text_of_walk {node : JsoncValue J.Num} {walked : List SlotSub}
    {found : List (List SlotSub)} (h : walkJsonc J node subs walked = .ok found) {slot : Slot}
    {label : Label} {child : JsoncValue J.Num} {rest : List SlotSub}
    (hturn : .down slot label child rest ∈ dispatchSeg (jsoncOps J) node subs) :
    ∃ t, label.text = .ok t := by
  unfold walkJsonc at h
  obtain ⟨_, -, h⟩ := Effectful.bind_ok h
  obtain ⟨parts, hparts, -⟩ := Effectful.bind_ok h
  obtain ⟨part, hpart⟩ := Effectful.ok_of_mapM hparts ⟨_, hturn⟩ (List.mem_attach _ _)
  obtain ⟨t, ht, -⟩ := Effectful.bind_ok hpart
  exact ⟨t, ht⟩

def wildcardPath : OcPath := ⟨utf16 "x.jsonc", some wildcardSingle, none, none, none⟩

def wildcardSubs : List SlotSub := [⟨.section, wildcardSingle⟩]

theorem wildcardPath_subs : patternSubs wildcardPath = .ok wildcardSubs := by decide +kernel

/-- `{"a":1,"b":[]}` -/
def smallRoot : JsoncValue plainJs.Num :=
  .object [⟨utf16 "a", .number (some 1) none, 1⟩, ⟨utf16 "b", .array [] none, 1⟩] none

theorem matches_wildcard {root : JsoncValue plainJs.Num} :
    (forest plainJs).Matches (glob plainJs wildcardSubs) (.value (some root)) way ↔
      ∃ m ∈ jsoncParts plainJs root, way = [(.section, m.1)] := by
  have hglob : glob plainJs wildcardSubs = [⟨.section, [.step (OcNode.parts plainJs)]⟩] :=
    congrArg (fun sub => [sub]) (globSub_single .section)
  rw [hglob]
  constructor
  · rintro ⟨alt, halt, hway⟩
    obtain rfl := List.mem_singleton.1 halt
    obtain ⟨p, hp, way', rfl, rfl⟩ := hway
    obtain ⟨m, hm, rfl⟩ := List.mem_map.1 hp
    exact ⟨m, hm, rfl⟩
  · rintro ⟨m, hm, rfl⟩
    exact ⟨_, List.mem_singleton_self _, ofValue m, List.mem_map_of_mem hm, [], rfl, rfl⟩

theorem visited_wildcard {root : JsoncValue plainJs.Num}
    (h : way ∈ (forest plainJs).visited (glob plainJs wildcardSubs) (.value (some root))) :
    ∃ m ∈ jsoncParts plainJs root, way = [(.section, m.1)] := by
  have hglob : glob plainJs wildcardSubs = [⟨.section, [.step (OcNode.parts plainJs)]⟩] :=
    congrArg (fun sub => [sub]) (globSub_single .section)
  rw [hglob, visited_single, Forest.visitedAlt, List.mem_flatMap] at h
  obtain ⟨p, hp, hway⟩ := h
  obtain ⟨m, hm, rfl⟩ := List.mem_map.1 hp
  exact ⟨m, hm, List.mem_singleton.1 hway⟩

theorem small_parts : jsoncParts plainJs smallRoot =
    [(⟨.ok (utf16 "a"), .key (utf16 "a")⟩, .number (some 1) none),
      (⟨.ok (utf16 "b"), .key (utf16 "b")⟩, .array [] none)] := by
  have ha : quoteSeg (utf16 "a") = .ok (utf16 "a") := by decide
  have hb : quoteSeg (utf16 "b") = .ok (utf16 "b") := by decide
  show [(Label.mk (quoteSeg (utf16 "a")) _, _), (Label.mk (quoteSeg (utf16 "b")) _, _)] = _
  rw [ha, hb]

theorem small_findable : Findable plainJs (.jsonc ⟨[], some smallRoot⟩) wildcardPath wildcardSubs := by
  have hnode : ∀ n, (StructuredAst.jsonc ⟨[], some smallRoot⟩).node? = some n →
      n = .value (some smallRoot) := fun n hn => (Option.some.inj hn).symm
  have hlabels : ∀ m ∈ jsoncParts plainJs smallRoot,
      ∃ t ∈ [utf16 "a", utf16 "b"], m.1 = ⟨.ok t, .key t⟩ := by
    rw [small_parts]
    simp
  refine ⟨wildcardPath_subs, ?_, (fun _ h => by cases h), ?_, ?_, ?_⟩
  · intro n hn
    obtain rfl := hnode n hn
    refine distinct_value (.object (by decide) ?_)
    intro e he
    rcases List.mem_pair.1 he with rfl | rfl
    · exact .number
    · exact .array (by decide) (by simp)
  · rintro n way hn hway l hl
    obtain rfl := hnode n hn
    obtain ⟨m, hm, rfl⟩ := matches_wildcard.1 hway
    obtain rfl := List.mem_singleton.1 hl
    obtain ⟨t, ht, hlabel⟩ := hlabels m hm
    have hpiece : nesting.Piece dot t := by
      refine piece_plain ?_ ?_
      · rcases List.mem_pair.1 ht with rfl | rfl <;> decide
      · rcases List.mem_pair.1 ht with rfl | rfl <;> decide
    refine ⟨t, by rw [hlabel], hpiece, ?_⟩
    rw [hlabel]
    rcases List.mem_pair.1 ht with rfl | rfl <;>
      exact ⟨by decide, by decide, by decide, fun key hkey => EditSegment.key.inj hkey ▸ by decide⟩
  · intro hliteral
    exact absurd hliteral (by decide)
  · rintro - n hn
    obtain rfl := hnode n hn
    have hways : ∀ way ∈ (forest plainJs).visited (glob plainJs wildcardSubs)
        (.value (some smallRoot)), ∃ t ∈ [utf16 "a", utf16 "b"],
          way = [(.section, ⟨.ok t, .key t⟩)] := by
      intro way hway
      obtain ⟨m, hm, rfl⟩ := visited_wildcard hway
      obtain ⟨t, ht, hlabel⟩ := hlabels m hm
      exact ⟨t, ht, by rw [hlabel]⟩
    refine ⟨?_, ⟨?_, Nat.zero_le _, ?_⟩, (fun _ h => by cases h), ?_⟩
    · have hglob : glob plainJs wildcardSubs = [⟨.section, [.step (OcNode.parts plainJs)]⟩] :=
        congrArg (fun sub => [sub]) (globSub_single .section)
      rw [hglob]
      refine ⟨?_, List.pairwise_singleton _ _⟩
      intro alt halt
      obtain rfl := List.mem_singleton.1 halt
      exact fun _ _ => trivial
    · intro way hway l hl
      obtain ⟨t, ht, rfl⟩ := hways way hway
      obtain rfl := List.mem_singleton.1 hl
      refine ⟨t, rfl, ?_⟩
      rcases List.mem_pair.1 ht with rfl | rfl <;> decide
    · intro way hway
      obtain ⟨t, -, rfl⟩ := hways way hway
      exact Nat.le_add_left 1 255
    · intro way hway
      obtain ⟨m, hm, rfl⟩ := matches_wildcard.1 hway
      obtain ⟨t, ht, hlabel⟩ := hlabels m hm
      rw [hlabel]
      rcases List.mem_pair.1 ht with rfl | rfl <;> decide

theorem small_findsExactly :
    FindsExactly plainJs (.jsonc ⟨[], some smallRoot⟩) wildcardPath wildcardSubs :=
  findsExactly plainJs_numerals small_findable

/-- `{"\\":null}`, whose key cannot be quoted. -/
def backslashRoot : JsoncValue plainJs.Num := .object [⟨[backslash], .null none, 1⟩] none

theorem backslash_not_found :
    ¬∀ (J : Js) (ast : StructuredAst J.Num) (pattern : OcPath) (subs : List SlotSub), J.Numerals →
      (∀ n, ast.node? = some n → n.Distinct) → patternSubs pattern = .ok subs →
        FindsExactly J ast pattern subs := by
  intro h
  have hdistinct : ∀ n, (StructuredAst.jsonc ⟨[], some backslashRoot⟩).node? = some n →
      n.Distinct := by
    intro n hn
    obtain rfl := Option.some.inj hn
    refine distinct_value (.object (by decide) ?_)
    intro e he
    obtain rfl := List.mem_singleton.1 he
    exact .null
  obtain ⟨out, -, hfind, -⟩ := h plainJs (.jsonc ⟨[], some backslashRoot⟩) wildcardPath wildcardSubs
    plainJs_numerals hdistinct wildcardPath_subs
  have hexpands : wildcardSubs.any needsExpansion = true := by decide
  rw [findOcPaths, wildcardPath_subs] at hfind
  simp only [bind, Except.bind, hexpands, Bool.not_true, Bool.false_eq_true, if_false] at hfind
  obtain ⟨paths, hpaths, -⟩ := Effectful.bind_ok hfind
  obtain ⟨found, hwalk, -⟩ := Effectful.bind_ok hpaths
  have hturn : Turn.down .section ⟨quoteSeg [backslash], .key [backslash]⟩ (.null none) [] ∈
      dispatchSeg (jsoncOps plainJs) backslashRoot wildcardSubs := by
    rw [wildcardSubs, dispatchSeg_single]
    exact List.mem_singleton_self _
  obtain ⟨t, ht⟩ := text_of_walk hwalk hturn
  exact absurd ht (by simp [quoteSeg, failIf, fail, bind, Except.bind])

end ClawHarder.OcPaths
