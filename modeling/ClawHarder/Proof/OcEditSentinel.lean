import ClawHarder.Proof.OcMdSentinel

/-!
# Edits and the redaction sentinel

* `keeps_setJsoncInsertion`, `keeps_setJsonlInsertion`, `keeps_setJsonlLeaf`: **what is rendered is
  guarded in its leaves, and in its keys it is not.**
-/

namespace ClawHarder.OcPaths

section Texts

variable {N : Type} {ofKey ofString : Units → List Units} {t : Units}

theorem mem_entryTexts {entries : List (JsoncEntry (JsoncValue N))} :
    t ∈ entryTexts ofKey ofString entries ↔
      ∃ e ∈ entries, t ∈ ofKey e.key ∨ t ∈ e.value.texts ofKey ofString := by
  induction entries with
  | nil => simp [entryTexts]
  | cons e entries ih =>
    obtain ⟨key, v, line⟩ := e
    rw [entryTexts, List.mem_append, List.mem_append, ih, List.exists_mem_cons_iff, or_assoc]

theorem mem_itemTexts {items : List (JsoncValue N)} :
    t ∈ itemTexts ofKey ofString items ↔ ∃ v ∈ items, t ∈ v.texts ofKey ofString := by
  induction items with
  | nil => simp [itemTexts]
  | cons v items ih => rw [itemTexts, List.mem_append, ih, List.exists_mem_cons_iff]

theorem exists_mem_set_iff {α : Type} {P : α → Prop} {xs : List α} {i : ℕ} (hi : i < xs.length)
    (y : α) : (∃ z ∈ xs.set i y, P z) ↔ P y ∨ ∃ z ∈ xs.eraseIdx i, P z := by
  induction xs generalizing i with
  | nil => cases hi
  | cons z xs ih =>
    cases i with
    | zero => rw [List.set_cons_zero, List.exists_mem_cons_iff, List.eraseIdx_cons_zero]
    | succ i =>
      rw [List.set_cons_succ, List.eraseIdx_cons_succ, List.exists_mem_cons_iff,
        List.exists_mem_cons_iff, ih (Nat.lt_of_succ_lt_succ hi), or_left_comm]

theorem exists_mem_set {α : Type} {P : α → Prop} {Q : Prop} {xs : List α} {i : ℕ} {x y : α}
    (hx : xs[i]? = some x) (h : P y ↔ P x ∨ Q) :
    (∃ z ∈ xs.set i y, P z) ↔ (∃ z ∈ xs, P z) ∨ Q := by
  obtain ⟨hi, rfl⟩ := List.getElem?_eq_some_iff.1 hx
  have hself := exists_mem_set_iff (P := P) hi xs[i]
  rw [List.set_getElem_self] at hself
  rw [exists_mem_set_iff hi, hself, h]
  exact or_right_comm

theorem exists_mem_set_or {α : Type} {P : α → Prop} {A B : Prop} {xs : List α} {i : ℕ} {y y' : α}
    (hi : i < xs.length) (h : P y ∨ A ↔ P y' ∨ B) :
    (∃ z ∈ xs.set i y, P z) ∨ A ↔ (∃ z ∈ xs.set i y', P z) ∨ B := by
  rw [exists_mem_set_iff hi, exists_mem_set_iff hi, or_right_comm, h]
  exact or_right_comm

variable {J : Js} {value : JsoncValue J.Num}

/-- **A change deep in a value adds to its texts what it adds at its place.** -/
theorem mem_texts_mutateAt {mutate : JsoncValue J.Num → Option (JsoncValue J.Num)}
    {added : List Units}
    (hmutate : ∀ c c', mutate c = some c' →
      (t ∈ c'.texts ofKey ofString ↔ t ∈ c.texts ofKey ofString ∨ t ∈ added))
    {segments : List Units} {root root' : JsoncValue J.Num}
    (h : mutateAt J mutate root segments = some root') :
    t ∈ root'.texts ofKey ofString ↔ t ∈ root.texts ofKey ofString ∨ t ∈ added := by
  induction segments generalizing root root' with
  | nil => exact hmutate root root' h
  | cons seg segments ih =>
    unfold mutateAt at h
    by_cases hempty : seg = []
    · rw [if_pos hempty] at h
      cases h
    rw [if_neg hempty] at h
    cases root with
    | object entries line =>
      simp only at h
      split at h
      next => cases h
      next idx hidx =>
        split at h
        next => cases h
        next child hchild =>
          rw [Option.map_eq_some_iff] at h
          obtain ⟨replaced, hreplaced, rfl⟩ := h
          have hchange := ih hreplaced
          simp only [JsoncValue.texts, mem_entryTexts]
          refine exists_mem_set hchild ?_
          rw [hchange, or_assoc]
    | array items line =>
      simp only at h
      split at h
      next => cases h
      next idx hidx =>
        split at h
        next => cases h
        next child hchild =>
          rw [Option.map_eq_some_iff] at h
          obtain ⟨replaced, hreplaced, rfl⟩ := h
          simp only [JsoncValue.texts, mem_itemTexts]
          exact exists_mem_set hchild (ih hreplaced)
    | string v line => cases h
    | number v line => cases h
    | boolean v line => cases h
    | null line => cases h

/-- **A replacement takes its place from what stood there.** -/
theorem mem_texts_replaceAt {segments : List Units} {a old ra : JsoncValue J.Num}
    (h : replaceAt J a old segments = some ra) (b : JsoncValue J.Num) :
    ∃ rb, replaceAt J b old segments = some rb ∧ ∀ ofKey ofString t,
      t ∈ ra.texts ofKey ofString ∨ t ∈ b.texts ofKey ofString ↔
        t ∈ rb.texts ofKey ofString ∨ t ∈ a.texts ofKey ofString := by
  induction segments generalizing old ra with
  | nil =>
    obtain rfl := Option.some.inj h
    exact ⟨b, rfl, fun ofKey ofString t => or_comm⟩
  | cons seg segments ih =>
    unfold replaceAt at h ⊢
    by_cases hempty : seg = []
    · rw [if_pos hempty] at h
      cases h
    rw [if_neg hempty] at h ⊢
    cases old with
    | object entries line =>
      simp only at h ⊢
      split at h
      next => cases h
      next norm hnorm =>
        split at h
        next => cases h
        next idx hidx =>
          split at h
          next => cases h
          next child hchild =>
            rw [Option.map_eq_some_iff] at h
            obtain ⟨replaced, hreplaced, rfl⟩ := h
            obtain ⟨rb, hrb, htexts⟩ := ih hreplaced
            have hlt : idx < entries.length := (List.getElem?_eq_some_iff.1 hchild).1
            refine ⟨.object (entries.set idx { child with value := rb }) line, ?_, ?_⟩
            · rw [hrb, Option.map_some]
            · intro ofKey ofString t
              simp only [JsoncValue.texts, mem_entryTexts]
              refine exists_mem_set_or hlt ?_
              rw [or_assoc, or_assoc, htexts]
    | array items line =>
      simp only at h ⊢
      split at h
      next => cases h
      next norm hnorm =>
        split at h
        next => cases h
        next idx hidx =>
          split at h
          next => cases h
          next child hchild =>
            rw [Option.map_eq_some_iff] at h
            obtain ⟨replaced, hreplaced, rfl⟩ := h
            obtain ⟨rb, hrb, htexts⟩ := ih hreplaced
            have hlt : idx < items.length := (List.getElem?_eq_some_iff.1 hchild).1
            refine ⟨.array (items.set idx rb) line, ?_, ?_⟩
            · rw [hrb, Option.map_some]
            · intro ofKey ofString t
              simp only [JsoncValue.texts, mem_itemTexts]
              exact exists_mem_set_or hlt (htexts ofKey ofString t)
    | string v line => cases h
    | number v line => cases h
    | boolean v line => cases h
    | null line => cases h

theorem mem_texts_insertItem {marker : Marker} (hmarker : ∀ key, marker ≠ .keyed key)
    {c c' : JsoncValue J.Num} (h : insertItem marker value c = some c') :
    t ∈ c'.texts ofKey ofString ↔
      t ∈ c.texts ofKey ofString ∨ t ∈ value.texts ofKey ofString := by
  cases c with
  | array items line =>
    cases marker with
    | last =>
      obtain rfl := Option.some.inj h
      simp [JsoncValue.texts, mem_itemTexts, or_and_right, exists_or]
    | indexed index =>
      obtain rfl := Option.some.inj h
      have hle : min index items.length ≤ items.length := Nat.min_le_right index items.length
      simp only [JsoncValue.texts, mem_itemTexts, List.mem_insertIdx hle, or_and_right, exists_or,
        exists_eq_left]
      exact or_comm
    | keyed key => exact absurd rfl (hmarker key)
  | object entries line => cases h
  | string v line => cases h
  | number v line => cases h
  | boolean v line => cases h
  | null line => cases h

theorem mem_texts_insertEntry {key : Units} {c c' : JsoncValue J.Num}
    (h : insertEntry key value c = some c') :
    t ∈ c'.texts ofKey ofString ↔
      t ∈ c.texts ofKey ofString ∨ t ∈ ofKey key ++ value.texts ofKey ofString := by
  cases c with
  | object entries line =>
    by_cases hkey : (entries.any fun e => e.key = key) = true
    · rw [insertEntry, if_pos hkey] at h
      cases h
    rw [insertEntry, if_neg hkey] at h
    obtain rfl := Option.some.inj h
    simp [JsoncValue.texts, mem_entryTexts, or_and_right, exists_or]
  | array items line => cases h
  | string v line => cases h
  | number v line => cases h
  | boolean v line => cases h
  | null line => cases h

end Texts

/-- What is rendered is clear of the sentinel, or it is not rendered for a leaf with the
sentinel. -/
def Renders (strings keys : List Units) : Prop :=
  (∀ s ∈ strings, Clear s) → ∀ k ∈ keys, Clear k

theorem renders_congr {strings strings' keys keys' : List Units}
    (hstrings : ∀ t, t ∈ strings ↔ t ∈ strings') (hkeys : ∀ t, t ∈ keys ↔ t ∈ keys') :
    Renders strings keys ↔ Renders strings' keys' := by
  unfold Renders
  simp only [hstrings, hkeys]

theorem keeps_emits {A : Type} {raw : A → Units} {f : Units → A} {strings keys : List Units}
    {r : Except Thrown Units} (h : Emits strings keys Clear r) (hf : ∀ t, raw (f t) = t) :
    Keeps raw (do let t ← r; written (f t)) ↔ Renders strings keys := by
  cases r with
  | error e =>
    obtain ⟨s, hs, hclear⟩ := h
    exact (keeps_thrown e).trans
      (iff_true_intro fun hstrings => absurd (hstrings s hs) hclear).symm
  | ok t =>
    obtain ⟨hstrings, hkeys⟩ := h
    have hwritten : Keeps raw (written (f t)) ↔ Clear t := by
      rw [keeps_written, hf]
    refine hwritten.trans ?_
    rw [hkeys]
    exact ⟨fun h _ => h, fun h => h hstrings⟩

theorem keeps_option {A B : Type} {raw : A → Units} {r : Except Thrown (Edited A)} {o : Option B}
    {f : B → Except Thrown (Edited A)}
    (h : (∃ b, o = some b ∧ r = f b) ∨ (o = none ∧ (Keeps raw r ↔ True))) :
    Keeps raw r ↔ ∀ b, o = some b → Keeps raw (f b) := by
  rcases h with ⟨b, rfl, rfl⟩ | ⟨rfl, hr⟩
  · exact ⟨fun h b' hb => Option.some.inj hb ▸ h, fun h => h b rfl⟩
  · refine hr.trans (iff_true_intro ?_).symm
    intro b hb
    cases hb

section Jsonc

variable {J : Js} {ast : JsoncAst J.Num}

theorem keeps_mutateJsoncContainer (parentPath : OcPath)
    (mutate : JsoncValue J.Num → Option (JsoncValue J.Num)) :
    Keeps JsoncAst.raw (mutateJsoncContainer J ast parentPath mutate) ↔
      ∀ root segments root', ast.root? = some root → pathSubs parentPath = .ok segments →
        mutateAt J mutate root segments = some root' → Renders root'.strings root'.keys := by
  unfold mutateJsoncContainer
  constructor
  · intro h root segments root' hroot hsegments hmutate
    simp only [hroot, hsegments, hmutate, bind, Except.bind] at h
    exact (keeps_emits (emitJsonc_emits root' none) fun t => rfl).1 h
  · intro h
    cases hroot : ast.root? with
    | none => exact (keeps_refuse _).2 trivial
    | some root =>
      cases hsegments : pathSubs parentPath with
      | error e => exact (keeps_thrown e).2 trivial
      | ok segments =>
        simp only [bind, Except.bind]
        cases hmutate : mutateAt J mutate root segments with
        | none => exact (keeps_refuse _).2 trivial
        | some root' =>
          have hrenders := h root segments root' hroot hsegments hmutate
          exact (keeps_emits (emitJsonc_emits root' none) fun t => rfl).2 hrenders

/-- What an insertion does to a container of a kind, if the marker fits. -/
def insertion? {N : Type} (container : OcMatch) (marker : Marker) (value : JsoncValue N) :
    Option (JsoncValue N → Option (JsoncValue N)) :=
  match container, marker with
  | .insertionPoint .jsoncArray _, .keyed _ => none
  | .insertionPoint .jsoncArray _, marker => some (insertItem marker value)
  | .insertionPoint _ _, .keyed key => some (insertEntry key value)
  | _, _ => none

def markerKeys : Marker → List Units
  | .keyed key => [key]
  | _ => []

/-- When an insertion into JSON with comments writes nothing with the sentinel: if the value finds
its place, no key has it, be it of the file, of the value or of the path. -/
def JsoncInsertionClear (J : Js) (ast : JsoncAst J.Num) (info : InsertionInfo) (value : Units) :
    Prop :=
  ∀ container parsed mutate root segments root',
    resolveJsoncInsertion J ast info = .ok (some container) → J.parseJson value = some parsed →
    insertion? container info.marker (jsonToJsoncValue parsed) = some mutate →
    ast.root? = some root → pathSubs info.parentPath = .ok segments →
    mutateAt J mutate root segments = some root' →
    Renders (root.strings ++ (jsonToJsoncValue parsed).strings)
      (root.keys ++ (markerKeys info.marker ++ (jsonToJsoncValue parsed).keys))

theorem insertion?_eq_some {N : Type} {container : OcMatch} {marker : Marker} {value : JsoncValue N}
    {mutate : JsoncValue N → Option (JsoncValue N)}
    (h : insertion? container marker value = some mutate) :
    (markerKeys marker = [] ∧ (∀ key, marker ≠ .keyed key) ∧ mutate = insertItem marker value) ∨
      ∃ key, marker = .keyed key ∧ mutate = insertEntry key value := by
  unfold insertion? at h
  split at h
  next => cases h
  next marker line hmarker =>
    obtain rfl := Option.some.inj h
    refine .inl ⟨?_, fun key hkey => hmarker key hkey, rfl⟩
    unfold markerKeys
    split
    next key => exact absurd rfl (hmarker key)
    next => rfl
  next kind line key hkind => exact .inr ⟨key, rfl, (Option.some.inj h).symm⟩
  next => cases h

theorem renders_insertion {container : OcMatch} {marker : Marker}
    {value root root' : JsoncValue J.Num}
    {mutate : JsoncValue J.Num → Option (JsoncValue J.Num)} {segments : List Units}
    (hinsertion : insertion? container marker value = some mutate)
    (hmutate : mutateAt J mutate root segments = some root') :
    Renders root'.strings root'.keys ↔
      Renders (root.strings ++ value.strings) (root.keys ++ (markerKeys marker ++ value.keys)) := by
  rcases insertion?_eq_some hinsertion with ⟨hkeys, hmarker, rfl⟩ | ⟨key, rfl, rfl⟩
  · refine renders_congr (fun t => ?_) fun t => ?_
    · rw [List.mem_append]
      exact mem_texts_mutateAt (fun c c' h => mem_texts_insertItem hmarker h) hmutate
    · rw [hkeys, List.nil_append, List.mem_append]
      exact mem_texts_mutateAt (fun c c' h => mem_texts_insertItem hmarker h) hmutate
  · refine renders_congr (fun t => ?_) fun t => ?_
    · rw [List.mem_append]
      exact mem_texts_mutateAt (fun c c' h => mem_texts_insertEntry h) hmutate
    · rw [List.mem_append]
      exact mem_texts_mutateAt (fun c c' h => mem_texts_insertEntry h) hmutate

theorem keeps_insertInto (info : InsertionInfo) (container : OcMatch) (value : JsoncValue J.Num) :
    Keeps JsoncAst.raw (insertInto J ast info container value) ↔
      ∀ mutate, insertion? container info.marker value = some mutate →
        Keeps JsoncAst.raw (mutateJsoncContainer J ast info.parentPath mutate) := by
  obtain ⟨parentPath, marker⟩ := info
  refine keeps_option ?_
  unfold insertInto insertion?
  cases container with
  | root line => exact .inr ⟨rfl, keeps_refuse _⟩
  | leaf valueText leafType line => exact .inr ⟨rfl, keeps_refuse _⟩
  | node descriptor line => exact .inr ⟨rfl, keeps_refuse _⟩
  | insertionPoint kind line =>
    by_cases hkind : kind = .jsoncArray
    · subst hkind
      cases marker with
      | last => exact .inl ⟨_, rfl, rfl⟩
      | indexed index => exact .inl ⟨_, rfl, rfl⟩
      | keyed key => exact .inr ⟨rfl, keeps_refuseWith _ _⟩
    · cases marker with
      | last => cases kind <;> first | exact absurd rfl hkind | exact .inr ⟨rfl, keeps_refuseWith _ _⟩
      | indexed index =>
        cases kind <;> first | exact absurd rfl hkind | exact .inr ⟨rfl, keeps_refuseWith _ _⟩
      | keyed key => cases kind <;> first | exact absurd rfl hkind | exact .inl ⟨_, rfl, rfl⟩

theorem keeps_setJsoncInsertion (info : InsertionInfo) (value : Units) :
    Keeps JsoncAst.raw (setJsoncInsertion J ast info value) ↔
      JsoncInsertionClear J ast info value := by
  unfold setJsoncInsertion
  constructor
  · intro h container parsed mutate root segments root' hcontainer hparsed hinsertion hroot
      hsegments hmutate
    refine (renders_insertion hinsertion hmutate).1 ?_
    simp only [hcontainer, hparsed, bind, Except.bind] at h
    have hkeeps := (keeps_insertInto info container _).1 h mutate hinsertion
    exact (keeps_mutateJsoncContainer info.parentPath mutate).1 hkeeps root segments root' hroot
      hsegments hmutate
  · intro h
    cases hcontainer : resolveJsoncInsertion J ast info with
    | error e => exact (keeps_thrown e).2 trivial
    | ok container =>
      cases container with
      | none => exact (keeps_refuse _).2 trivial
      | some container =>
        simp only [bind, Except.bind]
        cases hparsed : J.parseJson value with
        | none => exact (keeps_refuseWith _ _).2 trivial
        | some parsed =>
          refine (keeps_insertInto info container _).2 fun mutate hinsertion => ?_
          refine (keeps_mutateJsoncContainer info.parentPath mutate).2 ?_
          intro root segments root' hroot hsegments hmutate
          exact (renders_insertion hinsertion hmutate).2
            (h container parsed mutate root segments root' hcontainer hparsed hinsertion hroot
              hsegments hmutate)

/-- `findNodeAtLocation` in the tree. -/
def locate {N : Type} (v : JsoncValue N) : List EditSegment → Option (JsoncValue N)
  | [] => some v
  | .key name :: segments =>
    match v with
    | .object entries _ =>
      match entries.find? fun e => e.key = name with
      | some entry => locate entry.value segments
      | none => none
    | _ => none
  | .index i :: segments =>
    match v with
    | .array items _ =>
      match items[i]? with
      | some item => locate item segments
      | none => none
    | _ => none

/-- `JSON.stringify` of a value without parts. -/
def scalarText (J : Js) : JsonValue J.Num → Option Units
  | .string s => some (jsonString s)
  | .number n => if J.isFinite n then some (J.text n) else none
  | .boolean b => some (utf16 (toString b))
  | .null => some (utf16 "null")
  | _ => none

/-- The tree is of the text: each of its values has a place in the text, in which `modify` puts
the text of a scalar. -/
def JsoncAst.OfText (P : JsoncParser J.Num) (ast : JsoncAst J.Num) : Prop :=
  ∀ root segments, ast.root? = some root → (locate root segments).isSome →
    ∃ before old after, ast.raw = before ++ (old ++ after) ∧
      ∀ v text, scalarText J v = some text →
        P.modify ast.raw segments v = some (before ++ (text ++ after))

theorem locate_resolved {root : JsoncValue J.Num} {segments : List Units} {path : List EditSegment}
    (h : resolveEditSegments J root segments = some path) : (locate root path).isSome := by
  induction segments generalizing root path with
  | nil =>
    obtain rfl := Option.some.inj h
    rfl
  | cons seg segments ih =>
    unfold resolveEditSegments at h
    by_cases hempty : seg = []
    · rw [if_pos hempty] at h
      cases h
    rw [if_neg hempty] at h
    cases root with
    | object entries line =>
      simp only at h
      split at h
      next => cases h
      next entry hentry =>
        rw [Option.map_eq_some_iff] at h
        obtain ⟨rest, hrest, rfl⟩ := h
        simp only [locate, hentry]
        exact ih hrest
    | array items line =>
      simp only at h
      split at h
      next => cases h
      next idx hidx =>
        split at h
        next => cases h
        next item hitem =>
          rw [Option.map_eq_some_iff] at h
          obtain ⟨rest, hrest, rfl⟩ := h
          simp only [locate, hitem]
          exact ih hrest
    | string v line => cases h
    | number v line => cases h
    | boolean v line => cases h
    | null line => cases h

/-- **The text of a guarded scalar joins with nothing around it.** -/
theorem clear_scalar {leaf coerced : JsoncValue J.Num} {value guardPath : Units}
    (hcoerced : coerceJsoncLeaf J value leaf = some coerced)
    (hguard : guardValue guardPath coerced = .ok ()) :
    ∃ text, scalarText J (jsoncValueToJson coerced) = some text ∧
      ∀ before after, Clear before → Clear after → Clear (before ++ (text ++ after)) := by
  have hwords : ∀ {text : Units}, text ≠ [] → Apart text → ∀ before after, Clear before →
      Clear after → Clear (before ++ (text ++ after)) := by
    intro text hne hapart before after hbefore hafter
    rw [← List.append_assoc, clear_around hapart hne]
    exact ⟨hbefore, hafter⟩
  cases leaf with
  | object entries line => cases hcoerced
  | array items line => cases hcoerced
  | string v line =>
    obtain rfl := Option.some.inj hcoerced
    have hvalue : Clear value := by
      by_contra hnot
      have hincludes : includes value redactedSentinel = true := by
        rw [← Bool.not_eq_false, includes_sentinel]
        exact hnot
      rw [guardValue, guardSentinel, if_pos hincludes] at hguard
      cases hguard
    have hquote : quote ∉ redactedSentinel := not_mem_sentinel (by decide) (by decide)
    have hescape := (clear_escapeUnits value []).2 hvalue
    refine ⟨jsonString value, rfl, fun before after hbefore hafter => ?_⟩
    have hsplit : before ++ (jsonString value ++ after) =
        before ++ quote :: (escapeUnits value ++ quote :: after) := by
      unfold jsonString
      simp only [List.append_assoc, List.cons_append, List.nil_append]
    rw [hsplit, clear_cut hquote, clear_cut hquote]
    exact ⟨hbefore, hescape, hafter⟩
  | number v line =>
    by_cases hfinite : J.isFinite (J.number value) = true
    · simp only [coerceJsoncLeaf, if_pos hfinite] at hcoerced
      obtain rfl := Option.some.inj hcoerced
      obtain ⟨hne, hnumeral⟩ := J.text_finite _ hfinite
      have hletter : ∀ c ∈ redactedSentinel, isNumeral c = false := by decide +kernel
      refine ⟨J.text (J.number value), if_pos hfinite, hwords hne fun c hc hmem => ?_⟩
      have hboth := hnumeral c hc
      rw [hletter c hmem] at hboth
      cases hboth
    · simp only [coerceJsoncLeaf, if_neg hfinite] at hcoerced
      cases hcoerced
  | boolean v line =>
    by_cases htrue : value = utf16 "true"
    · rw [coerceJsoncLeaf, if_pos htrue] at hcoerced
      obtain rfl := Option.some.inj hcoerced
      obtain ⟨hne, hapart⟩ := clear_words (utf16 "true") (by decide)
      exact ⟨utf16 "true", rfl, hwords hne hapart⟩
    · by_cases hfalse : value = utf16 "false"
      · rw [coerceJsoncLeaf, if_neg htrue, if_pos hfalse] at hcoerced
        obtain rfl := Option.some.inj hcoerced
        obtain ⟨hne, hapart⟩ := clear_words (utf16 "false") (by decide)
        exact ⟨utf16 "false", rfl, hwords hne hapart⟩
      · rw [coerceJsoncLeaf, if_neg htrue, if_neg hfalse] at hcoerced
        cases hcoerced
  | null line =>
    by_cases hnull : value = utf16 "null"
    · rw [coerceJsoncLeaf, if_pos hnull] at hcoerced
      obtain rfl := Option.some.inj hcoerced
      obtain ⟨hne, hapart⟩ := clear_words (utf16 "null") (by decide)
      exact ⟨utf16 "null", rfl, hwords hne hapart⟩
    · rw [coerceJsoncLeaf, if_neg hnull] at hcoerced
      cases hcoerced

theorem keeps_setJsoncOcPath {P : JsoncParser J.Num} (htext : ast.OfText P) (hraw : Clear ast.raw)
    {leaf coerced : JsoncValue J.Num} {value : Units}
    (hcoerced : coerceJsoncLeaf J value leaf = some coerced) (path : OcPath) :
    Keeps JsoncAst.raw (setJsoncOcPath J P ast path coerced) := by
  unfold setJsoncOcPath
  cases hroot : ast.root? with
  | none => exact (keeps_refuse _).2 trivial
  | some root =>
    cases hsegments : pathSegments path with
    | error e => exact (keeps_thrown e).2 trivial
    | ok segments =>
      simp only [bind, Except.bind]
      cases hresolved : resolveEditSegments J root segments with
      | none => exact (keeps_refuse _).2 trivial
      | some located =>
        simp only
        generalize ocScheme ++ path.file ++ _ = guardPath
        cases hguard : guardValue guardPath coerced with
        | error e => exact (keeps_thrown e).2 trivial
        | ok u =>
          obtain ⟨text, htextOf, hjoins⟩ := clear_scalar hcoerced hguard
          obtain ⟨before, old, after, hsplit, hmodify⟩ :=
            htext root located hroot (locate_resolved hresolved)
          have hnext := hmodify _ text htextOf
          have hbefore : Clear before := hraw.of_infix ⟨[], old ++ after, by rw [hsplit]; rfl⟩
          have hafter : Clear after :=
            hraw.of_infix ⟨before ++ old, [], by rw [hsplit]; simp⟩
          simp only [hnext]
          split_ifs with hparsed
          · exact (keeps_refuse _).2 trivial
          · exact (keeps_written _).2 (hjoins before after hbefore hafter)

/-- **An edit of a leaf of JSON with comments is guarded.** -/
theorem keeps_setJsoncLeaf {P : JsoncParser J.Num} (htext : ast.OfText P) (hraw : Clear ast.raw)
    (path : OcPath) (value : Units) : Keeps JsoncAst.raw (setJsoncLeaf J P ast path value) := by
  unfold setJsoncLeaf
  cases hresolve : resolveJsoncOcPath J ast path with
  | error e => exact (keeps_thrown e).2 trivial
  | ok existing =>
    simp only [bind, Except.bind]
    unfold setStructuredLeaf
    split
    next => exact (keeps_refuse _).2 trivial
    next => exact (keeps_refuseWith _ _).2 trivial
    next => exact (keeps_refuse _).2 trivial
    next leaf hleaf =>
      cases hcoerced : coerceJsoncLeaf J value leaf with
      | none => exact (keeps_refuseWith _ _).2 trivial
      | some coerced => exact keeps_setJsoncOcPath htext hraw hcoerced path

end Jsonc

section Jsonl

variable {J : Js} {ast : JsonlAst J.Num}

def JsonlInsertionClear (J : Js) (ast : JsonlAst J.Num) (info : InsertionInfo) (value : Units) :
    Prop :=
  ∀ parsed, info.parentPath.section? = none → info.marker = .last →
    J.parseJson value = some parsed →
    Renders (ast.lines.flatMap JsonlLine.strings ++ (jsonToJsoncValue parsed).strings)
      (ast.lines.flatMap JsonlLine.texts ++ (jsonToJsoncValue parsed).keys)

theorem keeps_appendJsonlOcPath (value : JsoncValue J.Num) :
    Keeps JsonlAst.raw (do let ast ← appendJsonlOcPath J ast value; written ast) ↔
      Renders (ast.lines.flatMap JsonlLine.strings ++ value.strings)
        (ast.lines.flatMap JsonlLine.texts ++ value.keys) := by
  have hlines : ∀ {f : JsonlLine J.Num → List Units} (line : JsonlLine J.Num),
      (ast.lines ++ [line]).flatMap f = ast.lines.flatMap f ++ f line := by
    intro f line
    rw [List.flatMap_append, List.flatMap_singleton]
  have hemits := emitJsonl_emits { ast with
    raw := []
    lines := ast.lines ++ [.value (((ast.lines.getLast?.map JsonlLine.line).getD 0) + 1) value []] }
    none
  rw [hlines, hlines] at hemits
  unfold appendJsonlOcPath
  rw [bind_assoc]
  exact keeps_emits hemits fun t => rfl

theorem keeps_setJsonlInsertion (info : InsertionInfo) (value : Units) :
    Keeps JsonlAst.raw (setJsonlInsertion J ast info value) ↔
      JsonlInsertionClear J ast info value := by
  unfold setJsonlInsertion
  constructor
  · intro h parsed hsection hmarker hparsed
    have hcan : ¬(info.parentPath.section?.isSome = true ∨ info.marker ≠ .last) := by
      simp [hsection, hmarker]
    rw [if_neg hcan] at h
    simp only [hparsed] at h
    exact (keeps_appendJsonlOcPath _).1 h
  · intro h
    split_ifs with hcan
    · exact (keeps_refuseWith _ _).2 trivial
    · rw [not_or, not_not, Option.isSome_iff_ne_none, not_not] at hcan
      cases hparsed : J.parseJson value with
      | none => exact (keeps_refuseWith _ _).2 trivial
      | some parsed => exact (keeps_appendJsonlOcPath _).2 (h parsed hcan.1 hcan.2 hparsed)

def replacedValue (J : Js) (path : OcPath) (newValue old : JsoncValue J.Num) :
    Except Thrown (Option (JsoncValue J.Num)) :=
  if path.item? = none ∧ path.field? = none then .ok (some newValue)
  else do
    let segments ← pathSubs { path with section? := none }
    return replaceAt J newValue old segments

/-- When a new value in a line writes nothing with the sentinel: no key has it, be it of the new
value or of the lines with a hole in place of the old one, and no line that is left as it is. -/
def JsonlSetClear (J : Js) (ast : JsonlAst J.Num) (path : OcPath) (newValue : JsoncValue J.Num) :
    Prop :=
  ∀ head idx line old raw hole, path.section? = some head → pickLineIndex ast head = some idx →
    ast.lines[idx]? = some (.value line old raw) →
    replacedValue J path (.null none) old = .ok (some hole) →
    let lines := ast.lines.set idx (.value line hole raw)
    Renders (lines.flatMap JsonlLine.strings ++ newValue.strings)
      (lines.flatMap JsonlLine.texts ++ newValue.keys)

theorem mem_texts_replacedValue {path : OcPath} {a old ra : JsoncValue J.Num}
    (h : replacedValue J path a old = .ok (some ra)) (b : JsoncValue J.Num) :
    ∃ rb, replacedValue J path b old = .ok (some rb) ∧ ∀ ofKey ofString t,
      t ∈ ra.texts ofKey ofString ∨ t ∈ b.texts ofKey ofString ↔
        t ∈ rb.texts ofKey ofString ∨ t ∈ a.texts ofKey ofString := by
  unfold replacedValue at h ⊢
  split_ifs at h ⊢ with hwhole
  · obtain rfl := Option.some.inj (Except.ok.inj h)
    exact ⟨b, rfl, fun ofKey ofString t => or_comm⟩
  · cases hsegments : pathSubs { path with section? := none } with
    | error e =>
      rw [hsegments] at h
      cases h
    | ok segments =>
      rw [hsegments] at h
      obtain ⟨rb, hrb, htexts⟩ := mem_texts_replaceAt (Except.ok.inj h) b
      exact ⟨rb, congrArg Except.ok hrb, htexts⟩

theorem renders_filled {hole newValue replaced : JsoncValue J.Num}
    (h : ∀ ofKey ofString t, t ∈ replaced.texts ofKey ofString ↔
      t ∈ hole.texts ofKey ofString ∨ t ∈ newValue.texts ofKey ofString)
    {idx : ℕ} (hlt : idx < ast.lines.length) (line : ℕ) (raw : Units) :
    Renders ((ast.lines.set idx (.value line replaced raw)).flatMap JsonlLine.strings)
        ((ast.lines.set idx (.value line replaced raw)).flatMap JsonlLine.texts) ↔
      Renders ((ast.lines.set idx (.value line hole raw)).flatMap JsonlLine.strings ++ newValue.strings)
        ((ast.lines.set idx (.value line hole raw)).flatMap JsonlLine.texts ++ newValue.keys) := by
  refine renders_congr (fun t => ?_) fun t => ?_
  · rw [List.mem_append, List.mem_flatMap, List.mem_flatMap, exists_mem_set_iff hlt,
      exists_mem_set_iff hlt, or_right_comm]
    exact or_congr_left (h noTexts oneText t)
  · rw [List.mem_append, List.mem_flatMap, List.mem_flatMap, exists_mem_set_iff hlt,
      exists_mem_set_iff hlt, or_right_comm]
    exact or_congr_left (h oneText noTexts t)

theorem keeps_finalizeLine (idx : ℕ) (line : JsonlLine J.Num) (file : Units) :
    Keeps JsonlAst.raw (finalizeLine J ast idx line file) ↔
      Renders ((ast.lines.set idx line).flatMap JsonlLine.strings)
        ((ast.lines.set idx line).flatMap JsonlLine.texts) := by
  unfold finalizeLine
  exact keeps_emits (emitJsonl_emits { ast with raw := [], lines := ast.lines.set idx line } (some file))
    fun t => rfl

theorem not_mem_texts_null {ofKey ofString : Units → List Units} {t : Units} :
    t ∉ (JsoncValue.null none : JsoncValue J.Num).texts ofKey ofString := by
  simp [JsoncValue.texts]

theorem setJsonlOcPath_value {path : OcPath} {head : Units} {idx line : ℕ}
    {old newValue : JsoncValue J.Num} {raw : Units} (hhead : path.section? = some head)
    (hidx : pickLineIndex ast head = some idx) (hline : ast.lines[idx]? = some (.value line old raw)) :
    setJsonlOcPath J ast path newValue = (do
      match ← replacedValue J path newValue old with
      | none => refuse .unresolved
      | some replaced => finalizeLine J ast idx (.value line replaced raw) path.file) := by
  unfold setJsonlOcPath replacedValue
  simp only [hhead, hidx, hline]
  split_ifs with hwhole
  · rfl
  · rw [bind_assoc]
    rfl

theorem keeps_setJsonlOcPath (path : OcPath) (newValue : JsoncValue J.Num) :
    Keeps JsonlAst.raw (setJsonlOcPath J ast path newValue) ↔ JsonlSetClear J ast path newValue := by
  constructor
  · intro h head idx line old raw hole hhead hidx hline hhole
    obtain ⟨hlt, -⟩ := List.getElem?_eq_some_iff.1 hline
    obtain ⟨replaced, hreplaced, htexts⟩ := mem_texts_replacedValue hhole newValue
    have hfilled : ∀ ofKey ofString t, t ∈ replaced.texts ofKey ofString ↔
        t ∈ hole.texts ofKey ofString ∨ t ∈ newValue.texts ofKey ofString := by
      intro ofKey ofString t
      rw [htexts, or_iff_left not_mem_texts_null]
    rw [setJsonlOcPath_value hhead hidx hline, hreplaced] at h
    exact (renders_filled hfilled hlt line raw).1 ((keeps_finalizeLine idx _ path.file).1 h)
  · intro h
    by_cases hplace : ∃ head idx line old raw, path.section? = some head ∧
        pickLineIndex ast head = some idx ∧ ast.lines[idx]? = some (.value line old raw)
    · obtain ⟨head, idx, line, old, raw, hhead, hidx, hline⟩ := hplace
      obtain ⟨hlt, -⟩ := List.getElem?_eq_some_iff.1 hline
      rw [setJsonlOcPath_value hhead hidx hline]
      cases hreplaced : replacedValue J path newValue old with
      | error e => exact (keeps_thrown e).2 trivial
      | ok replaced? =>
        cases replaced? with
        | none => exact (keeps_refuse _).2 trivial
        | some replaced =>
          obtain ⟨hole, hhole, htexts⟩ := mem_texts_replacedValue hreplaced (.null none)
          have hfilled : ∀ ofKey ofString t, t ∈ replaced.texts ofKey ofString ↔
              t ∈ hole.texts ofKey ofString ∨ t ∈ newValue.texts ofKey ofString := by
            intro ofKey ofString t
            rw [← htexts, or_iff_left not_mem_texts_null]
          have hclear := h head idx line old raw hole hhead hidx hline hhole
          exact (keeps_finalizeLine idx _ path.file).2
            ((renders_filled hfilled hlt line raw).2 hclear)
    · -- without a value line at the place nothing is written
      unfold setJsonlOcPath
      split
      next => exact (keeps_refuse _).2 trivial
      next head hhead =>
        split
        next => exact (keeps_refuse _).2 trivial
        next idx hidx =>
          split
          next => exact (keeps_refuse _).2 trivial
          next line old raw hline =>
            exact absurd ⟨head, idx, line, old, raw, hhead, hidx, hline⟩ hplace
          next => exact (keeps_refuse _).2 trivial

/-- When an edit of JSON lines writes nothing with the sentinel: no key and no line that is left
as it is has it. -/
def JsonlEditClear (J : Js) (ast : JsonlAst J.Num) (path : OcPath) (value : Units) : Prop :=
  ∀ m, resolveJsonlOcPath J ast path = .ok (some m) →
    (m.leaf = .line → ∀ parsed, J.parseJson value = some parsed →
      JsonlSetClear J ast path (jsonToJsoncValue parsed)) ∧
    ∀ leaf coerced, m.leaf = .leaf leaf → coerceJsoncLeaf J value leaf = some coerced →
      JsonlSetClear J ast path coerced

theorem keeps_setJsonlLeaf (path : OcPath) (value : Units) :
    Keeps JsonlAst.raw (setJsonlLeaf J ast path value) ↔ JsonlEditClear J ast path value := by
  unfold setJsonlLeaf
  constructor
  · intro h m hresolve
    rw [hresolve] at h
    simp only [bind, Except.bind, Option.map_some] at h
    constructor
    · intro hleaf parsed hparsed
      rw [hleaf] at h
      simp only [setStructuredLeaf, hparsed] at h
      exact (keeps_setJsonlOcPath path _).1 h
    · intro leaf coerced hleaf hcoerced
      rw [hleaf] at h
      simp only [setStructuredLeaf, hcoerced] at h
      exact (keeps_setJsonlOcPath path _).1 h
  · intro h
    cases hresolve : resolveJsonlOcPath J ast path with
    | error e => exact (keeps_thrown e).2 trivial
    | ok existing =>
      cases existing with
      | none => exact (keeps_refuse _).2 trivial
      | some m =>
        obtain ⟨hwhole, hpart⟩ := h m hresolve
        simp only [bind, Except.bind, Option.map_some]
        cases hleaf : m.leaf with
        | root => exact (keeps_refuseWith _ _).2 trivial
        | line =>
          simp only [setStructuredLeaf]
          cases hparsed : J.parseJson value with
          | none => exact (keeps_refuseWith _ _).2 trivial
          | some parsed => exact (keeps_setJsonlOcPath path _).2 (hwhole hleaf parsed hparsed)
        | leaf leaf =>
          simp only [setStructuredLeaf]
          cases hcoerced : coerceJsoncLeaf J value leaf with
          | none => exact (keeps_refuseWith _ _).2 trivial
          | some coerced =>
            exact (keeps_setJsonlOcPath path _).2 (hpart leaf coerced hleaf hcoerced)

end Jsonl

section Every

variable {J : Js} {P : JsoncParser J.Num}

theorem keeps_lift {A B : Type} {raw : A → Units} {rawOf : B → Units} {f : A → B}
    (hf : ∀ a, rawOf (f a) = raw a) (r : Except Thrown (Edited A)) :
    Keeps rawOf (lift f r) ↔ Keeps raw r := by
  rcases r with e | refusal | ast
  · exact (keeps_thrown e).trans (keeps_thrown e).symm
  · exact ⟨fun _ ast' h => (by cases h), fun _ ast' h => (by cases h)⟩
  · have hwritten : Keeps raw (written ast) ↔ Clear (raw ast) := keeps_written ast
    have hlifted : Keeps rawOf (written (f ast)) ↔ Clear (rawOf (f ast)) := keeps_written (f ast)
    rw [hf] at hlifted
    exact hlifted.trans hwritten.symm

def OcAst.OfText (P : JsoncParser J.Num) : OcAst J.Num → Prop
  | .jsonc ast => ast.OfText P
  | _ => True

def EditClear (J : Js) (ast : OcAst J.Num) (path : OcPath) (value : Units) : Prop :=
  isPattern path = .ok false →
    match detectInsertion path, ast with
    | some info, .md ast => MdInsertionClear J ast info value
    | some info, .jsonc ast => JsoncInsertionClear J ast info value
    | some info, .jsonl ast => JsonlInsertionClear J ast info value
    | none, .md ast =>
      ∀ formatted, formatOcPath path = .ok formatted → Clear value → MdEditClear J ast path value
    | none, .jsonc _ => True
    | none, .jsonl ast => JsonlEditClear J ast path value

/-- **When an edit puts no redaction sentinel in a file without one.** -/
theorem neverIntroduced_iff (ast : OcAst J.Num) (path : OcPath) (value : Units)
    (hraw : Clear ast.raw) (htext : ast.OfText P) :
    (∀ ast', setOcPath J P ast path value = .ok (.ok ast') → Clear ast'.raw) ↔
      EditClear J ast path value := by
  show Keeps OcAst.raw (setOcPath J P ast path value) ↔ _
  unfold setOcPath EditClear
  cases hpattern : isPattern path with
  | error e =>
    refine (keeps_thrown e).trans (iff_true_intro ?_).symm
    intro h
    cases h
  | ok pattern =>
    cases pattern with
    | true =>
      refine (keeps_refuseWith _ _).trans (iff_true_intro ?_).symm
      intro h
      cases h
    | false =>
      simp only [bind, Except.bind, Bool.false_eq_true, if_false, true_implies]
      cases hinsertion : detectInsertion path with
      | none =>
        cases ast with
        | md ast => exact (keeps_lift (fun _ => rfl) _).trans (keeps_setMdOcPath path)
        | jsonc ast =>
          refine (keeps_lift (fun _ => rfl) _).trans (iff_true_intro ?_)
          exact keeps_setJsoncLeaf htext hraw path value
        | jsonl ast => exact (keeps_lift (fun _ => rfl) _).trans (keeps_setJsonlLeaf path value)
      | some info =>
        cases ast with
        | md ast => exact (keeps_lift (fun _ => rfl) _).trans (keeps_setMdInsertion info)
        | jsonc ast => exact (keeps_lift (fun _ => rfl) _).trans (keeps_setJsoncInsertion info value)
        | jsonl ast => exact (keeps_lift (fun _ => rfl) _).trans (keeps_setJsonlInsertion info value)

end Every

/-- The tree of `{"a":"b"}`, or of what comes from an edit of it. -/
def pairParser : JsoncParser plainJs.Num where
  parseTree text :=
    let value := (text.drop 6).dropLast.dropLast
    (some (.object 0 text.length [⟨1, utf16 "a", some (.string 5 (value.length + 2) value)⟩]), [])
  modify _ segments v := (scalarText plainJs v).map fun text =>
    if segments = [] then text else utf16 "\x7b\"a\":" ++ (text ++ utf16 "\x7d")

def pairAst : JsoncAst plainJs.Num where
  raw := utf16 "\x7b\"a\":\"b\"\x7d"
  root? := some (.object [⟨utf16 "a", .string (utf16 "b") (some 1), 1⟩] (some 1))

theorem pairAst_ofText : pairAst.OfText pairParser := by
  intro root segments hroot hlocated
  obtain rfl := Option.some.inj hroot
  cases segments with
  | nil =>
    refine ⟨[], pairAst.raw, [], by simp, fun v text htext => ?_⟩
    rw [List.append_nil]
    exact congrArg (Option.map _) htext
  | cons segment segments =>
    refine ⟨utf16 "\x7b\"a\":", utf16 "\"b\"", utf16 "\x7d", by decide +kernel, ?_⟩
    intro v text htext
    exact congrArg (Option.map _) htext

theorem pair_neverIntroduced :
    (∀ ast', setOcPath plainJs pairParser (.jsonc pairAst) ⟨utf16 "x.jsonc", some (utf16 "a"), none,
        none, none⟩ (utf16 "c") = .ok (.ok ast') → Clear ast'.raw) ↔
      EditClear plainJs (.jsonc pairAst) ⟨utf16 "x.jsonc", some (utf16 "a"), none, none, none⟩
        (utf16 "c") :=
  neverIntroduced_iff (.jsonc pairAst) _ _ (by decide +kernel) pairAst_ofText

theorem heading_introduces_sentinel :
    ¬∀ (J : Js) (P : JsoncParser J.Num) (ast : OcAst J.Num) (path : OcPath) (value : Units),
      Clear ast.raw → ast.OfText P →
        ∀ ast', setOcPath J P ast path value = .ok (.ok ast') → Clear ast'.raw := by
  intro h
  have hkeeps : Keeps OcAst.raw (setOcPath plainJs pairParser (.md ⟨[], [], [], []⟩)
      ⟨utf16 "X.md", some (utf16 "+"), none, none, none⟩ redactedSentinel) :=
    h plainJs pairParser _ _ _ clear_nil trivial
  have hset : setOcPath plainJs pairParser (.md ⟨[], [], [], []⟩)
      ⟨utf16 "X.md", some (utf16 "+"), none, none, none⟩ redactedSentinel =
        lift .md (setMdInsertion plainJs ⟨[], [], [], []⟩
          ⟨⟨utf16 "X.md", none, none, none, none⟩, .last⟩ redactedSentinel) := by
    rfl
  rw [hset] at hkeeps
  have hlifted : Keeps MdAst.raw _ := (keeps_lift (by intro ast; rfl) _).1 hkeeps
  have hinserted := (keeps_setMdInsertion _).1 hlifted
  exact hinserted.2 (List.infix_refl redactedSentinel)

end ClawHarder.OcPaths
