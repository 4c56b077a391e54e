import ClawHarder.Proof.CanonicalJson
import ClawHarder.Spec.Strategies

/-!
# Which facts share an identity key

* `keys_and_canonical_json_iff`: **the condition under which keys and canonical JSON do not
  collide.**
-/

namespace ClawHarder.Strategies

section Joined

variable {s : Char}

theorem toList_joined_pair (a b : String) :
    (joined s [a, b]).toList = a.toList ++ s :: b.toList := by
  unfold joined
  rw [String.toList_intercalate]
  simp [List.intercalate]

theorem joined_singleton (a : String) : joined s [a] = a := by
  apply String.toList_inj.1
  unfold joined
  rw [String.toList_intercalate]
  simp [List.intercalate]

theorem joined_inj_right {a b c : String} (h : joined s [a, b] = joined s [a, c]) : b = c := by
  have hlist := congrArg String.toList h
  rw [toList_joined_pair, toList_joined_pair] at hlist
  exact String.toList_inj.1 (List.cons.inj (List.append_cancel_left hlist)).2

theorem joined_right (a m b : String) :
    joined s [joined s [a, m], b] = joined s [a, joined s [m, b]] := by
  apply String.toList_inj.1
  simp only [toList_joined_pair, List.append_assoc, List.cons_append]

theorem joined_ne (a b : String) : joined s [a, b] ≠ a := by
  intro heq
  have hlength := congrArg (fun t : String => t.toList.length) heq
  rw [toList_joined_pair, List.length_append, List.length_cons] at hlength
  omega

theorem joined_of_shifted {ps qs : List String} (h : Shifted s ps qs) :
    joined s ps = joined s qs ∧ ps ≠ qs := by
  cases h with
  | right a m b =>
    exact ⟨joined_right a m b, fun heq => joined_ne a m (List.cons.inj heq).1⟩
  | left a m b =>
    exact ⟨(joined_right a m b).symm, fun heq => joined_ne a m (List.cons.inj heq).1.symm⟩
  | merged a b => exact ⟨joined_singleton _, fun heq => by simpa using congrArg List.length heq⟩
  | cut a b =>
    exact ⟨(joined_singleton _).symm, fun heq => by simpa using congrArg List.length heq⟩

theorem joined_pair_eq_iff (a b c d : String) :
    joined s [a, b] = joined s [c, d] ↔ [a, b] = [c, d] ∨ Shifted s [a, b] [c, d] := by
  constructor
  · intro heq
    have hlist := congrArg String.toList heq
    rw [toList_joined_pair, toList_joined_pair, List.append_eq_append_iff] at hlist
    rcases hlist with ⟨m, hc, hb⟩ | ⟨m, ha, hd⟩
    · cases m with
      | nil =>
        obtain rfl : a = c := String.toList_inj.1 (by simpa using hc.symm)
        obtain rfl : b = d := String.toList_inj.1 (by simpa using hb)
        exact .inl rfl
      | cons x m =>
        rw [List.cons_append, List.cons.injEq] at hb
        obtain ⟨rfl, hb⟩ := hb
        obtain rfl : joined s [a, String.ofList m] = c := by
          apply String.toList_inj.1
          rw [toList_joined_pair, String.toList_ofList, hc]
        obtain rfl : joined s [String.ofList m, d] = b := by
          apply String.toList_inj.1
          rw [toList_joined_pair, String.toList_ofList, hb]
        exact .inr (.left a (String.ofList m) d)
    · cases m with
      | nil =>
        obtain rfl : a = c := String.toList_inj.1 (by simpa using ha)
        obtain rfl : b = d := String.toList_inj.1 (by simpa using hd.symm)
        exact .inl rfl
      | cons x m =>
        rw [List.cons_append, List.cons.injEq] at hd
        obtain ⟨rfl, hd⟩ := hd
        obtain rfl : joined s [c, String.ofList m] = a := by
          apply String.toList_inj.1
          rw [toList_joined_pair, String.toList_ofList, ha]
        obtain rfl : joined s [String.ofList m, b] = d := by
          apply String.toList_inj.1
          rw [toList_joined_pair, String.toList_ofList, hd]
        exact .inr (.right c (String.ofList m) b)
  · rintro (heq | hshift)
    · rw [heq]
    · exact (joined_of_shifted hshift).1

/-- **One or two texts are told apart by their join, unless they are shifted.** -/
theorem joined_eq_iff {ps qs : List String} (hp : ps.length = 1 ∨ ps.length = 2)
    (hq : qs.length = 1 ∨ qs.length = 2) :
    joined s ps = joined s qs ↔ ps = qs ∨ Shifted s ps qs := by
  refine ⟨fun heq => ?_, fun h => h.elim (fun h => h ▸ rfl) fun h => (joined_of_shifted h).1⟩
  rcases hp with hp | hp
  · obtain ⟨a, rfl⟩ := List.length_eq_one_iff.1 hp
    rw [joined_singleton] at heq
    subst heq
    rcases hq with hq | hq
    · obtain ⟨c, rfl⟩ := List.length_eq_one_iff.1 hq
      exact .inl (by rw [joined_singleton])
    · obtain ⟨c, d, rfl⟩ := List.length_eq_two.1 hq
      exact .inr (.merged c d)
  · obtain ⟨a, b, rfl⟩ := List.length_eq_two.1 hp
    rcases hq with hq | hq
    · obtain ⟨c, rfl⟩ := List.length_eq_one_iff.1 hq
      rw [joined_singleton] at heq
      subst heq
      exact .inr (.cut a b)
    · obtain ⟨c, d, rfl⟩ := List.length_eq_two.1 hq
      exact (joined_pair_eq_iff a b c d).1 heq

end Joined

section Keys

variable {N : Type} [JsNumber N] {lower : String → String} {E : Env N} {x y : FactContent N}

theorem first_ne_empty {candidates : List (Option (Json N))} {t : String}
    (h : first lower candidates = some t) : t ≠ "" := by
  induction candidates with
  | nil =>
    obtain rfl : "unknown" = t := Option.some.inj h
    decide
  | cons c candidates ih =>
    rw [first, Option.bind_eq_bind, Option.bind_eq_some_iff] at h
    obtain ⟨n, -, h⟩ := h
    split at h
    · exact ih h
    · rename_i hne
      obtain rfl : n = t := Option.some.inj h
      exact hne

theorem service_eq (value : List (String × Json N)) :
    service lower value = serviceFields.strategy lower value := by
  unfold service Rule.strategy Rule.fields serviceFields
  simp only [List.mapM_cons, List.mapM_nil, Option.bind_eq_bind, Option.pure_def]
  cases hname : first lower
      ((members ["name", "service_name", "id"]).map (Candidate.get value)) with
  | none => rfl
  | some name =>
    cases hendpoint : first lower
        ((members ["endpoint", "host", "url", "provider_id"] ++ [Candidate.text ""]).map
          (Candidate.get value)) with
    | none => rfl
    | some endpoint =>
      have hne := first_ne_empty hendpoint
      simp only [Option.bind_some, Option.map_some, if_pos hne, Option.some.injEq]
      apply String.toList_inj.1
      simp [toList_joined_pair]

def Identity.text (E : Env N) (type : String) (i : Identity N) : String :=
  joined (separatorOf type) (i.parts E)

theorem key_of_lookup {strategy : List (String × Json N) → Option String}
    (hlookup : (registry lower E).lookup x.type = some strategy) :
    key lower E x = (strategy x.value).getD
      (x.type ++ ":" ++ shortHash E (canonicalJson (.obj x.value))) := by
  unfold key deriveIdentityKey withRegistry
  simp only [hlookup]
  rfl

theorem key_of_rule {r : Rule} (hx : x.type = r.type)
    (hlookup : (registry lower E).lookup r.type = some (r.strategy lower))
    (hfind : rules.find? (·.type = r.type) = some r) (hevent : r.type ≠ "event")
    (hseparator : separatorOf r.type = r.separator) :
    key lower E x = x.type ++ ":" ++ (identify lower x).text E x.type := by
  have hidentify : identify lower x =
      (r.fields lower x.value).elim (.whole [] x.value) .fields := by
    unfold identify
    rw [hx, if_neg hevent]
    generalize rules.find? (·.type = r.type) = found at hfind ⊢
    subst hfind
    cases h : r.fields lower x.value <;> simp only [h] <;> rfl
  rw [key_of_lookup (hx ▸ hlookup), hidentify, Rule.strategy, Identity.text]
  cases r.fields lower x.value with
  | none => simp [Identity.parts, joined_singleton]
  | some texts => simp [Identity.parts, hx, hseparator]

theorem key_of_event (hx : x.type = "event") :
    key lower E x = x.type ++ ":" ++ (identify lower x).text E x.type := by
  have hlookup : (registry lower E).lookup x.type = some (event lower E) := by
    rw [hx]
    simp [registry, List.lookup_cons]
  have hseparator : separatorOf x.type = ':' := by
    rw [hx]
    decide
  have hidentify : identify lower x = identifyEvent lower x.value := if_pos hx
  rw [key_of_lookup hlookup, hidentify, Identity.text, hseparator, event, identifyEvent]
  cases hid : eventId lower x.value with
  | none => simp [Identity.parts, joined_singleton]
  | some id =>
    cases hkind : eventKind lower x.value with
    | none => simp [Identity.parts, joined_singleton]
    | some kind =>
      by_cases hempty : id = ""
      · apply String.toList_inj.1
        simp [Identity.parts, hempty, toList_joined_pair, hx]
      · apply String.toList_inj.1
        simp [Identity.parts, hempty, toList_joined_pair, hx]

theorem key_of_other (hx : x.type ∉ coreTypes) :
    key lower E x = x.type ++ ":" ++ (identify lower x).text E x.type := by
  have hlookup : (registry lower E).lookup x.type = none := by
    rw [List.lookup_eq_none_iff]
    intro e he
    have hcore : e.1 ∈ coreTypes := by
      have hall : ((registry lower E).map Prod.fst).all (· ∈ coreTypes) = true := by
        simp only [registry, List.map_cons, List.map_nil]
        decide
      simpa using List.all_eq_true.1 hall e.1 (List.mem_map_of_mem he)
    simpa using fun heq : x.type = e.1 => hx (heq ▸ hcore)
  have hidentify : identify lower x = .whole [] x.value := by
    have hfind : rules.find? (·.type = x.type) = none := by
      rw [List.find?_eq_none]
      intro r hr
      simpa using fun heq : r.type = x.type =>
        hx (heq ▸ List.mem_cons_of_mem _ (List.mem_map_of_mem hr))
    unfold identify
    have hevent : x.type ≠ "event" := fun heq => hx (by rw [heq]; exact List.mem_cons_self)
    rw [if_neg hevent, hfind]
  rw [hidentify, Identity.text, Identity.parts, List.nil_append, joined_singleton]
  unfold key deriveIdentityKey withRegistry
  simp only [hlookup]
  rfl

theorem registered {r : Rule} (hr : r ∈ rules) :
    (registry lower E).lookup r.type = some (r.strategy lower) ∧
      rules.find? (·.type = r.type) = some r ∧ r.type ≠ "event" ∧
      separatorOf r.type = r.separator := by
  have hservice : service lower = serviceFields.strategy (N := N) lower := funext service_eq
  simp only [rules, List.mem_cons, List.not_mem_nil, or_false] at hr
  unfold registry
  rw [hservice]
  rcases hr with rfl | rfl | rfl | rfl | rfl | rfl | rfl | rfl <;>
    exact ⟨rfl, rfl, by decide, by decide⟩

/-- **A key is the type and the text of the identity.** -/
theorem key_eq (x : FactContent N) :
    key lower E x = x.type ++ ":" ++ (identify lower x).text E x.type := by
  by_cases hx : x.type ∈ coreTypes
  · rcases List.mem_cons.1 hx with hevent | hrule
    · exact key_of_event hevent
    · obtain ⟨r, hr, hx⟩ := List.mem_map.1 hrule
      have hregistered : (registry lower E).lookup r.type = some (r.strategy lower) ∧ _ :=
        registered hr
      obtain ⟨hlookup, hfind, hevent, hseparator⟩ := hregistered
      exact key_of_rule hx.symm hlookup hfind hevent hseparator
  · exact key_of_other hx

theorem length_mapM {α β : Type} {f : α → Option β} {as : List α} {bs : List β}
    (h : as.mapM f = some bs) : bs.length = as.length := by
  induction as generalizing bs with
  | nil =>
    obtain rfl : [] = bs := Option.some.inj h
    rfl
  | cons a as ih =>
    simp only [List.mapM_cons, Option.bind_eq_bind, Option.bind_eq_some_iff, Option.pure_def,
      Option.some.injEq] at h
    obtain ⟨b, -, rest, hrest, rfl⟩ := h
    rw [List.length_cons, List.length_cons, ih hrest]

theorem length_parts (x : FactContent N) :
    ((identify lower x).parts E).length = 1 ∨ ((identify lower x).parts E).length = 2 := by
  unfold identify
  split
  · unfold identifyEvent
    split
    · split
      · exact .inr rfl
      · exact .inr rfl
    · exact .inl rfl
  · split
    · exact .inl rfl
    · rename_i r hfind
      have hr : r.parts.length = 1 ∨ r.parts.length = 2 := by
        have hmem := List.mem_of_find?_eq_some hfind
        simp only [rules, List.mem_cons, List.not_mem_nil, or_false] at hmem
        rcases hmem with rfl | rfl | rfl | rfl | rfl | rfl | rfl | rfl <;> decide
      split
      · rename_i texts hfields
        rwa [Identity.parts, length_mapM hfields]
      · exact .inl rfl

theorem value_of_whole {texts : List String} {v : List (String × Json N)}
    (h : identify lower x = .whole texts v) : v = x.value := by
  unfold identify at h
  split at h
  · unfold identifyEvent at h
    split at h
    · split at h
      · cases h
      · cases h
        rfl
    · cases h
      rfl
  · split at h
    · cases h
      rfl
    · split at h
      · cases h
      · cases h
        rfl

end Keys

section Collisions

variable {N : Type} [JsonNumber N] {lower : String → String} {E : Env N} {x y : FactContent N}

theorem parts_of_same (h : (identify lower x).Same (identify lower y)) :
    (identify lower x).parts E = (identify lower y).parts E := by
  cases hi : identify lower x with
  | fields texts =>
    cases hj : identify lower y with
    | fields others =>
      rw [hi, hj] at h
      exact h
    | whole others w =>
      rw [hi, hj] at h
      cases h
  | whole texts v =>
    cases hj : identify lower y with
    | fields others =>
      rw [hi, hj] at h
      cases h
    | whole others w =>
      rw [hi, hj] at h
      obtain ⟨rfl, halike⟩ := h
      have hv : Json.Plain (.obj v) := value_of_whole hi ▸ x.plain
      have hw : Json.Plain (.obj w) := value_of_whole hj ▸ y.plain
      have hcanonical : canonicalJson (.obj v) = canonicalJson (.obj w) :=
        (canonicalJson_eq_iff hv hw).2 (halike.mono fun _ h => h.elim)
      rw [Identity.parts, Identity.parts, hcanonical]

/-- **Identities are blurred exactly when they have one text and are not the same.** -/
theorem blurred_iff (s : Char) :
    Blurred E s (identify lower x) (identify lower y) ↔
      joined s ((identify lower x).parts E) = joined s ((identify lower y).parts E) ∧
        ¬(identify lower x).Same (identify lower y) := by
  have hlength : ∀ z : FactContent N, ((identify lower z).parts E).length = 1 ∨
      ((identify lower z).parts E).length = 2 := length_parts
  have hx := hlength x
  have hy := hlength y
  have hsame : (identify lower x).Same (identify lower y) →
      (identify lower x).parts E = (identify lower y).parts E := parts_of_same
  generalize identify lower x = i at *
  generalize identify lower y = j at *
  constructor
  · intro h
    cases h with
    | shifted hshift =>
      obtain ⟨htext, hne⟩ := joined_of_shifted hshift
      exact ⟨htext, fun h => hne (hsame h)⟩
    | spells texts v => exact ⟨rfl, nofun⟩
    | spelled texts v => exact ⟨rfl, nofun⟩
    | clash texts halike hhash =>
      refine ⟨?_, fun h => halike h.2⟩
      rw [Identity.parts, Identity.parts, hhash]
  · rintro ⟨htext, hne⟩
    rcases (joined_eq_iff hx hy).1 htext with hparts | hshift
    · cases i with
      | fields texts =>
        cases j with
        | fields others => exact absurd hparts hne
        | whole others w =>
          obtain rfl : texts = others ++ [shortHash E (canonicalJson (.obj w))] := hparts
          exact .spells others w
      | whole texts v =>
        cases j with
        | fields others =>
          obtain rfl : texts ++ [shortHash E (canonicalJson (.obj v))] = others := hparts
          exact .spelled texts v
        | whole others w =>
          obtain ⟨rfl, hhash⟩ := List.append_inj' hparts rfl
          exact .clash texts (fun halike => hne ⟨rfl, halike⟩) (List.cons.inj hhash).1
    · exact .shifted hshift

theorem key_eq_iff :
    key lower E x = key lower E y ↔
      joined ':' [x.type, (identify lower x).text E x.type] =
        joined ':' [y.type, (identify lower y).text E y.type] := by
  have hjoined : ∀ a b : String, joined ':' [a, b] = a ++ ":" ++ b := by
    intro a b
    apply String.toList_inj.1
    rw [toList_joined_pair, String.toList_append, String.toList_append, List.append_assoc]
    rfl
  rw [key_eq, key_eq, hjoined, hjoined]

/-- **The keys do what the fields do exactly when the facts are not confusable.** -/
theorem keysAgree_iff : KeysAgree lower E x y ↔ ¬Confusable lower E x y := by
  constructor
  · rintro hagree (hshift | ⟨htype, hcore, hblurred⟩)
    · obtain ⟨htext, hne⟩ := joined_of_shifted hshift
      obtain ⟨htype, -⟩ := hagree.same (key_eq_iff.2 htext)
      -- texts that begin alike are not shifted
      rw [htype] at htext hne
      exact hne (by rw [joined_inj_right htext])
    · obtain ⟨htext, hne⟩ := (blurred_iff _).1 hblurred
      have hkey : key lower E x = key lower E y := by
        rw [key_eq, key_eq, Identity.text, htext, htype]
        rfl
      exact hne ((hagree.same hkey).2 hcore)
  · intro hconfusable
    refine ⟨fun hkey => ?_, fun htype hsame => ?_⟩
    · have htype : x.type = y.type := by
        rcases (joined_pair_eq_iff _ _ _ _).1 (key_eq_iff.1 hkey) with heq | hshift
        · exact (List.cons.inj heq).1
        · exact absurd (.types hshift) hconfusable
      refine ⟨htype, fun hcore => ?_⟩
      by_contra hne
      refine hconfusable (.fields htype hcore ((blurred_iff _).2 ⟨?_, hne⟩))
      have htext := key_eq_iff.1 hkey
      rw [htype] at htext ⊢
      exact joined_inj_right htext
    · rw [key_eq, key_eq, Identity.text, Identity.text, parts_of_same hsame, htype]

/-- **The condition under which keys and canonical JSON do not collide.** -/
theorem keys_and_canonical_json_iff (lower : String → String) (E : Env N) (x y : FactContent N)
    (a b : { v : Json N // v.Plain }) :
    KeysAgree lower E x y ∧ CanonicalExact a.1 b.1 ↔
      ¬Confusable lower E x y ∧ ¬DifferInProto a.1 b.1 :=
  and_congr keysAgree_iff (canonicalExact_iff a.2 b.2)

end Collisions

/-- A fact about the scope `a:b`. -/
def nestedScope : FactContent ℚ where
  type := "context"
  value := [("scope", .str "a:b"), ("key", .str "c")]
  plain := .obj (by decide) (by
    simp only [List.mem_cons, List.not_mem_nil, or_false]
    rintro e (rfl | rfl)
    · exact .str _
    · exact .str _)

/-- A fact about the scope `a`. -/
def nestedKey : FactContent ℚ where
  type := "context"
  value := [("scope", .str "a"), ("key", .str "b:c")]
  plain := .obj (by decide) (by
    simp only [List.mem_cons, List.not_mem_nil, or_false]
    rintro e (rfl | rfl)
    · exact .str _
    · exact .str _)

def sampleEnv : Env ℚ where
  strategy _ := none
  sha256 _ := ""
  clock _ := ⟨0, ""⟩
  shortId _ := ""

theorem nested_scope_collides :
    ¬KeysAgree String.toLower sampleEnv nestedScope nestedKey := by
  intro hagree
  have hkey : key String.toLower sampleEnv nestedScope =
      key String.toLower sampleEnv nestedKey := by decide +kernel
  have hsame := (hagree.same hkey).2 (by decide)
  have hparts : (identify String.toLower nestedScope).parts sampleEnv ≠
      (identify String.toLower nestedKey).parts sampleEnv := by decide +kernel
  exact hparts (parts_of_same hsame)

end ClawHarder.Strategies
