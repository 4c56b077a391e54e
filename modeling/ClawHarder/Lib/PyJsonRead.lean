import ClawHarder.Lib.PyJson

/-!
# Reading back what `json.dumps` writes

* `scanOnce_dumps`: **a list or a dictionary is read back in front of any text.**
-/

namespace PyJson

open PyText (lit codePoint)

variable {floatRepr : PyText → PyText}

/-- The induction over the values. -/
theorem induct {motive : PyValue → Prop} (none : motive .none) (bool : ∀ b, motive (.bool b))
    (int : ∀ n, motive (.int n)) (float : ∀ r, motive (.float r)) (str : ∀ s, motive (.str s))
    (list : ∀ items, (∀ v ∈ items, motive v) → motive (.list items))
    (dict : ∀ members, (∀ m ∈ members, motive m.2) → motive (.dict members)) : ∀ v, motive v :=
  @PyValue.rec motive (fun items => ∀ v ∈ items, motive v)
    (fun members => ∀ m ∈ members, motive m.2) (fun m => motive m.2) none bool int float str list
    dict (by simp) (fun _ _ hv hitems => List.forall_mem_cons.2 ⟨hv, hitems⟩) (by simp)
    (fun _ _ hm hmembers => List.forall_mem_cons.2 ⟨hm, hmembers⟩) (fun _ _ hv => hv)

theorem Encodable.items {items : List PyValue} (h : Encodable floatRepr (.list items)) :
    ∀ v ∈ items, Encodable floatRepr v := by
  cases h with
  | list hitems => exact hitems

theorem Encodable.nodup {members : PyDict} (h : Encodable floatRepr (.dict members)) :
    (members.map Prod.fst).Nodup := by
  cases h with
  | dict hnodup _ _ => exact hnodup

theorem Encodable.members {members : PyDict} (h : Encodable floatRepr (.dict members)) :
    (∀ m ∈ members, Unsplit m.1) ∧ ∀ m ∈ members, Encodable floatRepr m.2 := by
  cases h with
  | dict _ hkeys hvalues => exact ⟨hkeys, hvalues⟩

variable {v : PyValue}

theorem set_of_not_mem {k : PyText} {d : PyDict} (hk : k ∉ d.map Prod.fst) :
    PyValue.set k v d = d ++ [(k, v)] := by
  induction d with
  | nil => rfl
  | cons m d ih =>
    rw [List.map_cons, List.mem_cons, not_or] at hk
    rw [PyValue.set, if_neg fun h => hk.1 h.symm, ih hk.2]
    rfl

theorem dictOf_of_nodup {members : PyDict} (h : (members.map Prod.fst).Nodup) :
    dictOf members = members := by
  have hall : ∀ d ms : PyDict, ((d ++ ms).map Prod.fst).Nodup →
      ms.foldl (fun d m => PyValue.set m.1 m.2 d) d = d ++ ms := by
    intro d ms
    induction ms generalizing d with
    | nil => simp
    | cons m ms ih =>
      intro hnodup
      have hout : m.1 ∉ d.map Prod.fst := by
        rw [List.map_append, List.nodup_append] at hnodup
        exact fun hmem => hnodup.2.2 _ hmem _ (List.mem_cons_self ..) rfl
      rw [List.foldl_cons, set_of_not_mem hout, ih]
      · rw [List.append_assoc]
        rfl
      · rw [List.append_assoc]
        exact hnodup
  exact hall [] members h

def Reads (floatRepr : PyText → PyText) (v : PyValue) : Prop :=
  ∀ fuel r, Stops r → 2 * (dumps v).length ≤ fuel →
    scanOnce floatRepr fuel (dumps v ++ r) = some (v, r)

theorem floatText_finite {repr : PyText}
    (h : scanNumber floatRepr repr = some (.float repr, [])) : floatText repr = repr := by
  have hnan : repr ≠ lit "nan" := by
    rintro rfl
    cases h
  have hinf : repr ≠ lit "inf" := by
    rintro rfl
    cases h
  have hminus : repr ≠ lit "-inf" := by
    rintro rfl
    cases h
  rw [floatText, if_neg hnan, if_neg hinf, if_neg hminus]

/-- A text begins with a character that neither is white space nor ends a list. -/
def Begins (t : PyText) : Prop := ∃ c u, t = c :: u ∧ isSpace c = false ∧ c ≠ codePoint ']'

variable {t : PyText}

theorem Begins.append (h : Begins t) (r : PyText) : Begins (t ++ r) := by
  obtain ⟨c, u, rfl, hspace, hclose⟩ := h
  exact ⟨c, u ++ r, rfl, hspace, hclose⟩

theorem begins_number (h : (scanNumber floatRepr t).isSome) : Begins t := by
  obtain ⟨d, u, hd, rfl | rfl⟩ := number_head h
  · refine ⟨d, u, rfl, Bool.eq_false_iff.2 fun hspace => ?_, ?_⟩
    · simp only [isDigit, Bool.and_eq_true, decide_eq_true_eq] at hd
      simp only [isSpace, Bool.or_eq_true, decide_eq_true_eq] at hspace
      omega
    · rintro rfl
      cases hd
  · exact ⟨_, _, rfl, rfl, by decide⟩

theorem begins_dumps (hv : Encodable floatRepr v) : Begins (dumps v) := by
  cases hv with
  | none => exact ⟨_, _, rfl, rfl, by decide⟩
  | bool b => cases b <;> exact ⟨_, _, rfl, rfl, by decide⟩
  | int n =>
    have hnumber : scanNumber floatRepr (lit (toString n)) = _ := scanNumber_int n
    exact begins_number (Option.isSome_iff_exists.2 ⟨_, hnumber⟩)
  | finite h =>
    rw [dumps, floatText_finite h]
    exact begins_number (Option.isSome_iff_exists.2 ⟨_, h⟩)
  | special h =>
    simp only [List.mem_cons, List.not_mem_nil, or_false] at h
    obtain rfl | rfl | rfl := h <;> exact ⟨_, _, rfl, rfl, by decide⟩
  | str _ => exact ⟨_, _, rfl, rfl, by decide⟩
  | list _ => exact ⟨_, _, rfl, rfl, by decide⟩
  | dict _ _ _ => exact ⟨_, _, rfl, rfl, by decide⟩

theorem skipSpace_of_begins (h : Begins t) : skipSpace t = t := by
  obtain ⟨c, u, rfl, hspace, -⟩ := h
  exact List.dropWhile_cons_of_neg (by rw [hspace]; exact Bool.false_ne_true)

theorem scanNext_close {close : CodePoint} (hclose : isSpace close = false) (r : PyText) :
    scanNext close (close :: r) = some (false, r) := by
  have hskip : skipSpace (close :: r) = close :: r :=
    List.dropWhile_cons_of_neg (by rw [hclose]; exact Bool.false_ne_true)
  rw [scanNext, hskip]
  exact if_pos rfl

theorem scanNext_comma {close : CodePoint} (hclose : codePoint ',' ≠ close)
    (ht : Begins t) : scanNext close (lit ", " ++ t) = some (true, t) := by
  have hskip : skipSpace (codePoint ' ' :: t) = t :=
    (List.dropWhile_cons_of_pos rfl).trans (skipSpace_of_begins ht)
  have hcomma : skipSpace (lit ", " ++ t) = codePoint ',' :: codePoint ' ' :: t := rfl
  rw [scanNext, hcomma]
  simp only [if_neg hclose, if_true, hskip]

theorem begins_quote (k r : PyText) : Begins (quote k ++ r) := ⟨_, _, rfl, rfl, by decide⟩

theorem scanKey_quote {k : PyText} (hk : Unsplit k) (ht : Begins t) :
    scanKey (quote k ++ (lit ": " ++ t)) = some (k, t) := by
  have hread : scanString none (k.flatMap escapeChar ++ ([codePoint '"'] ++ (lit ": " ++ t))) =
      some (k, lit ": " ++ t) := scanString_quote hk _
  have hcolon : skipSpace (lit ": " ++ t) = codePoint ':' :: codePoint ' ' :: t := rfl
  have hskip : skipSpace (codePoint ' ' :: t) = t :=
    (List.dropWhile_cons_of_pos rfl).trans (skipSpace_of_begins ht)
  rw [quote, List.cons_append, scanKey, if_pos rfl, List.append_assoc, hread]
  simp only [Option.bind_eq_bind, Option.bind_some, hcolon, if_true, hskip]

theorem stops_items (vs : List PyValue) (r : PyText) :
    Stops (dumpsItems vs ++ codePoint ']' :: r) := by
  intro c hc
  cases vs with
  | nil =>
    obtain rfl : codePoint ']' = c := by simpa [dumpsItems] using hc
    exact .inr (.inl rfl)
  | cons v vs =>
    obtain rfl : codePoint ',' = c := by simpa [dumpsItems, lit] using hc
    exact .inl rfl

theorem stops_members (ms : PyDict) (r : PyText) :
    Stops (dumpsMembers ms ++ codePoint '\x7d' :: r) := by
  intro c hc
  cases ms with
  | nil =>
    obtain rfl : codePoint '\x7d' = c := by simpa [dumpsMembers] using hc
    exact .inr (.inr rfl)
  | cons m ms =>
    obtain rfl : codePoint ',' = c := by simpa [dumpsMembers, lit] using hc
    exact .inl rfl

theorem scanItems_dumps {vs : List PyValue}
    (hreads : ∀ w ∈ v :: vs, Reads floatRepr w) (hbegins : ∀ w ∈ v :: vs, Begins (dumps w))
    (r : PyText) (fuel : ℕ) (hfuel : 2 * (dumps v ++ dumpsItems vs).length + 1 ≤ fuel) :
    scanItems floatRepr fuel (dumps v ++ (dumpsItems vs ++ codePoint ']' :: r)) =
      some (v :: vs, r) := by
  induction vs generalizing v fuel with
  | nil =>
    obtain ⟨fuel, rfl⟩ : ∃ n, fuel = n + 1 := ⟨fuel - 1, by omega⟩
    have hlength : 2 * (dumps v).length ≤ fuel := by
      simp only [dumpsItems, List.append_nil] at hfuel
      omega
    have hread := hreads v (List.mem_cons_self ..) fuel _ (stops_items [] r) hlength
    simp only [scanItems, hread, Option.bind_eq_bind, Option.bind_some]
    rw [dumpsItems, List.nil_append, scanNext_close rfl]
    rfl
  | cons w vs ih =>
    obtain ⟨fuel, rfl⟩ : ∃ n, fuel = n + 1 := ⟨fuel - 1, by omega⟩
    have hlengths : (dumps v ++ dumpsItems (w :: vs)).length =
        (dumps v).length + 2 + (dumps w ++ dumpsItems vs).length := by
      simp [dumpsItems, lit]
      omega
    have hread := hreads v (List.mem_cons_self ..) fuel _ (stops_items (w :: vs) r) (by omega)
    have hrest := ih (v := w) (fun u hu => hreads u (List.mem_cons_of_mem _ hu))
      (fun u hu => hbegins u (List.mem_cons_of_mem _ hu)) fuel (by omega)
    have hbegin := (hbegins w (by simp)).append (dumpsItems vs ++ codePoint ']' :: r)
    simp only [scanItems, hread, Option.bind_eq_bind, Option.bind_some]
    simp only [dumpsItems, List.append_assoc]
    rw [scanNext_comma (by decide) hbegin]
    simp only [Option.bind_some, if_true, hrest, Option.pure_def]

theorem scanMembers_dumps {m : PyText × PyValue} {ms : PyDict}
    (hkeys : ∀ e ∈ m :: ms, Unsplit e.1) (hreads : ∀ e ∈ m :: ms, Reads floatRepr e.2)
    (hbegins : ∀ e ∈ m :: ms, Begins (dumps e.2)) (r : PyText) (fuel : ℕ)
    (hfuel : 2 * (quote m.1 ++ lit ": " ++ dumps m.2 ++ dumpsMembers ms).length + 1 ≤ fuel) :
    scanMembers floatRepr fuel
        (quote m.1 ++ (lit ": " ++ (dumps m.2 ++ (dumpsMembers ms ++ codePoint '\x7d' :: r)))) =
      some (m :: ms, r) := by
  induction ms generalizing m fuel with
  | nil =>
    obtain ⟨fuel, rfl⟩ : ∃ n, fuel = n + 1 := ⟨fuel - 1, by omega⟩
    have hlength : 2 * (dumps m.2).length ≤ fuel := by
      simp only [List.length_append] at hfuel
      omega
    have hkey := scanKey_quote (hkeys m (List.mem_cons_self ..))
      ((hbegins m (List.mem_cons_self ..)).append (dumpsMembers [] ++ codePoint '\x7d' :: r))
    have hread := hreads m (List.mem_cons_self ..) fuel _ (stops_members [] r) hlength
    simp only [scanMembers, hkey, hread, Option.bind_eq_bind, Option.bind_some]
    rw [dumpsMembers, List.nil_append, scanNext_close rfl]
    rfl
  | cons n ms ih =>
    obtain ⟨fuel, rfl⟩ : ∃ n, fuel = n + 1 := ⟨fuel - 1, by omega⟩
    have hlengths : (quote m.1 ++ lit ": " ++ dumps m.2 ++ dumpsMembers (n :: ms)).length =
        (quote m.1 ++ lit ": ").length + (dumps m.2).length + 2 +
          (quote n.1 ++ lit ": " ++ dumps n.2 ++ dumpsMembers ms).length := by
      simp [dumpsMembers, lit]
      omega
    have hkey := scanKey_quote (hkeys m (List.mem_cons_self ..))
      ((hbegins m (List.mem_cons_self ..)).append
        (dumpsMembers (n :: ms) ++ codePoint '\x7d' :: r))
    have hread := hreads m (List.mem_cons_self ..) fuel _ (stops_members (n :: ms) r) (by omega)
    have hrest := ih (m := n) (fun u hu => hkeys u (List.mem_cons_of_mem _ hu))
      (fun u hu => hreads u (List.mem_cons_of_mem _ hu))
      (fun u hu => hbegins u (List.mem_cons_of_mem _ hu)) fuel (by omega)
    have hbegin := begins_quote n.1
      (lit ": " ++ (dumps n.2 ++ (dumpsMembers ms ++ codePoint '\x7d' :: r)))
    simp only [scanMembers, hkey, hread, Option.bind_eq_bind, Option.bind_some]
    simp only [dumpsMembers, List.append_assoc]
    rw [scanNext_comma (by decide) hbegin]
    simp only [Option.bind_some, if_true, hrest, Option.pure_def]

theorem scanOnce_list {items : List PyValue} (hreads : ∀ v ∈ items, Reads floatRepr v)
    (hbegins : ∀ v ∈ items, Begins (dumps v)) (r : PyText) (fuel : ℕ)
    (hfuel : 2 * (dumps (.list items)).length ≤ fuel) :
    scanOnce floatRepr fuel (dumps (.list items) ++ r) = some (.list items, r) := by
  have hpos : 2 ≤ (dumps (.list items)).length := by
    simp only [dumps, List.length_cons, List.length_append, List.length_nil]
    omega
  obtain ⟨fuel, rfl⟩ : ∃ n, fuel = n + 1 := ⟨fuel - 1, by omega⟩
  cases items with
  | nil => rfl
  | cons v vs =>
    have hinner : (dumpsItems (v :: vs)).drop 2 = dumps v ++ dumpsItems vs := rfl
    have hbegin := (hbegins v (List.mem_cons_self ..)).append (dumpsItems vs ++ codePoint ']' :: r)
    have hskip := skipSpace_of_begins hbegin
    have hlength : 2 * (dumps v ++ dumpsItems vs).length + 1 ≤ fuel := by
      simp only [dumps, hinner, List.length_cons, List.length_append, List.length_nil] at hfuel ⊢
      omega
    have hitems := scanItems_dumps hreads hbegins r fuel hlength
    obtain ⟨c, u, hc, -, hclose⟩ := hbegin
    have hhead : (dumps v ++ (dumpsItems vs ++ codePoint ']' :: r)).head? ≠ some (codePoint ']') := by
      rw [hc]
      exact fun h => hclose (Option.some.inj h)
    rw [dumps, hinner]
    simp only [List.cons_append, List.append_assoc, List.nil_append]
    rw [scanOnce, if_neg (by decide), if_neg (by decide), if_pos rfl, hskip, if_neg hhead, hitems]
    rfl

theorem scanOnce_dict {members : PyDict} (hnodup : (members.map Prod.fst).Nodup)
    (hkeys : ∀ m ∈ members, Unsplit m.1) (hreads : ∀ m ∈ members, Reads floatRepr m.2)
    (hbegins : ∀ m ∈ members, Begins (dumps m.2)) (r : PyText) (fuel : ℕ)
    (hfuel : 2 * (dumps (.dict members)).length ≤ fuel) :
    scanOnce floatRepr fuel (dumps (.dict members) ++ r) = some (.dict members, r) := by
  have hpos : 2 ≤ (dumps (.dict members)).length := by
    simp only [dumps, List.length_cons, List.length_append, List.length_nil]
    omega
  obtain ⟨fuel, rfl⟩ : ∃ n, fuel = n + 1 := ⟨fuel - 1, by omega⟩
  cases members with
  | nil => rfl
  | cons m ms =>
    have hinner : (dumpsMembers (m :: ms)).drop 2 =
        quote m.1 ++ lit ": " ++ dumps m.2 ++ dumpsMembers ms := rfl
    have hbegin := begins_quote m.1
      (lit ": " ++ (dumps m.2 ++ (dumpsMembers ms ++ codePoint '\x7d' :: r)))
    have hskip := skipSpace_of_begins hbegin
    have hlength : 2 * (quote m.1 ++ lit ": " ++ dumps m.2 ++ dumpsMembers ms).length + 1 ≤
        fuel := by
      simp only [dumps, hinner, List.length_cons, List.length_append, List.length_nil] at hfuel ⊢
      omega
    have hmembers := scanMembers_dumps hkeys hreads hbegins r fuel hlength
    have hhead : (quote m.1 ++ (lit ": " ++ (dumps m.2 ++ (dumpsMembers ms ++
        codePoint '\x7d' :: r)))).head? ≠ some (codePoint '\x7d') :=
      fun h => absurd (Option.some.inj h) (by decide)
    rw [dumps, hinner]
    simp only [List.cons_append, List.append_assoc, List.nil_append]
    rw [scanOnce, if_neg (by decide), if_pos rfl, hskip, if_neg hhead, hmembers, Option.map_some,
      dictOf_of_nodup hnodup]

theorem reads_dumps (hv : Encodable floatRepr v) : Reads floatRepr v := by
  have hconstant : ∀ {k : PyText × PyValue}, k ∈ constants → ∀ fuel r, 2 * k.1.length ≤ fuel →
      scanOnce floatRepr fuel (k.1 ++ r) = some (k.2, r) := by
    intro k hk fuel r hfuel
    have hlength : ∀ k ∈ constants, 0 < k.1.length := by decide
    have hpos := hlength k hk
    obtain ⟨fuel, rfl⟩ : ∃ n, fuel = n + 1 := ⟨fuel - 1, by omega⟩
    exact scanOnce_constant hk fuel r
  have hnumber : ∀ {t : PyText} {w : PyValue}, scanNumber floatRepr t = some (w, []) →
      ∀ fuel r, Stops r → 2 * t.length ≤ fuel →
        scanOnce floatRepr fuel (t ++ r) = some (w, r) := by
    intro t w ht fuel r hstops hfuel
    have hpos : 0 < t.length := by
      obtain ⟨d, u, -, rfl | rfl⟩ := number_head (Option.isSome_iff_exists.2 ⟨_, ht⟩)
      · simp
      · simp
    obtain ⟨fuel, rfl⟩ : ∃ n, fuel = n + 1 := ⟨fuel - 1, by omega⟩
    have happend : scanNumber floatRepr (t ++ r) = some (w, r) := by
      rw [scanNumber_append hstops, ht]
      rfl
    exact scanOnce_number happend fuel
  induction v using induct with
  | none => exact fun fuel r _ => hconstant (k := (lit "null", .none)) (by simp [constants]) fuel r
  | bool b =>
    cases b with
    | true =>
      exact fun fuel r _ => hconstant (k := (lit "true", .bool true)) (by simp [constants]) fuel r
    | false =>
      exact fun fuel r _ => hconstant (k := (lit "false", .bool false)) (by simp [constants]) fuel r
  | int n => exact hnumber (scanNumber_int n)
  | float repr =>
    cases hv with
    | finite h =>
      intro fuel r hstops hfuel
      rw [dumps, floatText_finite h] at hfuel ⊢
      exact hnumber h fuel r hstops hfuel
    | special h =>
      simp only [List.mem_cons, List.not_mem_nil, or_false] at h
      obtain rfl | rfl | rfl := h
      · exact fun fuel r _ =>
          hconstant (k := (lit "NaN", .float (lit "nan"))) (by simp [constants]) fuel r
      · exact fun fuel r _ =>
          hconstant (k := (lit "Infinity", .float (lit "inf"))) (by simp [constants]) fuel r
      · exact fun fuel r _ =>
          hconstant (k := (lit "-Infinity", .float (lit "-inf"))) (by simp [constants]) fuel r
  | str s =>
    cases hv with
    | str hsplit =>
      intro fuel r _ hfuel
      have hpos : 0 < (dumps (.str s)).length := by simp [dumps, quote]
      obtain ⟨fuel, rfl⟩ : ∃ n, fuel = n + 1 := ⟨fuel - 1, by omega⟩
      have hread : scanString none (s.flatMap escapeChar ++ ([codePoint '"'] ++ r)) = some (s, r) :=
        scanString_quote hsplit r
      rw [dumps, quote, List.cons_append, List.append_assoc, scanOnce, if_pos rfl, hread]
      rfl
  | list items ih =>
    intro fuel r _ hfuel
    exact scanOnce_list (fun w hw => ih w hw (hv.items w hw))
      (fun w hw => begins_dumps (hv.items w hw)) r fuel hfuel
  | dict members ih =>
    intro fuel r _ hfuel
    exact scanOnce_dict hv.nodup hv.members.1 (fun m hm => ih m hm (hv.members.2 m hm))
      (fun m hm => begins_dumps (hv.members.2 m hm)) r fuel hfuel

def isContainer : PyValue → Bool
  | .list _ => true
  | .dict _ => true
  | _ => false

/-- **A list or a dictionary is read back in front of any text.** -/
theorem scanOnce_dumps (hv : Encodable floatRepr v) (hcontainer : isContainer v = true)
    (r : PyText) (fuel : ℕ) (hfuel : 2 * (dumps v).length ≤ fuel) :
    scanOnce floatRepr fuel (dumps v ++ r) = some (v, r) := by
  cases v with
  | list items =>
    exact scanOnce_list (fun w hw => reads_dumps (hv.items w hw))
      (fun w hw => begins_dumps (hv.items w hw)) r fuel hfuel
  | dict members =>
    exact scanOnce_dict hv.nodup hv.members.1 (fun m hm => reads_dumps (hv.members.2 m hm))
      (fun m hm => begins_dumps (hv.members.2 m hm)) r fuel hfuel
  | _ => cases hcontainer

theorem loads_append (hv : Encodable floatRepr v) (hcontainer : isContainer v = true)
    (r : PyText) :
    loads floatRepr (dumps v ++ r) = if (skipSpace r).isEmpty then some v else none := by
  have hbegin := begins_dumps hv
  have hskip := skipSpace_of_begins (hbegin.append r)
  have hmark : (dumps v ++ r).head? ≠ some 0xFEFF := by
    cases v with
    | list items => exact fun h => absurd (Option.some.inj h) (by decide)
    | dict members => exact fun h => absurd (Option.some.inj h) (by decide)
    | _ => cases hcontainer
  have hread := scanOnce_dumps hv hcontainer r (2 * (dumps v ++ r).length)
    (by rw [List.length_append]; omega)
  rw [loads, if_neg hmark, hskip, hread]

/-- **What is written of a list or a dictionary is read back.** -/
theorem loads_dumps (hv : Encodable floatRepr v) (hcontainer : isContainer v = true) :
    loads floatRepr (dumps v) = some v := by
  have hread := loads_append hv hcontainer []
  rwa [List.append_nil] at hread

theorem sortItems_eq (items : List PyValue) : sortItems items = items.map sortKeys := by
  induction items with
  | nil => rfl
  | cons v vs ih => rw [sortItems, ih, List.map_cons]

theorem sortMembers_eq (members : PyDict) :
    sortMembers members = members.map fun m => (m.1, sortKeys m.2) := by
  induction members with
  | nil => rfl
  | cons m ms ih => rw [sortMembers, ih, List.map_cons]

theorem encodable_sortKeys (hv : Encodable floatRepr v) :
    Encodable floatRepr (sortKeys v) := by
  induction v using induct with
  | list items ih =>
    rw [sortKeys, sortItems_eq]
    refine .list fun w hw => ?_
    obtain ⟨u, hu, rfl⟩ := List.mem_map.1 hw
    exact ih u hu (hv.items u hu)
  | dict members ih =>
    rw [sortKeys, sortMembers_eq]
    have hperm := List.mergeSort_perm (members.map fun m => (m.1, sortKeys m.2))
      fun m n => decide (m.1 ≤ n.1)
    have hmember : ∀ m ∈ (members.map fun m => (m.1, sortKeys m.2)).mergeSort
        (fun m n => decide (m.1 ≤ n.1)), ∃ n ∈ members, m = (n.1, sortKeys n.2) := by
      intro m hm
      obtain ⟨n, hn, rfl⟩ := List.mem_map.1 (hperm.mem_iff.1 hm)
      exact ⟨n, hn, rfl⟩
    refine .dict ?_ ?_ ?_
    · rw [(hperm.map Prod.fst).nodup_iff, List.map_map]
      exact hv.nodup
    · intro m hm
      obtain ⟨n, hn, rfl⟩ := hmember m hm
      exact hv.members.1 n hn
    · intro m hm
      obtain ⟨n, hn, rfl⟩ := hmember m hm
      exact ih n hn (hv.members.2 n hn)
  | _ => exact hv

end PyJson
