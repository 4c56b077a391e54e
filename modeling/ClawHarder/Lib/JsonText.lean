import ClawHarder.Lib.Json

/-!
# Values and their JSON texts

* `stringify_inj`: values with one text are equal, members in the same order, provided that
  the texts of numbers are told apart (`NumberText`).
* `Alike`: values that are equal up to the order of members, at every depth. Members with
  certain keys may be left out of account.
* `Plain`: no object repeats a key, as in every value that a program can hold.
-/

namespace Json

variable {N : Type}

/-- The induction over the values. -/
theorem induct {motive : Json N → Prop} (null : motive .null) (bool : ∀ b, motive (.bool b))
    (num : ∀ n, motive (.num n)) (str : ∀ s, motive (.str s))
    (arr : ∀ items, (∀ v ∈ items, motive v) → motive (.arr items))
    (obj : ∀ members, (∀ e ∈ members, motive e.2) → motive (.obj members)) : ∀ v, motive v :=
  @Json.rec N motive (fun items => ∀ v ∈ items, motive v)
    (fun members => ∀ e ∈ members, motive e.2) (fun e => motive e.2) null bool num str arr obj
    (by simp) (fun _ _ hv hitems => List.forall_mem_cons.2 ⟨hv, hitems⟩) (by simp)
    (fun _ _ he hmembers => List.forall_mem_cons.2 ⟨he, hmembers⟩) (fun _ _ hv => hv)

inductive Plain : Json N → Prop
  | null : Plain .null
  | bool (b : Bool) : Plain (.bool b)
  | num (n : N) : Plain (.num n)
  | str (s : String) : Plain (.str s)
  | arr {items : List (Json N)} : (∀ v ∈ items, Plain v) → Plain (.arr items)
  | obj {members : List (String × Json N)} : (members.map Prod.fst).Nodup →
      (∀ e ∈ members, Plain e.2) → Plain (.obj members)

/-- The values are equal up to the order of members and up to the members that `skip` names. -/
inductive Alike (skip : String → Prop) : Json N → Json N → Prop
  | null : Alike skip .null .null
  | bool (b : Bool) : Alike skip (.bool b) (.bool b)
  | num (n : N) : Alike skip (.num n) (.num n)
  | str (s : String) : Alike skip (.str s) (.str s)
  | arr {items others : List (Json N)} : items.length = others.length →
      (∀ (i : ℕ) (v w : Json N), items[i]? = some v → others[i]? = some w → Alike skip v w) →
      Alike skip (.arr items) (.arr others)
  | obj {members others : List (String × Json N)} :
      (∀ k, ¬skip k → (member? k members).isSome = (member? k others).isSome) →
      (∀ k v w, ¬skip k → member? k members = some v → member? k others = some w →
        Alike skip v w) →
      Alike skip (.obj members) (.obj others)

theorem Plain.items {items : List (Json N)} (h : Plain (.arr items)) : ∀ v ∈ items, Plain v := by
  cases h with
  | arr hitems => exact hitems

theorem Plain.members {members : List (String × Json N)} (h : Plain (.obj members)) :
    (members.map Prod.fst).Nodup ∧ ∀ e ∈ members, Plain e.2 := by
  cases h with
  | obj hnodup hvalues => exact ⟨hnodup, hvalues⟩

theorem Alike.mono {skip drop : String → Prop} (hskip : ∀ k, skip k → drop k) {v w : Json N}
    (h : Alike skip v w) : Alike drop v w := by
  induction h with
  | null => exact .null
  | bool b => exact .bool b
  | num n => exact .num n
  | str s => exact .str s
  | arr hlength _ ih => exact .arr hlength ih
  | obj hsome _ ih =>
    exact .obj (fun k hk => hsome k fun h => hk (hskip k h))
      fun k v w hk hv hw => ih k v w (fun h => hk (hskip k h)) hv hw

theorem member?_eq_some_iff {members : List (String × Json N)}
    (hnodup : (members.map Prod.fst).Nodup) {k : String} {v : Json N} :
    member? k members = some v ↔ (k, v) ∈ members := by
  induction members generalizing v with
  | nil => simp [member?]
  | cons e members ih =>
    obtain ⟨k₀, v₀⟩ := e
    rw [List.map_cons, List.nodup_cons] at hnodup
    have hrest := ih (v := v) hnodup.2
    rw [member?, List.mem_cons, ← hrest, Prod.mk.injEq]
    cases hmember : member? k members with
    | none => simp [eq_comm]
    | some w =>
      -- the key stands further on, so that it is not the first one
      have hne : k ≠ k₀ := by
        rintro rfl
        have hmem : (k, w) ∈ members := (ih hnodup.2).1 hmember
        exact hnodup.1 (List.mem_map.2 ⟨_, hmem, rfl⟩)
      simp [hne]

section Separated

variable {α : Type} {text : α → List Char}

def Stops (r : List Char) : Prop := ∀ c ∈ r.head?, c = ',' ∨ c = ']' ∨ c = '\x7d'

def Readable (text : α → List Char) (a : α) : Prop :=
  ∀ b r r', Stops r → Stops r' → text a ++ r = text b ++ r' → a = b ∧ r = r'

def separated (text : α → List Char) : List α → List Char
  | [] => []
  | a :: as => text a ++ as.flatMap fun b => ',' :: text b

variable {close : Char} (hclose : close = ']' ∨ close = '\x7d')
include hclose

theorem stops_rest (as : List α) (r : List Char) :
    Stops ((as.flatMap fun b => ',' :: text b) ++ close :: r) := by
  intro c hc
  cases as with
  | nil =>
    obtain rfl : close = c := by simpa using hc
    exact Or.inr hclose
  | cons a as =>
    obtain rfl : ',' = c := by simpa using hc
    exact Or.inl rfl

theorem rest_inj {as bs : List α} {r r' : List Char} (has : ∀ a ∈ as, Readable text a)
    (heq : (as.flatMap fun b => ',' :: text b) ++ close :: r =
      (bs.flatMap fun b => ',' :: text b) ++ close :: r') : as = bs ∧ r = r' := by
  have hcomma : close ≠ ',' := by rcases hclose with rfl | rfl <;> decide
  induction as generalizing bs with
  | nil =>
    cases bs with
    | nil => simpa using heq
    | cons b bs => exact absurd (by simpa using heq : close = ',' ∧ _).1 hcomma
  | cons a as ih =>
    cases bs with
    | nil => exact absurd (by simpa using heq.symm : close = ',' ∧ _).1 hcomma
    | cons b bs =>
      simp only [List.flatMap_cons, List.cons_append, List.append_assoc, List.cons.injEq,
        true_and] at heq
      obtain ⟨rfl, hrest⟩ := has a List.mem_cons_self b _ _ (stops_rest hclose as r)
        (stops_rest hclose bs r') heq
      obtain ⟨rfl, rfl⟩ := ih (fun a ha => has a (List.mem_cons_of_mem _ ha)) hrest
      exact ⟨rfl, rfl⟩

theorem separated_inj {as bs : List α} {r r' : List Char} (has : ∀ a ∈ as, Readable text a)
    (hhead : ∀ b, (text b).head? ≠ none ∧ (text b).head? ≠ some close)
    (heq : separated text as ++ close :: r = separated text bs ++ close :: r') :
    as = bs ∧ r = r' := by
  have hne : ∀ b (s t : List Char), close :: s ≠ text b ++ t := by
    intro b s t h
    have hb := hhead b
    cases htext : text b with
    | nil => simp [htext] at hb
    | cons c u =>
      rw [htext, List.cons_append, List.cons.injEq] at h
      simp [htext, h.1] at hb
  cases as with
  | nil =>
    cases bs with
    | nil => simpa [separated] using heq
    | cons b bs =>
      rw [separated, separated, List.nil_append, List.append_assoc] at heq
      exact absurd heq (hne b _ _)
  | cons a as =>
    cases bs with
    | nil =>
      rw [separated, separated, List.nil_append, List.append_assoc] at heq
      exact absurd heq.symm (hne a _ _)
    | cons b bs =>
      rw [separated, separated, List.append_assoc, List.append_assoc] at heq
      obtain ⟨rfl, hrest⟩ := has a List.mem_cons_self b _ _ (stops_rest hclose as r)
        (stops_rest hclose bs r') heq
      obtain ⟨rfl, rfl⟩ :=
        rest_inj hclose (fun a ha => has a (List.mem_cons_of_mem _ ha)) hrest
      exact ⟨rfl, rfl⟩

end Separated

def escaped : List Char := '"' :: '\\' :: (List.range 32).map Char.ofNat

theorem escapeChar_of_not_escaped {c : Char} (h : c ∉ escaped) : (escapeChar c).toList = [c] := by
  have hquote : c ≠ '"' := fun e => h (e ▸ List.mem_cons_self)
  have hslash : c ≠ '\\' := fun e => h (e ▸ List.mem_cons_of_mem _ List.mem_cons_self)
  have hcontrol : ¬c.toNat < 32 := fun hlt =>
    h (List.mem_cons_of_mem _ (List.mem_cons_of_mem _
      (List.mem_map.2 ⟨c.toNat, List.mem_range.2 hlt, Char.ofNat_toNat c⟩)))
  rw [escapeChar, if_neg hquote, if_neg hslash, if_neg (by omega), if_neg (by omega),
    if_neg (by omega), if_neg (by omega), if_neg (by omega), if_neg hcontrol, String.toList_ofList]

theorem escapeChar_of_escaped {c : Char} (h : c ∈ escaped) :
    ∃ d rest, (escapeChar c).toList = '\\' :: d :: rest := by
  have hall : (escaped.all fun c =>
      (escapeChar c).toList.head? = some '\\' && 2 ≤ (escapeChar c).toList.length) = true := by
    decide +kernel
  have hc := List.all_eq_true.1 hall c h
  cases htext : (escapeChar c).toList with
  | nil => simp [htext] at hc
  | cons a rest =>
    cases rest with
    | nil => simp [htext] at hc
    | cons d rest => exact ⟨d, rest, by simpa [htext] using hc⟩

theorem eq_of_escape_starts {c d : Char} (h : (escapeChar c).toList <+: (escapeChar d).toList) :
    c = d := by
  by_cases hc : c ∈ escaped
  · obtain ⟨x, rest, htext⟩ := escapeChar_of_escaped hc
    by_cases hd : d ∈ escaped
    · have hall : (escaped.all fun c => escaped.all fun d =>
          !(escapeChar c).toList.isPrefixOf (escapeChar d).toList || c == d) = true := by
        decide +kernel
      have hcd := List.all_eq_true.1 (List.all_eq_true.1 hall c hc) d hd
      simpa [List.isPrefixOf_iff_prefix.2 h] using hcd
    · have hlen := h.length_le
      rw [htext, escapeChar_of_not_escaped hd] at hlen
      simp at hlen
  · rw [escapeChar_of_not_escaped hc] at h
    by_cases hd : d ∈ escaped
    · obtain ⟨x, rest, htext⟩ := escapeChar_of_escaped hd
      rw [htext, List.cons_prefix_cons] at h
      exact absurd (h.1 ▸ by decide +kernel) hc
    · rw [escapeChar_of_not_escaped hd, List.cons_prefix_cons] at h
      exact h.1

theorem escape_head (c : Char) (r s : List Char) : '"' :: r ≠ (escapeChar c).toList ++ s := by
  intro h
  by_cases hc : c ∈ escaped
  · obtain ⟨d, rest, htext⟩ := escapeChar_of_escaped hc
    rw [htext] at h
    simp at h
  · rw [escapeChar_of_not_escaped hc, List.cons_append, List.cons.injEq] at h
    exact hc (h.1 ▸ List.mem_cons_self)

theorem body_inj {s t r r' : List Char}
    (heq : (s.flatMap fun c => (escapeChar c).toList) ++ '"' :: r =
      (t.flatMap fun c => (escapeChar c).toList) ++ '"' :: r') : s = t ∧ r = r' := by
  induction s generalizing t with
  | nil =>
    cases t with
    | nil => simpa using heq
    | cons d t =>
      rw [List.flatMap_nil, List.nil_append, List.flatMap_cons, List.append_assoc] at heq
      exact absurd heq (escape_head d _ _)
  | cons c s ih =>
    cases t with
    | nil =>
      rw [List.flatMap_nil, List.nil_append, List.flatMap_cons, List.append_assoc] at heq
      exact absurd heq.symm (escape_head c _ _)
    | cons d t =>
      rw [List.flatMap_cons, List.flatMap_cons, List.append_assoc, List.append_assoc] at heq
      obtain rfl : c = d := by
        rcases List.prefix_or_prefix_of_prefix (List.prefix_append _ _)
          (heq ▸ List.prefix_append _ _) with h | h
        · exact (eq_of_escape_starts h).symm
        · exact eq_of_escape_starts h
      obtain ⟨rfl, rfl⟩ := ih (List.append_cancel_left heq)
      exact ⟨rfl, rfl⟩

theorem toList_quote (s : String) :
    (quote s).toList = '"' :: ((s.toList.flatMap fun c => (escapeChar c).toList) ++ ['"']) := by
  have hfold : ∀ (cs : List Char) (acc : String),
      (cs.foldl (fun acc c => acc ++ escapeChar c) acc).toList =
        acc.toList ++ cs.flatMap fun c => (escapeChar c).toList := by
    intro cs
    induction cs with
    | nil => simp
    | cons c cs ih =>
      intro acc
      rw [List.foldl_cons, ih, String.toList_append, List.append_assoc, List.flatMap_cons]
  rw [quote, String.toList_append, String.toList_append, hfold]
  rfl

/-- The characters that begin a value other than a number or end a value. -/
def marks : List Char := ['"', '[', ']', '\x7b', '\x7d', ',', 'n', 't', 'f']

structure NumberText (numText : N → String) : Prop where
  injective : Function.Injective numText
  ne_nil : ∀ n, (numText n).toList ≠ []
  unmarked : ∀ n, ∀ c ∈ (numText n).toList, c ∉ marks

theorem unmarked_inj {s t r r' : List Char} (hs : ∀ c ∈ s, c ∉ marks) (ht : ∀ c ∈ t, c ∉ marks)
    (hr : Stops r) (hr' : Stops r') (heq : s ++ r = t ++ r') : s = t ∧ r = r' := by
  -- a text without marks does not go on where the other one stops
  have hstop : ∀ {r : List Char} {c : Char} {u : List Char}, Stops r → r = c :: u → c ∈ marks := by
    rintro r c u hr rfl
    rcases hr c rfl with rfl | rfl | rfl <;> decide
  induction s generalizing t with
  | nil =>
    cases t with
    | nil => exact ⟨rfl, heq⟩
    | cons d t => exact absurd (hstop hr heq) (ht d List.mem_cons_self)
  | cons c s ih =>
    cases t with
    | nil => exact absurd (hstop hr' heq.symm) (hs c List.mem_cons_self)
    | cons d t =>
      rw [List.cons_append, List.cons_append, List.cons.injEq] at heq
      obtain ⟨rfl, heq⟩ := heq
      obtain ⟨rfl, rfl⟩ := ih (fun c hc => hs c (List.mem_cons_of_mem _ hc))
        (fun c hc => ht c (List.mem_cons_of_mem _ hc)) heq
      exact ⟨rfl, rfl⟩

section Values

variable {numText : N → String}

theorem toList_stringifyItems (items : List (Json N)) :
    (stringifyItems numText items).toList =
      separated (fun v => (stringify numText v).toList) items := by
  induction items with
  | nil => rfl
  | cons v items ih =>
    cases items with
    | nil => simp [stringifyItems, separated]
    | cons w items =>
      rw [stringifyItems, String.toList_append, String.toList_append, ih, separated, separated,
        List.flatMap_cons, List.append_assoc]
      rfl

def memberText (numText : N → String) (e : String × Json N) : List Char :=
  (quote e.1).toList ++ ':' :: (stringify numText e.2).toList

theorem toList_stringifyMembers (members : List (String × Json N)) :
    (stringifyMembers numText members).toList = separated (memberText numText) members := by
  induction members with
  | nil => rfl
  | cons e members ih =>
    obtain ⟨k, v⟩ := e
    cases members with
    | nil => simp [stringifyMembers, separated, memberText]
    | cons e members =>
      rw [stringifyMembers, String.toList_append, String.toList_append, String.toList_append,
        String.toList_append, ih, separated, separated, List.flatMap_cons]
      simp [memberText]

def opening : Json N → Option Char
  | .null => some 'n'
  | .bool true => some 't'
  | .bool false => some 'f'
  | .num _ => none
  | .str _ => some '"'
  | .arr _ => some '['
  | .obj _ => some '\x7b'

theorem text_head (h : NumberText numText) (v : Json N) :
    ∃ c rest, (stringify numText v).toList = c :: rest ∧
      opening v = if c ∈ marks then some c else none := by
  cases v with
  | null =>
    exact ⟨'n', "ull".toList, by rw [stringify]; rfl, by rw [if_pos (by decide)]; rfl⟩
  | bool b =>
    cases b with
    | true => exact ⟨'t', "rue".toList, by rw [stringify]; rfl, by rw [if_pos (by decide)]; rfl⟩
    | false => exact ⟨'f', "alse".toList, by rw [stringify]; rfl, by rw [if_pos (by decide)]; rfl⟩
  | num n =>
    cases htext : (numText n).toList with
    | nil => exact absurd htext (h.ne_nil n)
    | cons c rest =>
      have hc : c ∉ marks := h.unmarked n c (htext ▸ List.mem_cons_self)
      exact ⟨c, rest, by rw [stringify, htext], by rw [if_neg hc]; rfl⟩
  | str s => exact ⟨'"', _, toList_quote s, by rw [if_pos (by decide)]; rfl⟩
  | arr items =>
    refine ⟨'[', (stringifyItems numText items).toList ++ [']'], ?_, by rw [if_pos (by decide)]; rfl⟩
    rw [stringify, String.toList_append, String.toList_append]
    rfl
  | obj members =>
    refine ⟨'\x7b', (stringifyMembers numText members).toList ++ ['\x7d'], ?_,
      by rw [if_pos (by decide)]; rfl⟩
    rw [stringify, String.toList_append, String.toList_append]
    rfl

theorem opening_eq (h : NumberText numText) {v w : Json N} {r r' : List Char}
    (heq : (stringify numText v).toList ++ r = (stringify numText w).toList ++ r') :
    opening v = opening w := by
  obtain ⟨c, s, hv, hopen⟩ := text_head h v
  obtain ⟨d, t, hw, hopen'⟩ := text_head h w
  rw [hv, hw, List.cons_append, List.cons_append, List.cons.injEq] at heq
  rw [hopen, hopen', heq.1]

theorem head_ne (h : NumberText numText) (v : Json N) {close : Char}
    (hclose : close = ']' ∨ close = '\x7d') :
    (stringify numText v).toList.head? ≠ none ∧
      (stringify numText v).toList.head? ≠ some close := by
  obtain ⟨c, rest, htext, hopen⟩ := text_head h v
  refine ⟨by simp [htext], ?_⟩
  rintro heq
  obtain rfl : c = close := by simpa [htext] using heq
  have hmark : c ∈ marks := by rcases hclose with rfl | rfl <;> decide
  rw [if_pos hmark] at hopen
  -- no value begins with a closing bracket
  cases v with
  | bool b => cases b <;> rcases hclose with rfl | rfl <;> cases hopen
  | num n => cases hopen
  | _ => rcases hclose with rfl | rfl <;> cases hopen

theorem readable_member {e : String × Json N}
    (he : Readable (fun v => (stringify numText v).toList) e.2) :
    Readable (memberText numText) e := by
  intro e' r r' hr hr' heq
  simp only [memberText, toList_quote, List.cons_append, List.append_assoc, List.nil_append,
    List.cons.injEq, true_and] at heq
  obtain ⟨hkey, hrest⟩ := body_inj heq
  obtain ⟨hvalue, rfl⟩ := he e'.2 r r' hr hr' (List.cons.inj hrest).2
  exact ⟨Prod.ext (String.toList_inj.1 hkey) hvalue, rfl⟩

/-- **The text of a value is found again in front of all that stops it.** -/
theorem readable (h : NumberText numText) (v : Json N) :
    Readable (fun v => (stringify numText v).toList) v := by
  induction v using induct with
  | null =>
    intro w r r' _ _ heq
    have hopen := opening_eq h heq
    cases w with
    | null => exact ⟨rfl, List.append_cancel_left heq⟩
    | bool b => cases b <;> cases hopen
    | _ => cases hopen
  | bool b =>
    intro w r r' _ _ heq
    have hopen := opening_eq h heq
    cases w with
    | bool c =>
      obtain rfl : b = c := by cases b <;> cases c <;> first | rfl | cases hopen
      exact ⟨rfl, List.append_cancel_left heq⟩
    | _ => cases b <;> cases hopen
  | num n =>
    intro w r r' hr hr' heq
    have hopen := opening_eq h heq
    cases w with
    | num m =>
      obtain ⟨htext, rfl⟩ := unmarked_inj (h.unmarked n) (h.unmarked m) hr hr' heq
      exact ⟨congrArg num (h.injective (String.toList_inj.1 htext)), rfl⟩
    | bool b => cases b <;> cases hopen
    | _ => cases hopen
  | str s =>
    intro w r r' _ _ heq
    have hopen := opening_eq h heq
    cases w with
    | str t =>
      simp only [stringify, toList_quote, List.cons_append, List.append_assoc, List.nil_append,
        List.cons.injEq, true_and] at heq
      obtain ⟨hbody, rfl⟩ := body_inj heq
      exact ⟨congrArg str (String.toList_inj.1 hbody), rfl⟩
    | bool b => cases b <;> cases hopen
    | _ => cases hopen
  | arr items ih =>
    intro w r r' _ _ heq
    have hopen := opening_eq h heq
    cases w with
    | arr others =>
      simp only [stringify, String.toList_append, toList_stringifyItems, List.append_assoc] at heq
      obtain ⟨rfl, rfl⟩ := separated_inj (.inl rfl) ih (fun v => head_ne h v (.inl rfl))
        (List.append_cancel_left heq)
      exact ⟨rfl, rfl⟩
    | bool b => cases b <;> cases hopen
    | _ => cases hopen
  | obj members ih =>
    intro w r r' _ _ heq
    have hopen := opening_eq h heq
    cases w with
    | obj others =>
      simp only [stringify, String.toList_append, toList_stringifyMembers, List.append_assoc] at heq
      have hmembers : ∀ e ∈ members, Readable (memberText numText) e := fun e he =>
        readable_member (ih e he)
      have hhead : ∀ e, (memberText numText e).head? ≠ none ∧
          (memberText numText e).head? ≠ some '\x7d' := by
        intro e
        rw [memberText, toList_quote]
        exact ⟨nofun, nofun⟩
      obtain ⟨rfl, rfl⟩ := separated_inj (.inr rfl) hmembers hhead (List.append_cancel_left heq)
      exact ⟨rfl, rfl⟩
    | bool b => cases b <;> cases hopen
    | _ => cases hopen

/-- **Values with one text are equal.** -/
theorem stringify_inj (h : NumberText numText) {v w : Json N}
    (heq : stringify numText v = stringify numText w) : v = w := by
  have hnil : Stops [] := nofun
  have htext : (stringify numText v).toList ++ [] = (stringify numText w).toList ++ [] := by
    rw [heq]
  exact (readable h v w [] [] hnil hnil htext).1

end Values

end Json
