import ClawHarder.Lib.JsonText
import ClawHarder.Spec.Identity

/-!
# What canonical JSON tells apart

`canonicalJson` sorts the members of each object, so that values which are equal up to the
order of members have one text. A member `__proto__` is dropped at every depth.

* `sort_eq_iff`: sorting forgets the order of members, and nothing else.
* `sortedReplacer_eq_iff`, `canonicalJson_eq_iff`: the texts are equal exactly when the values
  are equal up to order and up to the members `__proto__`.
-/

namespace ClawHarder

/-- Numbers that their JSON texts tell apart. -/
class JsonNumber (N : Type) extends JsNumber N where
  numberText : Json.NumberText toText

theorem mem_intText {z : ℤ} {c : Char} (hc : c ∈ (toString z).toList) :
    c = '-' ∨ c.isDigit = true := by
  have hdigits : ∀ n : ℕ, c ∈ n.repr.toList → c.isDigit = true := by
    intro n hn
    rw [Nat.toList_repr] at hn
    exact Nat.isDigit_of_mem_toDigits (by decide) (by decide) hn
  rw [Int.toString_eq_repr, Int.repr_eq_if] at hc
  split at hc
  · exact .inr (hdigits _ hc)
  · rw [String.toList_append, List.mem_append] at hc
    rcases hc with hc | hc
    · exact .inl (by simpa using hc)
    · exact .inr (hdigits _ hc)

theorem natText_inj {n m : ℕ} (h : n.repr.toList = m.repr.toList) : n = m := by
  rw [Nat.toList_repr, Nat.toList_repr] at h
  have hread := congrArg (Nat.ofDigitChars 10 · 0) h
  simp only [Nat.ofDigitChars_ten_toDigits] at hread
  exact hread

theorem intText_inj {a b : ℤ} (h : (toString a).toList = (toString b).toList) : a = b := by
  have hsign : ∀ n m : ℕ, ('-' :: n.repr.toList) ≠ m.repr.toList := by
    intro n m heq
    have hdigit := Nat.isDigit_of_mem_toDigits (b := 10) (by decide) (by decide)
      (Nat.toList_repr ▸ heq ▸ List.mem_cons_self : '-' ∈ Nat.toDigits 10 m)
    revert hdigit
    decide
  rw [Int.toString_eq_repr, Int.toString_eq_repr, Int.repr_eq_if, Int.repr_eq_if] at h
  split at h <;> split at h
  · have := natText_inj h
    omega
  · rw [String.toList_append] at h
    exact absurd h.symm (hsign _ _)
  · rw [String.toList_append] at h
    exact absurd h (hsign _ _)
  · rw [String.toList_append, String.toList_append] at h
    have := natText_inj (List.append_cancel_left h)
    omega

def denominatorText (q : ℚ) : List Char := if q.den = 1 then [] else '/' :: q.den.repr.toList

theorem toList_toString_rat (q : ℚ) :
    (toString q).toList = (toString q.num).toList ++ denominatorText q := by
  unfold denominatorText
  show (if q.den = 1 then toString q.num else s!"{q.num}/{q.den}").toList = _
  split
  · rw [List.append_nil]
  · simp [String.toList_append]
    rfl

theorem toString_rat_injective : Function.Injective (toString : ℚ → String) := by
  have hbar : ∀ (z : ℤ), ∀ c ∈ (toString z).toList, decide (c ≠ '/') = true := by
    intro z c hc
    rcases mem_intText hc with rfl | hdigit
    · decide
    · exact decide_eq_true fun hslash => by rw [hslash] at hdigit; revert hdigit; decide
  intro q r heq
  have hlist := congrArg String.toList heq
  rw [toList_toString_rat, toList_toString_rat] at hlist
  have hnum := congrArg (List.takeWhile (fun c => decide (c ≠ '/'))) hlist
  have hden := congrArg (List.dropWhile (fun c => decide (c ≠ '/'))) hlist
  rw [List.takeWhile_append_of_pos (hbar _), List.takeWhile_append_of_pos (hbar _)] at hnum
  rw [List.dropWhile_append_of_pos (hbar _), List.dropWhile_append_of_pos (hbar _)] at hden
  have hempty : ∀ p : ℚ, (denominatorText p).takeWhile (fun c => decide (c ≠ '/')) = [] := by
    intro p
    unfold denominatorText
    split <;> simp
  have hwhole : ∀ p : ℚ, (denominatorText p).dropWhile (fun c => decide (c ≠ '/')) =
      denominatorText p := by
    intro p
    unfold denominatorText
    split <;> simp
  rw [hempty, hempty, List.append_nil, List.append_nil] at hnum
  rw [hwhole, hwhole, denominatorText, denominatorText] at hden
  refine Rat.ext (intText_inj hnum) ?_
  split at hden <;> split at hden
  · rename_i hq hr
    rw [hq, hr]
  · cases hden
  · cases hden
  · exact natText_inj (List.cons.inj hden).2

instance : JsonNumber ℚ where
  numberText := {
    injective := toString_rat_injective
    ne_nil := by
      intro q hnil
      have hnum : (toString q.num).toList = [] :=
        (List.append_eq_nil_iff.1 ((toList_toString_rat q).symm.trans hnil)).1
      rw [Int.toString_eq_repr, Int.repr_eq_if] at hnum
      split at hnum
      · rw [Nat.toList_repr] at hnum
        exact absurd hnum Nat.toDigits_ne_nil
      · simp at hnum
    unmarked := by
      intro q c hc
      have hplain : c = '-' ∨ c.isDigit = true ∨ c = '/' := by
        rcases List.mem_append.1 (toList_toString_rat q ▸ hc) with hc | hc
        · exact (mem_intText hc).imp_right .inl
        · unfold denominatorText at hc
          split at hc
          · cases hc
          · rw [List.mem_cons, Nat.toList_repr] at hc
            rcases hc with rfl | hc
            · exact .inr (.inr rfl)
            · exact .inr (.inl (Nat.isDigit_of_mem_toDigits (by decide) (by decide) hc))
      intro hmark
      simp only [Json.marks, List.mem_cons, List.not_mem_nil, or_false] at hmark
      rcases hmark with rfl | rfl | rfl | rfl | rfl | rfl | rfl | rfl | rfl <;>
        revert hplain <;> decide }

theorem unit_lt {c : Char} : c.toNat < 0xD800 ∨ 0xDFFF < c.toNat ∧ c.toNat < 0x110000 := c.valid

theorem utf16_injective : Function.Injective utf16 := by
  -- a code unit below the surrogates or above them is a character of its own
  have hcode : ∀ (s t : List Char),
      (s.flatMap fun c => if c.toNat < 0x10000 then [c.toNat]
        else [0xD800 + (c.toNat - 0x10000) / 0x400, 0xDC00 + (c.toNat - 0x10000) % 0x400]) =
      (t.flatMap fun c => if c.toNat < 0x10000 then [c.toNat]
        else [0xD800 + (c.toNat - 0x10000) / 0x400, 0xDC00 + (c.toNat - 0x10000) % 0x400]) →
      s = t := by
    intro s
    induction s with
    | nil =>
      intro t heq
      cases t with
      | nil => rfl
      | cons d t =>
        rw [List.flatMap_nil, List.flatMap_cons] at heq
        split at heq <;> cases heq
    | cons c s ih =>
      intro t heq
      cases t with
      | nil =>
        rw [List.flatMap_nil, List.flatMap_cons] at heq
        split at heq <;> cases heq
      | cons d t =>
        have hc := unit_lt (c := c)
        have hd := unit_lt (c := d)
        rw [List.flatMap_cons, List.flatMap_cons] at heq
        suffices hsame : c.toNat = d.toNat ∧ _ = _ by
          obtain rfl : c = d := Char.toNat_inj.1 hsame.1
          rw [ih t hsame.2]
        split at heq <;> split at heq <;>
          simp only [List.cons_append, List.nil_append, List.cons.injEq] at heq
        · exact heq
        · omega
        · omega
        · exact ⟨by omega, heq.2.2⟩
  intro s t heq
  exact String.toList_inj.1 (hcode s.toList t.toList heq)

theorem unitsLe_total : ∀ s t : List ℕ, unitsLe s t = true ∨ unitsLe t s = true
  | [], _ => .inl rfl
  | _ :: _, [] => .inr rfl
  | a :: s, b :: t => by
    rcases lt_trichotomy a b with hab | rfl | hab
    · exact .inl (by simp [unitsLe, hab])
    · simpa [unitsLe] using unitsLe_total s t
    · exact .inr (by simp [unitsLe, hab])

theorem unitsLe_trans : ∀ {s t u : List ℕ}, unitsLe s t = true → unitsLe t u = true →
    unitsLe s u = true
  | [], _, _, _, _ => rfl
  | _ :: _, [], _, h, _ => by cases h
  | _ :: _, _ :: _, [], _, h => by cases h
  | a :: s, b :: t, c :: u, hst, htu => by
    simp only [unitsLe, Bool.or_eq_true, Bool.and_eq_true, decide_eq_true_eq] at hst htu ⊢
    rcases hst with hab | ⟨rfl, hst⟩
    · rcases htu with hbc | ⟨rfl, -⟩
      · exact .inl (by omega)
      · exact .inl hab
    · rcases htu with hac | ⟨rfl, htu⟩
      · exact .inl hac
      · exact .inr ⟨rfl, unitsLe_trans hst htu⟩

theorem unitsLe_antisymm : ∀ {s t : List ℕ}, unitsLe s t = true → unitsLe t s = true → s = t
  | [], [], _, _ => rfl
  | [], _ :: _, _, h => by cases h
  | _ :: _, [], h, _ => by cases h
  | a :: s, b :: t, hst, hts => by
    simp only [unitsLe, Bool.or_eq_true, Bool.and_eq_true, decide_eq_true_eq] at hst hts
    rcases hst with hab | ⟨rfl, hst⟩
    · rcases hts with hba | ⟨rfl, -⟩ <;> omega
    · rcases hts with haa | ⟨-, hts⟩
      · omega
      · rw [unitsLe_antisymm hst hts]

section Sorted

variable {V : Type}

def KeyLe (a b : String × V) : Prop := unitsLe (utf16 a.1) (utf16 b.1) = true

instance : DecidableRel (KeyLe (V := V)) := fun _ _ => inferInstanceAs (Decidable (_ = true))

instance : Std.Total (KeyLe (V := V)) := ⟨fun _ _ => unitsLe_total _ _⟩

instance : IsTrans (String × V) KeyLe := ⟨fun _ _ _ => unitsLe_trans⟩

theorem perm_enumerate (members : List (String × V)) : (enumerate members).Perm members := by
  have hindices := List.perm_insertionSort
    (fun a b : String × V => (arrayIndex? a.1).getD 0 ≤ (arrayIndex? b.1).getD 0)
    (members.filter fun e => (arrayIndex? e.1).isSome)
  have hothers : (members.filter fun e => (arrayIndex? e.1).isNone) =
      members.filter fun e => !(arrayIndex? e.1).isSome := by
    congr 1
    funext e
    cases arrayIndex? e.1 <;> rfl
  have hsplit := List.filter_append_perm (fun e : String × V => (arrayIndex? e.1).isSome) members
  unfold enumerate
  rw [hothers]
  exact (hindices.append_right _).trans hsplit

theorem sort_eq_of_perm {members others : List (String × V)}
    (hnodup : (members.map Prod.fst).Nodup) (hperm : members.Perm others) :
    members.insertionSort KeyLe = others.insertionSort KeyLe := by
  have hmembers := List.perm_insertionSort KeyLe members
  have hothers := List.perm_insertionSort KeyLe others
  have hunique : ∀ a b, a ∈ members.insertionSort KeyLe → b ∈ others.insertionSort KeyLe →
      KeyLe a b → KeyLe b a → a = b := by
    intro a b ha hb hab hba
    have hkey : a.1 = b.1 := utf16_injective (unitsLe_antisymm hab hba)
    have hb' : b ∈ members := hperm.mem_iff.2 (hothers.mem_iff.1 hb)
    exact List.inj_on_of_nodup_map hnodup (hmembers.mem_iff.1 ha) hb' hkey
  exact List.Perm.eq_of_pairwise hunique (List.pairwise_insertionSort _ _)
    (List.pairwise_insertionSort _ _) (hmembers.trans (hperm.trans hothers.symm))

/-- **Sorting forgets the order of the members, and nothing else.** -/
theorem sort_eq_iff {members others : List (String × V)}
    (hnodup : (members.map Prod.fst).Nodup) :
    enumerate (members.insertionSort KeyLe) = enumerate (others.insertionSort KeyLe) ↔
      members.Perm others := by
  constructor
  · intro heq
    have hmembers := (perm_enumerate _).trans (List.perm_insertionSort KeyLe members)
    have hothers := (perm_enumerate _).trans (List.perm_insertionSort KeyLe others)
    exact hmembers.symm.trans (heq ▸ hothers)
  · intro hperm
    rw [sort_eq_of_perm hnodup hperm]

end Sorted

section Canonical

variable {N : Type}

def IsProto (key : String) : Prop := key = "__proto__"

theorem sortedItems_eq (items : List (Json N)) : sortedItems items = items.map sortedReplacer := by
  induction items with
  | nil => rfl
  | cons v items ih => rw [sortedItems, ih, List.map_cons]

theorem sortedMembers_eq (members : List (String × Json N)) :
    sortedMembers members = members.map fun e => (e.1, sortedReplacer e.2) := by
  induction members with
  | nil => rfl
  | cons e members ih => rw [sortedMembers, ih, List.map_cons]

/-- The members that the sorted copy takes, before they are sorted. -/
def takenMembers (members : List (String × Json N)) : List (String × Json N) :=
  (sortedMembers members).filter fun e => e.1 ≠ "__proto__"

theorem sortedReplacer_obj (members : List (String × Json N)) :
    sortedReplacer (.obj members) =
      .obj (enumerate ((takenMembers members).insertionSort KeyLe)) := by
  rw [sortedReplacer]
  rfl

theorem nodup_takenMembers {members : List (String × Json N)}
    (hnodup : (members.map Prod.fst).Nodup) : ((takenMembers members).map Prod.fst).Nodup := by
  have hkeys : (sortedMembers members).map Prod.fst = members.map Prod.fst := by
    rw [sortedMembers_eq, List.map_map]
    rfl
  have hsub := (List.filter_sublist (p := fun e : String × Json N => e.1 ≠ "__proto__")
    (l := sortedMembers members)).map Prod.fst
  exact (hkeys ▸ hnodup).sublist hsub

theorem mem_takenMembers {members : List (String × Json N)}
    (hnodup : (members.map Prod.fst).Nodup) {k : String} {w : Json N} :
    (k, w) ∈ takenMembers members ↔
      ¬IsProto k ∧ (Json.member? k members).map sortedReplacer = some w := by
  rw [takenMembers, List.mem_filter, sortedMembers_eq, List.mem_map, decide_eq_true_eq, and_comm]
  refine and_congr_right fun _ => ?_
  rw [Option.map_eq_some_iff]
  constructor
  · rintro ⟨⟨k', v⟩, hmem, heq⟩
    obtain ⟨rfl, rfl⟩ := Prod.mk.inj heq
    exact ⟨v, (Json.member?_eq_some_iff hnodup).2 hmem, rfl⟩
  · rintro ⟨v, hmember, rfl⟩
    exact ⟨(k, v), (Json.member?_eq_some_iff hnodup).1 hmember, rfl⟩

/-- **The sorted copies are equal exactly when the values are equal up to the order of members
and up to the members `__proto__`.** -/
theorem sortedReplacer_eq_iff {a b : Json N} (ha : a.Plain) (hb : b.Plain) :
    sortedReplacer a = sortedReplacer b ↔ Json.Alike IsProto a b := by
  induction a using Json.induct generalizing b with
  | null =>
    cases b with
    | null => exact iff_of_true rfl .null
    | _ => exact iff_of_false (by simp [sortedReplacer]) nofun
  | bool c =>
    cases b with
    | bool d =>
      simp only [sortedReplacer, Json.bool.injEq]
      exact ⟨fun h => h ▸ .bool c, fun h => by cases h; rfl⟩
    | _ => exact iff_of_false (by simp [sortedReplacer]) nofun
  | num n =>
    cases b with
    | num m =>
      simp only [sortedReplacer, Json.num.injEq]
      exact ⟨fun h => h ▸ .num n, fun h => by cases h; rfl⟩
    | _ => exact iff_of_false (by simp [sortedReplacer]) nofun
  | str s =>
    cases b with
    | str t =>
      simp only [sortedReplacer, Json.str.injEq]
      exact ⟨fun h => h ▸ .str s, fun h => by cases h; rfl⟩
    | _ => exact iff_of_false (by simp [sortedReplacer]) nofun
  | arr items ih =>
    cases b with
    | arr others =>
      rw [sortedReplacer, sortedReplacer, Json.arr.injEq, sortedItems_eq, sortedItems_eq]
      have hitem : ∀ (i : ℕ) (v w : Json N), items[i]? = some v → others[i]? = some w →
          (sortedReplacer v = sortedReplacer w ↔ Json.Alike IsProto v w) := by
        intro i v w hv hw
        have hv' := List.mem_of_getElem? hv
        exact ih v hv' (ha.items v hv') (hb.items w (List.mem_of_getElem? hw))
      constructor
      · intro heq
        have hlength : items.length = others.length := by
          simpa using congrArg List.length heq
        refine .arr hlength fun i v w hv hw => (hitem i v w hv hw).1 ?_
        have hget := congrArg (fun l : List (Json N) => l[i]?) heq
        simpa [hv, hw] using hget
      · rintro (_ | _ | _ | _ | ⟨hlength, halike⟩ | _)
        refine List.ext_getElem? fun i => ?_
        rw [List.getElem?_map, List.getElem?_map]
        cases hv : items[i]? with
        | none =>
          have hnone : others[i]? = none := by
            rw [List.getElem?_eq_none_iff] at hv ⊢
            omega
          rw [hnone]
        | some v =>
          obtain ⟨hi, -⟩ := List.getElem?_eq_some_iff.1 hv
          obtain ⟨w, hw⟩ : ∃ w, others[i]? = some w :=
            ⟨_, List.getElem?_eq_getElem (hlength ▸ hi)⟩
          rw [hw, Option.map_some, Option.map_some, (hitem i v w hv hw).2 (halike i v w hv hw)]
    | _ => exact iff_of_false (by simp [sortedReplacer]) nofun
  | obj members ih =>
    cases b with
    | obj others =>
      obtain ⟨hnodup, hplain⟩ := ha.members
      obtain ⟨hnodup', hplain'⟩ := hb.members
      rw [sortedReplacer_obj, sortedReplacer_obj, Json.obj.injEq,
        sort_eq_iff (nodup_takenMembers hnodup),
        List.perm_ext_iff_of_nodup (nodup_takenMembers hnodup).of_map
          (nodup_takenMembers hnodup').of_map]
      have hmember : ∀ (k : String) (v w : Json N), Json.member? k members = some v →
          Json.member? k others = some w →
          (sortedReplacer v = sortedReplacer w ↔ Json.Alike IsProto v w) := by
        intro k v w hv hw
        have hv' := (Json.member?_eq_some_iff hnodup).1 hv
        have hw' := (Json.member?_eq_some_iff hnodup').1 hw
        exact ih _ hv' (hplain _ hv') (hplain' _ hw')
      constructor
      · intro heq
        have hmap : ∀ k, ¬IsProto k → (Json.member? k members).map sortedReplacer =
            (Json.member? k others).map sortedReplacer := by
          intro k hk
          refine Option.ext fun w => ?_
          have hiff := heq (k, w)
          rw [mem_takenMembers hnodup, mem_takenMembers hnodup'] at hiff
          simpa [hk] using hiff
        refine .obj (fun k hk => ?_) fun k v w hk hv hw => (hmember k v w hv hw).1 ?_
        · simpa using congrArg Option.isSome (hmap k hk)
        · have hsame := hmap k hk
          rw [hv, hw] at hsame
          exact Option.some.inj hsame
      · rintro (_ | _ | _ | _ | _ | ⟨hsome, halike⟩) ⟨k, u⟩
        rw [mem_takenMembers hnodup, mem_takenMembers hnodup']
        refine and_congr_right fun hk => ?_
        have hkeys := hsome k hk
        cases hv : Json.member? k members with
        | none =>
          cases hw : Json.member? k others with
          | none => rfl
          | some w => rw [hv, hw] at hkeys; cases hkeys
        | some v =>
          cases hw : Json.member? k others with
          | none => rw [hv, hw] at hkeys; cases hkeys
          | some w =>
            rw [Option.map_some, Option.map_some,
              (hmember k v w hv hw).2 (halike k v w hk hv hw)]
    | _ => exact iff_of_false (by simp [sortedReplacer]) nofun

variable [JsonNumber N]

theorem canonicalJson_eq_iff {a b : Json N} (ha : a.Plain) (hb : b.Plain) :
    canonicalJson a = canonicalJson b ↔ Json.Alike IsProto a b := by
  rw [← sortedReplacer_eq_iff ha hb]
  constructor
  · exact fun heq => Json.stringify_inj JsonNumber.numberText heq
  · intro heq
    unfold canonicalJson
    rw [heq]

/-- The texts of two values are equal exactly when the values are, up to the order of members. -/
def CanonicalExact (a b : Json N) : Prop :=
  canonicalJson a = canonicalJson b ↔ Json.Alike (fun _ => False) a b

/-- The values differ, and in members `__proto__` only. -/
def DifferInProto (a b : Json N) : Prop :=
  Json.Alike IsProto a b ∧ ¬Json.Alike (fun _ => False) a b

theorem canonicalExact_iff {a b : Json N} (ha : a.Plain) (hb : b.Plain) :
    CanonicalExact a b ↔ ¬DifferInProto a b := by
  unfold CanonicalExact DifferInProto
  rw [canonicalJson_eq_iff ha hb, not_and, not_not]
  have hmono : Json.Alike (fun _ => False) a b → Json.Alike IsProto a b :=
    fun h => h.mono fun _ hk => hk.elim
  exact ⟨fun h => h.1, fun h => ⟨h, hmono⟩⟩

end Canonical

end ClawHarder
