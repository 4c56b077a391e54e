import ClawHarder.Spec.PublicClaims

/-!
# Governing public claims

* `infix_lower_iff`: a pattern is found in the lower case of a text exactly where letters of
  the text have its letters as their lower case.
* `infix_governed_iff`: **the claims that are left are those that are spelled neither in small
  letters nor with a capital first letter.**
* `governed_iff`: **every claim is rewritten exactly when each is spelled in one of these two
  ways**; a second pass changes nothing anyway (`govern_govern`).
-/

namespace ClawHarder.Policy

open PyText (lit codePoint)

variable (U : Unicode)

/-- The letter that a letter has for its lower case, as far as patterns can tell. -/
def foldPoint (c : CodePoint) : CodePoint :=
  if isUpper c then Fin.ofNat 0x110000 (c.val + 32)
  else if c = kelvin then codePoint 'k'
  else c

/-- A text of ASCII that does not end in `i`. -/
structure Searched (p : PyText) : Prop where
  ascii : ∀ a ∈ p, a.val < 128
  last : p.getLast? ≠ some (codePoint 'i')

theorem Searched.of_cons {a : CodePoint} {p : PyText} (h : Searched (a :: p)) : Searched p where
  ascii b hb := h.ascii b (List.mem_cons_of_mem a hb)
  last := by
    cases p with
    | nil => exact fun hlast => by cases hlast
    | cons b p =>
      have hlast := h.last
      rwa [List.getLast?_cons_cons] at hlast

def Barrier (piece : PyText) : Prop :=
  ∀ p rest, Searched p → p ≠ [] → ¬p <+: piece ++ rest ∧ (p <:+: piece ++ rest ↔ p <:+: rest)

theorem barrier_nonAscii {piece : PyText} (hne : piece ≠ []) (h : ∀ d ∈ piece, 128 ≤ d.val) :
    Barrier piece := by
  intro p rest hp hpne
  have hhead : ∀ d piece', 128 ≤ d.val → ¬p <+: d :: piece' := by
    intro d piece' hd hpre
    cases p with
    | nil => exact hpne rfl
    | cons a p =>
      obtain ⟨rfl, -⟩ := List.cons_prefix_cons.1 hpre
      have hascii := hp.ascii a List.mem_cons_self
      omega
  constructor
  · cases piece with
    | nil => exact absurd rfl hne
    | cons d piece => exact hhead d _ (h d List.mem_cons_self)
  · clear hne
    induction piece with
    | nil => exact Iff.rfl
    | cons d piece ih =>
      rw [List.cons_append, List.infix_cons_iff,
        or_iff_right (hhead d _ (h d List.mem_cons_self)),
        ih fun e he => h e (List.mem_cons_of_mem d he)]

theorem barrier_dottedI : Barrier [codePoint 'i', 0x307] := by
  intro p rest hp hpne
  have hdot : Barrier [(0x307 : CodePoint)] :=
    barrier_nonAscii (by decide) fun d hd => by rw [List.mem_singleton.1 hd]; decide
  have hpre : ¬p <+: codePoint 'i' :: ([0x307] ++ rest) := by
    intro hpre
    cases p with
    | nil => exact hpne rfl
    | cons a p =>
      obtain ⟨rfl, htail⟩ := List.cons_prefix_cons.1 hpre
      -- the pattern ends in its `i`, or goes on with the dot
      by_cases hend : p = []
      · subst hend
        exact hp.last rfl
      · exact (hdot p rest hp.of_cons hend).1 htail
  refine ⟨hpre, ?_⟩
  rw [List.cons_append, List.infix_cons_iff, or_iff_right hpre]
  exact (hdot p rest hp hpne).2

theorem lowerChar_cases (before after : PyText) (c : CodePoint) :
    lowerChar U before after c = [foldPoint c] ∨
      (Barrier (lowerChar U before after c) ∧ Barrier [foldPoint c]) := by
  unfold lowerChar foldPoint
  by_cases hupper : isUpper c
  · rw [if_pos hupper, if_pos hupper]
    exact .inl rfl
  rw [if_neg hupper, if_neg hupper]
  by_cases hascii : c.val < 128
  · have hkelvin : c ≠ kelvin := by
      rintro rfl
      exact absurd hascii (by decide)
    rw [if_pos hascii, if_neg hkelvin]
    exact .inl rfl
  rw [if_neg hascii]
  by_cases hkelvin : c = kelvin
  · rw [if_pos hkelvin, if_pos hkelvin]
    exact .inl rfl
  rw [if_neg hkelvin, if_neg hkelvin]
  have hself : Barrier [c] := barrier_nonAscii (by simp) fun d hd => by
    rw [List.mem_singleton.1 hd]
    omega
  refine .inr ⟨?_, hself⟩
  by_cases hdotted : c = dottedI
  · rw [if_pos hdotted]
    exact barrier_dottedI
  · rw [if_neg hdotted]
    exact barrier_nonAscii (U.nonempty _ _ _) (U.nonAscii _ _ _)

theorem prefix_lowerFrom_iff {p : PyText} (hp : Searched p) (before text : PyText) :
    p <+: lowerFrom U before text ↔ p <+: text.map foldPoint := by
  induction text generalizing p before with
  | nil => exact Iff.rfl
  | cons c text ih =>
    unfold lowerFrom
    rw [List.map_cons]
    by_cases hne : p = []
    · subst hne
      exact iff_of_true List.nil_prefix List.nil_prefix
    rcases lowerChar_cases U before text c with hone | ⟨hlower, hfold⟩
    · rw [hone, List.singleton_append]
      cases p with
      | nil => exact absurd rfl hne
      | cons a p => rw [List.cons_prefix_cons, List.cons_prefix_cons, ih hp.of_cons]
    · exact iff_of_false (hlower p _ hp hne).1 (hfold p _ hp hne).1

theorem infix_lowerFrom_iff {p : PyText} (hp : Searched p) (hne : p ≠ []) (before text : PyText) :
    p <:+: lowerFrom U before text ↔ p <:+: text.map foldPoint := by
  induction text generalizing before with
  | nil => exact Iff.rfl
  | cons c text ih =>
    have hprefix := prefix_lowerFrom_iff U hp before (c :: text)
    unfold lowerFrom at hprefix ⊢
    rw [List.map_cons] at hprefix ⊢
    rcases lowerChar_cases U before text c with hone | ⟨hlower, hfold⟩
    · rw [hone, List.singleton_append] at hprefix ⊢
      rw [List.infix_cons_iff, List.infix_cons_iff, ih, hprefix]
    · have hright := (hfold p (text.map foldPoint) hp hne).2
      rw [List.singleton_append] at hright
      rw [(hlower p _ hp hne).2, hright, ih]

/-- **Where a pattern is found in the lower case of a text.** -/
theorem infix_lower_iff {p : PyText} (hp : Searched p) (hne : p ≠ []) (text : PyText) :
    p <:+: lower U text ↔ ∃ w, w <:+: text ∧ w.map foldPoint = p := by
  unfold lower
  rw [infix_lowerFrom_iff U hp hne]
  constructor
  · rintro ⟨s, t, hst⟩
    obtain ⟨ab, c, rfl, hab, -⟩ := List.append_eq_map_iff.1 hst
    obtain ⟨a, b, rfl, -, hb⟩ := List.append_eq_map_iff.1 hab.symm
    exact ⟨b, ⟨a, c, rfl⟩, hb⟩
  · rintro ⟨w, hw, rfl⟩
    exact hw.map foldPoint

def firstMark : CodePoint := codePoint 'i'

def secondMark : CodePoint := codePoint ' '

instance (u : PyText) : Decidable (List.Unmarked foldPoint firstMark secondMark u) :=
  decidable_of_iff (¬[firstMark, secondMark] <:+: u.map foldPoint ∧
    (u.map foldPoint).getLast? ≠ some firstMark)
    ⟨fun h => ⟨h.1, h.2⟩, fun h => ⟨h.inside, h.last⟩⟩

instance (w : PyText) : Decidable (List.MarkedWord foldPoint firstMark secondMark w) :=
  decidable_of_iff ([firstMark, secondMark] <+: w.map foldPoint ∧
    List.Unmarked foldPoint firstMark secondMark w.tail)
    ⟨fun h => ⟨h.1, h.2⟩, fun h => ⟨h.starts, h.tail⟩⟩

theorem marked_replacements : ∀ item ∈ replacements,
    List.MarkedWord foldPoint firstMark secondMark item.1 ∧
      List.MarkedWord foldPoint firstMark secondMark (capitalize item.1) ∧
      List.MarkedWord foldPoint firstMark secondMark item.2 := by
  decide +kernel

theorem fold_patterns : ∀ item ∈ replacements,
    item.1.map foldPoint = item.1 ∧ (capitalize item.1).map foldPoint = item.1 := by
  decide +kernel

theorem patterns_clash : ∀ item ∈ replacements, ∀ other ∈ replacements,
    ¬item.1 <+: other.2.map foldPoint ∧ ¬other.2.map foldPoint <+: item.1 := by
  decide +kernel

theorem patterns_apart : ∀ item ∈ replacements, ∀ other ∈ replacements,
    item.1 <+: other.1 → item.1 = other.1 := by
  decide +kernel

variable {item : PyText × PyText}

theorem searched_patterns (hitem : item ∈ replacements) :
    Searched item.1 ∧ item.1 ≠ [] := by
  have hall : ∀ item ∈ replacements, (item.1.all fun a => decide (a.val < 128)) = true ∧
      item.1.getLast? ≠ some (codePoint 'i') ∧ item.1 ≠ [] := by
    decide +kernel
  obtain ⟨hascii, hlast, hne⟩ := hall item hitem
  exact ⟨⟨fun a ha => of_decide_eq_true (List.all_eq_true.1 hascii a ha), hlast⟩, hne⟩

def Claims (item : PyText × PyText) (w : PyText) : Prop := w.map foldPoint = item.1

def Spelled (item : PyText × PyText) (w : PyText) : Prop := w = item.1 ∨ w = capitalize item.1

theorem prefix_or_prefix {a b x : PyText} (h : a <+: b ++ x) : a <+: b ∨ b <+: a :=
  List.prefix_or_prefix_of_prefix h (List.prefix_append b x)

theorem markedWord_of_claims (hitem : item ∈ replacements) {w : PyText}
    (hw : Claims item w) : List.MarkedWord foldPoint firstMark secondMark w := by
  have hpattern := (marked_replacements item hitem).1
  have hfold := (fold_patterns item hitem).1
  constructor
  · have hstarts := hpattern.starts
    rwa [hfold, ← hw] at hstarts
  · have htail : w.tail.map foldPoint = item.1.tail.map foldPoint := by
      rw [List.map_tail, List.map_tail, hw, hfold]
    exact ⟨by rw [htail]; exact hpattern.tail.inside, by rw [htail]; exact hpattern.tail.last⟩

theorem infix_replace_iff {other : PyText × PyText} (hitem : item ∈ replacements)
    (hother : other ∈ replacements) {old w : PyText} (hold : Spelled other old)
    (hw : Claims item w) (text : PyText) :
    w <:+: List.replaceAll old other.2 text ↔ w <:+: text ∧ w ≠ old := by
  obtain ⟨hsmall, hcapital, hnew⟩ := marked_replacements other hother
  obtain ⟨hfoldSmall, hfoldCapital⟩ := fold_patterns other hother
  have holdMarked : List.MarkedWord foldPoint firstMark secondMark old := by
    rcases hold with rfl | rfl
    · exact hsmall
    · exact hcapital
  have holdFold : old.map foldPoint = other.1 := by
    rcases hold with rfl | rfl
    · exact hfoldSmall
    · exact hfoldCapital
  refine List.infix_replaceAll_iff (markedWord_of_claims hitem hw) holdMarked hnew ?_ ?_ text
  · intro x hpre
    have hmap := hpre.map foldPoint
    rw [hw, List.map_append] at hmap
    obtain ⟨hleft, hright⟩ := patterns_clash item hitem other hother
    rcases prefix_or_prefix hmap with hpre | hpre
    · exact hleft hpre
    · exact hright hpre
  · intro x hpre
    have hmap := hpre.map foldPoint
    rw [hw, List.map_append, holdFold] at hmap
    have hsame : item.1 = other.1 := by
      rcases prefix_or_prefix hmap with hpre | hpre
      · exact patterns_apart item hitem other hother hpre
      · exact (patterns_apart other hother item hitem hpre).symm
    have hlength : w.length = old.length := by
      rw [← List.length_map (f := foldPoint), hw, hsame, ← holdFold, List.length_map]
    obtain ⟨rest, hrest⟩ := hpre
    exact (List.append_inj hrest hlength).1

variable {U} {profile : GovernanceProfile}

variable {state : PyText × List PyText}

theorem infix_applyReplacement_iff (hprofile : profile.rewriteBroadRequests = true)
    {text : PyText} {other : PyText × PyText} (hitem : item ∈ replacements)
    (hother : other ∈ replacements) {w : PyText} (hw : Claims item w) (hstate : w <:+: state.1 → w <:+: text) :
    w <:+: (applyReplacement profile (lower U text) state other).1 ↔
      w <:+: state.1 ∧ ¬Spelled other w := by
  unfold applyReplacement
  by_cases hmatch : other.1 <:+: lower U text
  · rw [if_pos hmatch]
    simp only [hprofile, if_true]
    rw [infix_replace_iff hitem hother (.inr rfl) hw, infix_replace_iff hitem hother (.inl rfl) hw]
    unfold Spelled
    rw [not_or, and_assoc]
  · rw [if_neg hmatch]
    refine ⟨fun hin => ⟨hin, fun hspelled => hmatch ?_⟩, And.left⟩
    obtain ⟨hsearched, hne⟩ := searched_patterns hother
    obtain ⟨hfoldSmall, hfoldCapital⟩ := fold_patterns other hother
    refine (infix_lower_iff U hsearched hne text).2 ⟨w, hstate hin, ?_⟩
    rcases hspelled with rfl | rfl
    · exact hfoldSmall
    · exact hfoldCapital

theorem infix_foldl_iff (hprofile : profile.rewriteBroadRequests = true) {text : PyText} (hitem : item ∈ replacements) {w : PyText} (hw : Claims item w)
    {items : List (PyText × PyText)} (hitems : ∀ other ∈ items, other ∈ replacements) (hstate : w <:+: state.1 → w <:+: text) :
    w <:+: (items.foldl (applyReplacement profile (lower U text)) state).1 ↔
      w <:+: state.1 ∧ ∀ other ∈ items, ¬Spelled other w := by
  induction items generalizing state with
  | nil => simp
  | cons other items ih =>
    have hone := infix_applyReplacement_iff (U := U) hprofile hitem
      (hitems other List.mem_cons_self) hw hstate
    have hrest := ih (fun o ho => hitems o (List.mem_cons_of_mem other ho))
      fun hin => hstate (hone.1 hin).1
    rw [List.foldl_cons, hrest, hone, List.forall_mem_cons, and_assoc]

theorem foldl_fst_of_no_reasons {lowered : PyText} {items : List (PyText × PyText)}
    (h : (items.foldl (applyReplacement profile lowered) state).2 = []) :
    (items.foldl (applyReplacement profile lowered) state).1 = state.1 ∧ state.2 = [] := by
  induction items generalizing state with
  | nil => exact ⟨rfl, h⟩
  | cons item items ih =>
    rw [List.foldl_cons] at h ⊢
    obtain ⟨htext, hreasons⟩ := ih h
    unfold applyReplacement at htext hreasons ⊢
    by_cases hmatch : item.1 <:+: lowered
    · rw [if_pos hmatch] at hreasons
      simp at hreasons
    · rw [if_neg hmatch] at htext hreasons ⊢
      exact ⟨htext, hreasons⟩

theorem govern_fst (text : PyText) (profile : GovernanceProfile) :
    (governPublicClaims U text profile).1 =
      (replacements.foldl (applyReplacement profile (lower U text)) (text, [])).1 := by
  unfold governPublicClaims
  by_cases hnone : (replacements.foldl (applyReplacement profile (lower U text)) (text, [])).2 = []
  · simp only [hnone, if_true]
    exact (foldl_fst_of_no_reasons hnone).1.symm
  · simp only [hnone, if_false]

/-- **The claims that are left are those that are spelled neither in small letters nor with a
capital first letter.** -/
theorem infix_governed_iff (hprofile : profile.rewriteBroadRequests = true) {text : PyText} (hitem : item ∈ replacements) {w : PyText} (hw : Claims item w) :
    w <:+: (governPublicClaims U text profile).1 ↔ w <:+: text ∧ ¬Spelled item w := by
  have hsame : w <:+: ((text, []) : PyText × List PyText).1 → w <:+: text := id
  rw [govern_fst, infix_foldl_iff hprofile hitem hw (fun other ho => ho) hsame]
  refine and_congr_right fun _ => ⟨fun hall => hall item hitem, ?_⟩
  intro hnot other hother hspelled
  -- a spelling of another item would make that claim
  obtain ⟨hfoldSmall, hfoldCapital⟩ := fold_patterns other hother
  have hsame : other.1 = item.1 := by
    rcases hspelled with rfl | rfl
    · exact hfoldSmall.symm.trans hw
    · exact hfoldCapital.symm.trans hw
  unfold Spelled at hspelled hnot
  rw [hsame] at hspelled
  exact hnot hspelled

/-- **A second pass changes nothing.** -/
theorem govern_govern (hprofile : profile.rewriteBroadRequests = true) (text : PyText) :
    (governPublicClaims U (governPublicClaims U text profile).1 profile).1 =
      (governPublicClaims U text profile).1 := by
  set governed := (governPublicClaims U text profile).1 with hgoverned
  have hnone : ∀ other ∈ replacements, ∀ old, Spelled other old → ¬old <:+: governed := by
    intro other hother old hspelled hin
    obtain ⟨hfoldSmall, hfoldCapital⟩ := fold_patterns other hother
    have hclaims : Claims other old := by
      rcases hspelled with rfl | rfl
      · exact hfoldSmall
      · exact hfoldCapital
    exact ((infix_governed_iff hprofile hother hclaims).1 hin).2 hspelled
  have hfold : ∀ (items : List (PyText × PyText)), (∀ other ∈ items, other ∈ replacements) →
      ∀ state : PyText × List PyText, state.1 = governed →
        (items.foldl (applyReplacement profile (lower U governed)) state).1 = governed := by
    intro items
    induction items with
    | nil => exact fun _ _ hstate => hstate
    | cons other items ih =>
      intro hitems state hstate
      have hother := hitems other List.mem_cons_self
      obtain ⟨hsmall, hcapital, -⟩ := marked_replacements other hother
      have hrest := ih fun o ho => hitems o (List.mem_cons_of_mem other ho)
      have hstep : (applyReplacement profile (lower U governed) state other).1 = governed := by
        unfold applyReplacement
        by_cases hmatch : other.1 <:+: lower U governed
        · simp only [if_pos hmatch, hprofile, if_true, hstate]
          rw [List.replaceAll_of_not_infix hsmall.ne_nil (hnone other hother _ (.inl rfl)),
            List.replaceAll_of_not_infix hcapital.ne_nil (hnone other hother _ (.inr rfl))]
        · rw [if_neg hmatch, hstate]
      rw [List.foldl_cons]
      exact hrest _ hstep
  rw [govern_fst]
  exact hfold replacements (fun other ho => ho) (governed, []) rfl

/-- The text makes no claim that `lower()` shows. -/
def Complete (U : Unicode) (text : PyText) : Prop :=
  ∀ item ∈ replacements, ¬item.1 <:+: lower U text

def ClaimsGoverned (U : Unicode) (profile : GovernanceProfile) (text : PyText) : Prop :=
  Complete U (governPublicClaims U text profile).1 ∧
    (governPublicClaims U (governPublicClaims U text profile).1 profile).1 =
      (governPublicClaims U text profile).1

/-- Each claim in the text is in small letters, or in small letters with a capital first one. -/
def PlainlySpelled (text : PyText) : Prop :=
  ∀ item ∈ replacements, ∀ w, w <:+: text → Claims item w → Spelled item w

/-- **Every claim is rewritten exactly when each is spelled as the code looks for it.** -/
theorem governed_iff (U : Unicode) {profile : GovernanceProfile}
    (hprofile : profile.rewriteBroadRequests = true) (text : PyText) :
    ClaimsGoverned U profile text ↔ PlainlySpelled text := by
  have hidempotent := govern_govern (U := U) hprofile text
  have hcomplete : Complete U (governPublicClaims U text profile).1 ↔ PlainlySpelled text := by
    unfold Complete PlainlySpelled
    refine forall₂_congr fun item hitem => ?_
    obtain ⟨hsearched, hne⟩ := searched_patterns hitem
    rw [infix_lower_iff U hsearched hne, not_exists]
    refine forall_congr' fun w => ?_
    rw [not_and]
    constructor
    · intro hleft hin hw
      by_contra hspelled
      exact hleft ((infix_governed_iff hprofile hitem hw).2 ⟨hin, hspelled⟩) hw
    · intro hall hin hw
      obtain ⟨htext, hnot⟩ := (infix_governed_iff hprofile hitem hw).1 hin
      exact hnot (hall htext hw)
  unfold ClaimsGoverned
  rw [hcomplete]
  exact and_iff_left hidempotent

theorem remember_governed :
    ClaimsGoverned asciiOnly {} (lit "I remember you.") ↔ PlainlySpelled (lit "I remember you.") :=
  governed_iff asciiOnly rfl (lit "I remember you.")

theorem capitals_left : ¬ClaimsGoverned asciiOnly {} (lit "I REMEMBER you.") := by
  rintro ⟨hcomplete, -⟩
  have hleft : lit "i remember" <:+:
      lower asciiOnly (governPublicClaims asciiOnly (lit "I REMEMBER you.") {}).1 := by
    decide +kernel
  exact hcomplete (lit "i remember", lit "I may have relevant context in this session")
    List.mem_cons_self hleft

end ClawHarder.Policy
