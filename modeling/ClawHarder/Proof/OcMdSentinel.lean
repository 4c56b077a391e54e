import ClawHarder.Proof.OcSentinel

/-!
# The redaction sentinel in edited markdown

* `clear_replaced`: what comes in place of the value of a bullet does not join with what stands
  around it.
* `keeps_setMdInsertion`, `keeps_setMdOcPath`: **insertion has no guard, and the guard of an edit
  does not look at what `$` in the value stands for.**
-/

namespace ClawHarder.OcPaths

abbrev AllClear (parts : List Units) : Prop := ∀ p ∈ parts, Clear p

structure MdClear (ast : MdAst) : Prop where
  frontmatter : ∀ e ∈ ast.frontmatter, Clear e.key ∧ Clear e.value
  preamble : Clear ast.preamble
  blocks : ∀ b ∈ ast.blocks, Clear b.heading ∧ Clear b.bodyText

theorem clear_formatFrontmatterValue (value : Units) :
    Clear (formatFrontmatterValue value) ↔ Clear value := by
  unfold formatFrontmatterValue
  split_ifs with hempty hstructural
  · have hquotes : Apart (utf16 "\"\"") := by decide +kernel
    rw [hempty]
    exact ⟨fun _ => clear_nil, fun _ => clear_apart hquotes⟩
  · exact clear_jsonString value
  · rfl

theorem allClear_frontmatterParts (ast : MdAst) :
    AllClear (frontmatterParts ast) ↔ ∀ e ∈ ast.frontmatter, Clear e.key ∧ Clear e.value := by
  have hcolon : Apart (utf16 ": ") := by decide +kernel
  have hfence : Clear (utf16 "---") := by decide +kernel
  unfold frontmatterParts
  split_ifs with hempty
  · simp [AllClear, hempty]
  · have hentry : ∀ e : FrontmatterEntry,
        Clear (e.key ++ utf16 ": " ++ formatFrontmatterValue e.value) ↔
          Clear e.key ∧ Clear e.value := by
      intro e
      rw [clear_around hcolon (by decide +kernel), clear_formatFrontmatterValue]
    simp only [AllClear, List.forall_mem_append, List.forall_mem_cons, List.forall_mem_map,
      hentry, hfence, true_and, List.not_mem_nil, false_implies, implies_true, and_true]

theorem allClear_separate (parts : List Units) : AllClear (separate parts) ↔ AllClear parts := by
  unfold separate
  split_ifs with hempty
  · simp [hempty]
  · rw [AllClear, List.forall_mem_append, List.forall_mem_singleton]
    exact and_iff_left clear_nil

theorem allClear_preambleParts (ast : MdAst) (parts : List Units) :
    AllClear (preambleParts ast parts) ↔ AllClear parts ∧ Clear ast.preamble := by
  unfold preambleParts
  split_ifs with hempty
  · simp [hempty, clear_nil]
  · rw [AllClear, List.forall_mem_append, List.forall_mem_singleton]
    exact and_congr_left fun _ => allClear_separate parts

theorem allClear_blockParts (parts : List Units) (block : AstBlock) :
    AllClear (blockParts parts block) ↔
      AllClear parts ∧ Clear block.heading ∧ Clear block.bodyText := by
  have hmarker : Apart (utf16 "## ") := by decide +kernel
  have hheading : AllClear (separate parts ++ [utf16 "## " ++ block.heading]) ↔
      AllClear parts ∧ Clear block.heading := by
    rw [AllClear, List.forall_mem_append, List.forall_mem_singleton, clear_apart_append hmarker]
    exact and_congr_left fun _ => allClear_separate parts
  unfold blockParts
  split_ifs with hempty
  · rw [hheading, hempty]
    exact and_congr_right fun _ => (and_iff_left clear_nil).symm
  · rw [AllClear, List.forall_mem_append, List.forall_mem_singleton, ← and_assoc]
    exact and_congr_left fun _ => hheading

theorem allClear_blocks (parts : List Units) (blocks : List AstBlock) :
    AllClear (blocks.foldl blockParts parts) ↔
      AllClear parts ∧ ∀ b ∈ blocks, Clear b.heading ∧ Clear b.bodyText := by
  induction blocks generalizing parts with
  | nil => simp
  | cons block blocks ih =>
    rw [List.foldl_cons, ih, allClear_blockParts, List.forall_mem_cons, and_assoc]

/-- **A rebuilt file is clear exactly when its texts are.** -/
theorem clear_rebuildMdRaw (ast : MdAst) : Clear (rebuildMdRaw ast).raw ↔ MdClear ast := by
  have hline : Apart [lineFeed] := by decide +kernel
  unfold rebuildMdRaw
  have hparts := allClear_blocks (preambleParts ast (frontmatterParts ast)) ast.blocks
  rw [allClear_preambleParts, allClear_frontmatterParts] at hparts
  rw [clear_intercalate hline (by simp)]
  refine Iff.trans hparts ?_
  exact ⟨fun h => ⟨h.1.1, h.1.2, h.2⟩, fun h => ⟨⟨h.frontmatter, h.preamble⟩, h.blocks⟩⟩

/-- What a match is: its parts make up the text, the group ends behind a colon, and the match
ends at the end of a line. -/
structure BulletMatch.Of (m : BulletMatch) (s : Units) : Prop where
  text : s = m.before ++ (m.group ++ (m.value ++ m.after))
  group : ∃ key spaces, m.group = key ++ colon :: spaces ∧ ∀ c ∈ spaces, isSpace c = true
  after : ∀ c ∈ m.after.head?, isTerminator c = true

theorem afterKey_eq_some {key s left : Units} {ws : ℕ} (h : afterKey key s ws = some left) :
    ∃ front spaces, s = front ++ colon :: (spaces ++ left) ∧ ∀ c ∈ spaces, isSpace c = true := by
  unfold afterKey at h
  dsimp only at h
  split_ifs at h with hkey
  split at h
  next c rest hrest =>
    split_ifs at h with hcolon
    obtain rfl := Option.some.inj h
    subst hcolon
    refine ⟨s.take ws ++ ((s.drop ws).take key.length ++
      ((s.drop ws).drop key.length).takeWhile isSpace), rest.takeWhile isSpace, ?_, ?_⟩
    · rw [List.takeWhile_append_dropWhile, ← hrest, List.append_assoc, List.append_assoc,
        List.takeWhile_append_dropWhile, List.take_append_drop, List.take_append_drop]
    · intro c hc
      exact List.mem_takeWhile_imp hc
  next => cases h

theorem take_of_append {s front left : Units} (hs : s = front ++ left) :
    s.take (s.length - left.length) = front := by
  rw [hs, List.length_append, Nat.add_sub_cancel, List.take_left]

variable {m : BulletMatch}

theorem bulletAt_eq_some {key s : Units} (h : bulletAt key s = some m) :
    m.before = [] ∧ m.Of s := by
  unfold bulletAt at h
  split at h
  next c rest hrest =>
    split_ifs at h with hhyphen
    rw [Option.map_eq_some_iff] at h
    obtain ⟨left, hleft, rfl⟩ := h
    obtain ⟨ws, -, hws⟩ := List.exists_of_findSome?_eq_some hleft
    obtain ⟨front, spaces, hfront, hspaces⟩ := afterKey_eq_some hws
    have hsplit := List.takeWhile_append_dropWhile (p := isSpace) (l := s)
    rw [hrest, hfront] at hsplit
    have hs : s = (s.takeWhile isSpace ++ c :: front) ++ colon :: spaces ++ left := by
      simpa only [List.append_assoc, List.cons_append] using hsplit.symm
    have hgroup := take_of_append hs
    refine ⟨rfl, ?_, ⟨_, spaces, hgroup, hspaces⟩, ?_⟩
    · rw [List.nil_append, List.takeWhile_append_dropWhile, hgroup]
      exact hs
    · intro d hd
      have hhead := List.head?_dropWhile_not (fun c => !isTerminator c) left
      rw [Option.mem_def.1 hd] at hhead
      simpa using hhead
  next => cases h

theorem findBullet_eq_some {key s : Units} {atStart : Bool}
    (h : findBullet key atStart s = some m) : m.Of s := by
  induction s generalizing atStart m with
  | nil => cases h
  | cons c s ih =>
    unfold findBullet at h
    split at h
    next m' hm =>
      obtain rfl := Option.some.inj h
      cases atStart with
      | false => cases hm
      | true => exact (bulletAt_eq_some hm).2
    next =>
      rw [Option.map_eq_some_iff] at h
      obtain ⟨m', hm, rfl⟩ := h
      have hrest := ih hm
      exact ⟨congrArg (c :: ·) hrest.text, hrest.group, hrest.after⟩

theorem space_not_letter : ∀ c ∈ redactedSentinel, isSpace c = false ∧ isTerminator c = false := by
  decide +kernel

theorem apart_spaces {spaces : Units} (h : ∀ c ∈ spaces, isSpace c = true) : Apart spaces := by
  intro c hc hmem
  have hspace := h c hc
  rw [(space_not_letter c hmem).1] at hspace
  cases hspace

theorem clear_append_after {s : Units} (h : m.Of s) (t : Units) :
    Clear (t ++ m.after) ↔ Clear t ∧ Clear m.after := by
  cases hafter : m.after with
  | nil =>
    rw [List.append_nil]
    exact (and_iff_left clear_nil).symm
  | cons c rest =>
    have hterminator := h.after c (by rw [hafter]; rfl)
    have hc : c ∉ redactedSentinel := by
      intro hmem
      rw [(space_not_letter c hmem).2] at hterminator
      cases hterminator
    have hrest := clear_cut hc [] rest
    rw [clear_cut hc]
    exact and_congr_right fun _ => (hrest.trans (and_iff_right clear_nil)).symm

/-- **A replaced bullet** is clear when what comes in place of its value is. -/
theorem clear_replaced {s : Units} (h : m.Of s) (t : Units) :
    Clear (m.before ++ (m.group ++ t) ++ m.after) ↔
      Clear (m.before ++ m.group) ∧ Clear t ∧ Clear m.after := by
  obtain ⟨key, spaces, hgroup, hspaces⟩ := h.group
  have hcolon : Apart (colon :: spaces) := by
    intro c hc
    rcases List.mem_cons.1 hc with rfl | hc
    · exact not_mem_sentinel (by decide) (by decide)
    · exact apart_spaces hspaces c hc
  have hfront : Clear (m.before ++ m.group) ↔ Clear (m.before ++ key) := by
    rw [hgroup, ← List.append_assoc, clear_append_apart hcolon]
  have hsplit : m.before ++ (m.group ++ t) ++ m.after =
      m.before ++ key ++ colon :: spaces ++ (t ++ m.after) := by
    rw [hgroup]
    simp only [List.append_assoc, List.cons_append]
  rw [hsplit, clear_around hcolon (by simp), clear_append_after h, hfront]

/-- What replacing the value of a bullet writes without a guard: the value with what `$` stands
for in it, and the text around the bullet. -/
def ReplacementClear (key newValue oldValue body : Units) : Prop :=
  if newValue = oldValue then Clear body
  else
    match findBullet key true body with
    | none => Clear body
    | some m => Clear (m.before ++ m.group) ∧ Clear (expand m newValue) ∧ Clear m.after

theorem expand_group (m : BulletMatch) (value : Units) :
    expand m (dollar :: 0x31 :: value) = m.group ++ expand m value := rfl

theorem clear_replaceBullet {key newValue oldValue body : Units} (hne : newValue ≠ oldValue) :
    Clear (replaceBullet key newValue body) ↔ ReplacementClear key newValue oldValue body := by
  unfold replaceBullet ReplacementClear
  rw [if_neg hne]
  cases hm : findBullet key true body with
  | none => rfl
  | some m =>
    simp only [expand_group]
    exact clear_replaced (findBullet_eq_some hm) (expand m newValue)

theorem rebuildItem_same (body : Units) (item : AstItem) : rebuildItem body (item, item) = body := by
  unfold rebuildItem
  cases item.kv? with
  | none => rfl
  | some kv => exact if_pos rfl

theorem foldl_same (items : List AstItem) (body : Units) :
    (items.zip items).foldl rebuildItem body = body := by
  induction items with
  | nil => rfl
  | cons item items ih =>
    rw [List.zip_cons_cons, List.foldl_cons, rebuildItem_same]
    exact ih

/-- **One item changes, and its bullet is replaced.** -/
theorem rebuildBlockBody_set {block : AstBlock} {i : ℕ} {item : AstItem} {key oldValue : Units}
    (hitem : block.items[i]? = some item) (hkv : item.kv? = some (key, oldValue))
    (newValue : Units) :
    rebuildBlockBody block (block.items.set i { item with kv? := some (key, newValue) }) =
      if newValue = oldValue then block.bodyText
      else replaceBullet key newValue block.bodyText := by
  unfold rebuildBlockBody
  generalize block.bodyText = body
  generalize block.items = items at hitem
  induction items generalizing i body with
  | nil => cases hitem
  | cons first items ih =>
    cases i with
    | zero =>
      obtain rfl : first = item := by simpa using hitem
      rw [List.set_cons_zero, List.zip_cons_cons, List.foldl_cons, foldl_same]
      unfold rebuildItem
      simp only [hkv]
    | succ i =>
      rw [List.getElem?_cons_succ] at hitem
      rw [List.set_cons_succ, List.zip_cons_cons, List.foldl_cons, rebuildItem_same]
      exact ih body hitem

section Md

variable {J : Js} {ast : MdAst} {value : Units}

theorem forall_mem_modify {α : Type} {P : α → Prop} {Q : Prop} {xs : List α} {i : ℕ}
    {f g : α → α} (hi : i < xs.length) (hf : ∀ x, P (f x) ↔ P (g x) ∧ Q) :
    (∀ x ∈ xs.modify i f, P x) ↔ (∀ x ∈ xs.modify i g, P x) ∧ Q := by
  induction xs generalizing i with
  | nil => cases hi
  | cons x xs ih =>
    cases i with
    | zero =>
      rw [List.modify_zero_cons, List.modify_zero_cons, List.forall_mem_cons,
        List.forall_mem_cons, hf]
      exact and_right_comm
    | succ i =>
      rw [List.modify_succ_cons, List.modify_succ_cons, List.forall_mem_cons,
        List.forall_mem_cons, ih (Nat.lt_of_succ_lt_succ hi), and_assoc]

theorem clear_appendLine (body value : Units) :
    Clear (appendLine body (utf16 "- " ++ value)) ↔ Clear body ∧ Clear value := by
  have hmarker : Apart (utf16 "- ") := by decide +kernel
  have hline : Apart [lineFeed] := by decide +kernel
  have hvalue := clear_apart_append hmarker value
  unfold appendLine
  split_ifs with hempty
  · rw [hvalue, hempty]
    exact (and_iff_right clear_nil).symm
  · have hlines : Apart (body.rtakeWhile fun c => c = lineFeed) := by
      intro c hc
      have hline := List.mem_rtakeWhile_imp hc
      obtain rfl : c = lineFeed := of_decide_eq_true hline
      exact not_mem_sentinel (by decide) (by decide)
    have hbody := clear_append_apart hlines (body.rdropWhile fun c => c = lineFeed)
    rw [List.rdropWhile_append_rtakeWhile] at hbody
    rw [clear_around hline (by simp), hvalue, hbody]

/-- When an insertion into markdown writes nothing with the sentinel. -/
def MdInsertionClear (J : Js) (ast : MdAst) (info : InsertionInfo) (value : Units) : Prop :=
  match info.parentPath.section?, info.marker with
  | none, .last => MdClear ast ∧ Clear value
  | none, _ => True
  | some sectionSeg, marker =>
    if sectionSeg = frontmatterSection then
      match marker with
      | .keyed key =>
        (∀ e ∈ ast.frontmatter, e.key ≠ key) → MdClear ast ∧ Clear key ∧ Clear value
      | _ => True
    else
      info.parentPath.item? = none → info.parentPath.field? = none → marker = .last →
        (∃ b ∈ ast.blocks, b.slug = J.lower sectionSeg) → MdClear ast ∧ Clear value

theorem mdClear_block (block : AstBlock) :
    MdClear { ast with blocks := ast.blocks ++ [block] } ↔
      MdClear ast ∧ Clear block.heading ∧ Clear block.bodyText := by
  constructor
  · rintro ⟨hfrontmatter, hpreamble, hblocks⟩
    rw [List.forall_mem_append, List.forall_mem_singleton] at hblocks
    exact ⟨⟨hfrontmatter, hpreamble, hblocks.1⟩, hblocks.2⟩
  · rintro ⟨⟨hfrontmatter, hpreamble, hblocks⟩, hblock⟩
    refine ⟨hfrontmatter, hpreamble, ?_⟩
    rw [List.forall_mem_append, List.forall_mem_singleton]
    exact ⟨hblocks, hblock⟩

theorem mdClear_entry (entry : FrontmatterEntry) :
    MdClear { ast with frontmatter := ast.frontmatter ++ [entry] } ↔
      MdClear ast ∧ Clear entry.key ∧ Clear entry.value := by
  constructor
  · rintro ⟨hfrontmatter, hpreamble, hblocks⟩
    rw [List.forall_mem_append, List.forall_mem_singleton] at hfrontmatter
    exact ⟨⟨hfrontmatter.1, hpreamble, hblocks⟩, hfrontmatter.2⟩
  · rintro ⟨⟨hfrontmatter, hpreamble, hblocks⟩, hentry⟩
    refine ⟨?_, hpreamble, hblocks⟩
    rw [List.forall_mem_append, List.forall_mem_singleton]
    exact ⟨hfrontmatter, hentry⟩

theorem mdClear_modify {i : ℕ} (hi : i < ast.blocks.length) {f g : AstBlock → AstBlock} {Q : Prop}
    (hf : ∀ b, Clear (f b).heading ∧ Clear (f b).bodyText ↔
      (Clear (g b).heading ∧ Clear (g b).bodyText) ∧ Q) :
    MdClear { ast with blocks := ast.blocks.modify i f } ↔
      MdClear { ast with blocks := ast.blocks.modify i g } ∧ Q := by
  have hmodify := forall_mem_modify (P := fun b => Clear b.heading ∧ Clear b.bodyText) hi hf
  constructor
  · rintro ⟨hfrontmatter, hpreamble, hblocks⟩
    obtain ⟨hblocks, hq⟩ := hmodify.1 hblocks
    exact ⟨⟨hfrontmatter, hpreamble, hblocks⟩, hq⟩
  · rintro ⟨⟨hfrontmatter, hpreamble, hblocks⟩, hq⟩
    exact ⟨hfrontmatter, hpreamble, hmodify.2 ⟨hblocks, hq⟩⟩

def Keeps {A : Type} (raw : A → Units) (r : Except Thrown (Edited A)) : Prop :=
  ∀ ast', r = .ok (.ok ast') → Clear (raw ast')

theorem keeps_written {A : Type} {raw : A → Units} (ast : A) :
    Keeps raw (written ast) ↔ Clear (raw ast) := by
  constructor
  · intro h
    exact h ast rfl
  · intro h ast' heq
    injection heq with heq
    injection heq with heq
    exact heq ▸ h

theorem keeps_refuse {A : Type} {raw : A → Units} (reason : SetFailure) :
    Keeps raw (refuse reason : Except Thrown (Edited A)) ↔ True := by
  refine iff_true_intro ?_
  intro ast' heq
  injection heq with heq
  cases heq

theorem keeps_refuseWith {A : Type} {raw : A → Units} (reason : SetFailure) (detail : Units) :
    Keeps raw (refuseWith reason detail : Except Thrown (Edited A)) ↔ True := by
  refine iff_true_intro ?_
  intro ast' heq
  injection heq with heq
  cases heq

theorem keeps_thrown {A : Type} {raw : A → Units} (e : Thrown) :
    Keeps raw (.error e : Except Thrown (Edited A)) ↔ True := by
  refine iff_true_intro ?_
  intro ast' heq
  cases heq

theorem keeps_insertEntry (file : Units) (itemSeg? field? session? : Option Units)
    (marker : Marker) :
    Keeps MdAst.raw (setMdInsertion J ast
        ⟨⟨file, some frontmatterSection, itemSeg?, field?, session?⟩, marker⟩ value) ↔
      MdInsertionClear J ast
        ⟨⟨file, some frontmatterSection, itemSeg?, field?, session?⟩, marker⟩ value := by
  unfold setMdInsertion MdInsertionClear
  simp only [if_true]
  cases marker with
  | last => exact keeps_refuseWith _ _
  | indexed index => exact keeps_refuseWith _ _
  | keyed key =>
    by_cases hkey : ∀ e ∈ ast.frontmatter, e.key ≠ key
    · have hany : ¬(ast.frontmatter.any fun e => e.key = key) = true := by simpa using hkey
      simp only [if_neg hany]
      rw [keeps_written, clear_rebuildMdRaw, mdClear_entry]
      exact ⟨fun h _ => h, fun h => h hkey⟩
    · have hany : (ast.frontmatter.any fun e => e.key = key) = true := by simpa using hkey
      simp only [if_pos hany]
      rw [keeps_refuseWith]
      exact (iff_true_intro fun h => absurd h hkey).symm

theorem keeps_insertBullet {sectionSeg : Units} (hsection : sectionSeg ≠ frontmatterSection)
    (file : Units) (itemSeg? field? session? : Option Units) (marker : Marker) :
    Keeps MdAst.raw (setMdInsertion J ast
        ⟨⟨file, some sectionSeg, itemSeg?, field?, session?⟩, marker⟩ value) ↔
      MdInsertionClear J ast
        ⟨⟨file, some sectionSeg, itemSeg?, field?, session?⟩, marker⟩ value := by
  unfold setMdInsertion MdInsertionClear
  simp only [if_neg hsection]
  by_cases hplace : itemSeg? = none ∧ field? = none ∧ marker = .last ∧
      ∃ b ∈ ast.blocks, b.slug = J.lower sectionSeg
  · obtain ⟨rfl, rfl, rfl, hblock⟩ := hplace
    simp only [ne_eq, not_true_eq_false, if_false, and_self, if_true, true_implies]
    cases hidx : ast.blocks.findIdx? (fun b => b.slug = J.lower sectionSeg) with
    | none =>
      rw [List.findIdx?_eq_none_iff] at hidx
      obtain ⟨b, hb, hslug⟩ := hblock
      have hother := hidx b hb
      simp only [decide_eq_false_iff_not] at hother
      exact absurd hslug hother
    | some idx =>
      have hlt : idx < ast.blocks.length := (List.findIdx?_eq_some_iff_getElem.1 hidx).1
      simp only
      rw [keeps_written, clear_rebuildMdRaw, mdClear_modify hlt (g := id) (Q := Clear value)]
      · rw [List.modify_id]
        exact ⟨fun h _ => h, fun h => h hblock⟩
      · intro b
        rw [clear_appendLine, ← and_assoc]
        rfl
  · have hcondition : (itemSeg? = none → field? = none → marker = .last →
        (∃ b ∈ ast.blocks, b.slug = J.lower sectionSeg) → MdClear ast ∧ Clear value) ↔ True :=
      iff_true_intro fun hitem hfield hmarker hblock =>
        absurd ⟨hitem, hfield, hmarker, hblock⟩ hplace
    rw [hcondition]
    split_ifs with hslots hmarker
    · exact keeps_refuseWith _ _
    · split
      next hidx => exact keeps_refuse _
      next idx hidx =>
        obtain ⟨hlt, hslug, -⟩ := List.findIdx?_eq_some_iff_getElem.1 hidx
        have hblock : ∃ b ∈ ast.blocks, b.slug = J.lower sectionSeg :=
          ⟨_, List.getElem_mem hlt, of_decide_eq_true hslug⟩
        exact absurd ⟨hslots.1, hslots.2, not_not.1 hmarker, hblock⟩ hplace
    · exact keeps_refuse _

/-- **Insertion into markdown has no guard.** -/
theorem keeps_setMdInsertion (info : InsertionInfo) :
    Keeps MdAst.raw (setMdInsertion J ast info value) ↔ MdInsertionClear J ast info value := by
  obtain ⟨⟨file, sectionSeg?, itemSeg?, field?, session?⟩, marker⟩ := info
  cases sectionSeg? with
  | none =>
    unfold setMdInsertion MdInsertionClear
    cases marker with
    | last =>
      simp only [ne_eq, not_true_eq_false, if_false]
      rw [keeps_written, clear_rebuildMdRaw, mdClear_block]
      exact and_congr_right fun _ => and_iff_left clear_nil
    | keyed key => exact keeps_refuseWith _ _
    | indexed index => exact keeps_refuseWith _ _
  | some sectionSeg =>
    by_cases hsection : sectionSeg = frontmatterSection
    · subst hsection
      exact keeps_insertEntry file itemSeg? field? session? marker
    · exact keeps_insertBullet hsection file itemSeg? field? session? marker

/-- When the edit of an item writes nothing with the sentinel, in a section of a file. -/
def SetItemClear (J : Js) (ast : MdAst) (sectionSeg itemSeg field newValue : Units) : Prop :=
  ∀ blockIdx block itemIdx item key oldValue,
    ast.blocks.findIdx? (fun b => b.slug = J.lower sectionSeg) = some blockIdx →
    ast.blocks[blockIdx]? = some block →
    block.items.findIdx? (fun i => i.slug = J.lower itemSeg) = some itemIdx →
    block.items[itemIdx]? = some item → item.kv? = some (key, oldValue) →
    J.lower key = J.lower field →
    MdClear { ast with blocks := ast.blocks.set blockIdx { block with bodyText := [] } } ∧
      ReplacementClear key newValue oldValue block.bodyText

/-- When an edit of markdown writes nothing with the sentinel, behind the guard. -/
def MdEditClear (J : Js) (ast : MdAst) (path : OcPath) (newValue : Units) : Prop :=
  if path.section? = some frontmatterSection then
    ∀ key idx, path.item?.or path.field? = some key →
      ast.frontmatter.findIdx? (fun e => e.key = key) = some idx →
      MdClear { ast with frontmatter := ast.frontmatter.modify idx fun e => { e with value := [] } }
  else
    ∀ sectionSeg itemSeg field, path.section? = some sectionSeg → path.item? = some itemSeg →
      path.field? = some field → SetItemClear J ast sectionSeg itemSeg field newValue

theorem clear_changedItem {blockIdx itemIdx : ℕ} {block : AstBlock} {item : AstItem}
    {key oldValue newValue : Units} (hblock : ast.blocks[blockIdx]? = some block)
    (hitem : block.items[itemIdx]? = some item) (hkv : item.kv? = some (key, oldValue)) :
    let newItems := block.items.set itemIdx { item with kv? := some (key, newValue) }
    let newBlock := { block with items := newItems, bodyText := rebuildBlockBody block newItems }
    Clear (rebuildMdRaw { ast with blocks := ast.blocks.set blockIdx newBlock }).raw ↔
      MdClear { ast with blocks := ast.blocks.set blockIdx { block with bodyText := [] } } ∧
        ReplacementClear key newValue oldValue block.bodyText := by
  intro newItems newBlock
  have hlt : blockIdx < ast.blocks.length := (List.getElem?_eq_some_iff.1 hblock).1
  have hbody : Clear newBlock.bodyText ↔ ReplacementClear key newValue oldValue block.bodyText := by
    show Clear (rebuildBlockBody block newItems) ↔ _
    rw [rebuildBlockBody_set hitem hkv]
    by_cases hsame : newValue = oldValue
    · rw [if_pos hsame, ReplacementClear, if_pos hsame]
    · rw [if_neg hsame, clear_replaceBullet hsame]
  have : Inhabited AstBlock := ⟨block⟩
  have hset : ∀ b, ast.blocks.set blockIdx b = ast.blocks.modify blockIdx fun _ => b := by
    intro b
    rw [List.modify_eq_set]
  rw [clear_rebuildMdRaw, hset, hset]
  refine mdClear_modify hlt fun _ => ?_
  rw [hbody, and_iff_left clear_nil]

theorem keeps_setItem (sectionSeg itemSeg field newValue : Units) :
    Keeps MdAst.raw (setItem J ast sectionSeg itemSeg field newValue) ↔
      SetItemClear J ast sectionSeg itemSeg field newValue := by
  unfold setItem
  constructor
  · intro h blockIdx block itemIdx item key oldValue hblockIdx hblock hitemIdx hitem hkv hfield
    simp only [hblockIdx, hblock, hitemIdx, hitem, hkv, ne_eq, hfield, not_true_eq_false,
      if_false] at h
    rw [keeps_written] at h
    exact (clear_changedItem hblock hitem hkv).1 h
  · intro h
    split
    next => exact (keeps_refuse _).2 trivial
    next blockIdx hblockIdx =>
      split
      next => exact (keeps_refuse _).2 trivial
      next block hblock =>
        split
        next => exact (keeps_refuse _).2 trivial
        next itemIdx hitemIdx =>
          split
          next => exact (keeps_refuse _).2 trivial
          next item hitem =>
            split
            next => exact (keeps_refuse _).2 trivial
            next key oldValue hkv =>
              split_ifs with hfield
              · exact (keeps_refuse _).2 trivial
              · have hclear := h blockIdx block itemIdx item key oldValue hblockIdx hblock
                  hitemIdx hitem hkv (not_not.1 hfield)
                exact (keeps_written _).2 ((clear_changedItem hblock hitem hkv).2 hclear)

theorem mdClear_entries {i : ℕ} (hi : i < ast.frontmatter.length) (hvalue : Clear value) :
    MdClear { ast with frontmatter := ast.frontmatter.modify i fun e => { e with value := value } } ↔
      MdClear { ast with frontmatter := ast.frontmatter.modify i fun e =>
        { e with value := [] } } := by
  have hmodify := forall_mem_modify (P := fun e => Clear e.key ∧ Clear e.value) (Q := True)
    (f := fun e => { e with value := value })
    (g := fun e => { e with value := [] }) hi fun e => by simp [hvalue, clear_nil]
  rw [and_true] at hmodify
  constructor
  · rintro ⟨hfrontmatter, hpreamble, hblocks⟩
    exact ⟨hmodify.1 hfrontmatter, hpreamble, hblocks⟩
  · rintro ⟨hfrontmatter, hpreamble, hblocks⟩
    exact ⟨hmodify.2 hfrontmatter, hpreamble, hblocks⟩

/-- **An edit of markdown looks at the value, and not at what `$` makes of it.** -/
theorem keeps_setMdOcPath (path : OcPath) :
    Keeps MdAst.raw (setMdOcPath J ast path value) ↔
      ∀ formatted, formatOcPath path = .ok formatted → Clear value →
        MdEditClear J ast path value := by
  unfold setMdOcPath
  cases hformat : formatOcPath path with
  | error e =>
    refine (keeps_thrown e).trans (iff_true_intro ?_).symm
    intro formatted h
    cases h
  | ok formatted =>
    by_cases hvalue : Clear value
    · have hguard : guardSentinel value formatted = .ok () :=
        if_neg (by rw [includes_sentinel.2 hvalue]; decide)
      have hcondition : (∀ formatted', Except.ok formatted = Except.ok (ε := Thrown) formatted' →
          Clear value → MdEditClear J ast path value) ↔ MdEditClear J ast path value :=
        ⟨fun h => h formatted rfl hvalue, fun h _ _ _ => h⟩
      rw [hcondition]
      show Keeps MdAst.raw (guardSentinel value formatted >>= _) ↔ _
      rw [hguard]
      show Keeps MdAst.raw (if path.section? = some frontmatterSection then _ else _) ↔ _
      unfold MdEditClear
      split_ifs with hfrontmatter
      · constructor
        · intro h key idx hkey hidx
          have hlt : idx < ast.frontmatter.length := (List.findIdx?_eq_some_iff_getElem.1 hidx).1
          simp only [hkey, hidx] at h
          rw [keeps_written, clear_rebuildMdRaw] at h
          exact (mdClear_entries hlt hvalue).1 h
        · intro h
          split
          next => exact (keeps_refuse _).2 trivial
          next key hkey =>
            split
            next => exact (keeps_refuse _).2 trivial
            next idx hidx =>
              have hlt : idx < ast.frontmatter.length :=
                (List.findIdx?_eq_some_iff_getElem.1 hidx).1
              rw [keeps_written, clear_rebuildMdRaw]
              exact (mdClear_entries hlt hvalue).2 (h key idx hkey hidx)
      · constructor
        · intro h sectionSeg itemSeg field hsection hitem hfield
          simp only [hsection, hitem, hfield] at h
          exact (keeps_setItem sectionSeg itemSeg field value).1 h
        · intro h
          split
          next sectionSeg itemSeg field hsection hitem hfield =>
            exact (keeps_setItem sectionSeg itemSeg field value).2
              (h sectionSeg itemSeg field hsection hitem hfield)
          next => exact (keeps_refuse _).2 trivial
    · have hguard : guardSentinel value formatted = .error (.emitSentinel formatted) := by
        refine if_pos ?_
        rw [← Bool.not_eq_false, includes_sentinel]
        exact hvalue
      show Keeps MdAst.raw (guardSentinel value formatted >>= _) ↔ _
      rw [hguard]
      refine (keeps_thrown _).trans (iff_true_intro ?_).symm
      intro _ _ h
      exact absurd h hvalue

end Md

end ClawHarder.OcPaths
