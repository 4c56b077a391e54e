import Mathlib.Algebra.GroupWithZero.Nat
import Mathlib.Algebra.Ring.Int.Defs
import ClawHarder.Lib.Effectful
import ClawHarder.Lib.Stretches
import ClawHarder.Proof.CognitionSheet

/-!
# What pruning keeps of a run

The rows of a run fall into parts: the rows that a rule retains, and the stretches of others
between them (`Partition`). `prune_represents`: **after a pruning that returns, the run has each
retained row, and for each stretch the row itself when it is alone and one summary row
otherwise, in order; rows as they are logged are pruned without raising.**

* `pruneRows_iff`: the loop with its buffer gives one row for each part.
* `summary_written`: a summary row is written back under the columns, and spans its stretch.
-/

namespace ClawHarder.Cognition

open PyText (lit)
open Csv (Cell Row)
open Stretches (Piece)

variable {F : Type} (H : Refiner F) (runId : PyText)

def HasProposal (row : Row) : Prop := ∃ v, item row "identity_proposal" = some v ∧ truth v = true

def Extreme (row : Row) : Prop := ∃ dr, deltaR H row = some dr ∧ isExtreme H dr = true

def Inflects (before row : Row) : Prop :=
  ∃ lastDr dr, deltaR H before = some lastDr ∧ deltaR H row = some dr ∧
    isInflection H lastDr dr = true

/-- A row between these is retained: at a boundary, with a proposal, extreme, or an inflection. -/
def Retained (before : List Row) (row : Row) (after : List Row) : Prop :=
  before = [] ∨ after = [] ∨ HasProposal row ∨ Extreme H row ∨
    ∃ prev, before.getLast? = some prev ∧ Inflects H prev row

/-- The parts hold the rows in order, the retained ones apart and the others in the longest
stretches. -/
structure Partition (rows : List Row) (parts : List (Piece Row)) : Prop where
  items : (parts.flatMap Piece.items).map Prod.fst = rows
  retained : ∀ before m after, parts.flatMap Piece.items = before ++ m :: after →
    (m.2 = true ↔ Retained H (before.map Prod.fst) m.1 (after.map Prod.fst))
  apart : parts.IsChain Stretches.Apart

structure Summarises (first last : Row) (stretch : List Row) (row : Row) : Prop where
  spans : ∃ start stop, item first "cycle" = some start ∧ item last "cycle" = some stop ∧
    item row "cycle" = some (.text (printed H start ++ lit "-" ++ printed H stop))
  marked : item row "summary" = some (.text (lit "True"))
  /-- in every column -/
  built : ∃ summary, summaryRow H runId first last stretch = some summary ∧
    ∀ name ∈ fieldnames, row.get? (some name) =
      some ((summary.get? (some name)).getD (.text []))

inductive Shown : Piece Row → Row → Prop where
  | kept (row : Row) : Shown (.kept row) row
  | alone (row : Row) : Shown (.stretch row []) row
  | summary {first next : Row} {rest : List Row} {row : Row}
      (h : Summarises H runId first ((next :: rest).getLast (List.cons_ne_nil _ _))
        (first :: next :: rest) row) : Shown (.stretch first (next :: rest)) row

def Represents (rows out : List Row) : Prop :=
  ∃ parts, Partition H rows parts ∧ List.Forall₂ (Shown H runId) parts out

/-- The rows with their marks, behind others of which the last has this `dr`. -/
def marks (total : ℕ) : ℕ → Option F → List Row → Option (List (Row × Bool))
  | _, _, [] => some []
  | i, lastDr, row :: rows => do
    let dr ← deltaR H row
    let hasProposal := truth (← item row "identity_proposal")
    let isBoundary := i = 0 ∨ i + 1 = total
    let keep := isExtreme H dr ∨ hasProposal ∨ isBoundary ∨ isInflection H lastDr dr
    return (row, decide keep) :: (← marks total (i + 1) dr rows)

def shown : Piece Row → Option Row
  | .kept row => some row
  | .stretch row [] => some row
  | .stretch row (next :: rest) =>
    summaryRow H runId row ((next :: rest).getLast (List.cons_ne_nil _ _)) (row :: next :: rest)

theorem flushBuffer_eq (s : Pruning) :
    flushBuffer H runId s =
      (Stretches.flush (shown H runId) s.prunedRows s.buffer).map fun out => ⟨out, []⟩ := by
  obtain ⟨prunedRows, buffer⟩ := s
  match buffer with
  | [] => rfl
  | [row] => rfl
  | row :: next :: rest =>
    simp only [flushBuffer, Stretches.flush, shown, Option.map_map]
    rfl

theorem pruneLoop_eq (total i : ℕ) (lastDr : Option F) (s : Pruning) (rows : List Row) :
    ((pruneLoop H runId total i lastDr s rows).bind (flushBuffer H runId)).map
        Pruning.prunedRows =
      (marks H total i lastDr rows).bind
        (Stretches.pass (shown H runId) s.prunedRows s.buffer) := by
  induction rows generalizing i lastDr s with
  | nil =>
    simp only [pruneLoop, marks, Option.bind_some, flushBuffer_eq, Option.map_map,
      Stretches.pass]
    exact Option.map_id' ..
  | cons row rows ih =>
    cases hdr : deltaR H row with
    | none => simp [pruneLoop, marks, hdr]
    | some dr =>
      cases hproposal : item row "identity_proposal" with
      | none => simp [pruneLoop, marks, hdr, hproposal]
      | some v =>
        simp only [pruneLoop, marks, hdr, hproposal, Option.bind_eq_bind, Option.bind_some]
        split_ifs with hkeep
        · -- the buffer is flushed in front of the row
          rw [decide_eq_true hkeep, flushBuffer_eq H runId s]
          cases hflush : Stretches.flush (shown H runId) s.prunedRows s.buffer with
          | none =>
            cases marks H total (i + 1) dr rows with
            | none => rfl
            | some more => simp [Stretches.pass, hflush]
          | some out =>
            rw [Option.map_some, Option.bind_some, ih]
            cases marks H total (i + 1) dr rows with
            | none => rfl
            | some more => simp [Stretches.pass, hflush, shown]
        · rw [ih, decide_eq_false hkeep]
          cases marks H total (i + 1) dr rows with
          | none => rfl
          | some more => simp [Stretches.pass]

variable {rows : List Row}

theorem pruneRows_iff {out : List Row} :
    pruneRows H runId rows = some out ↔
      ∃ ms, marks H rows.length 0 none rows = some ms ∧
        List.Forall₂ (fun p row => shown H runId p = some row) (Stretches.parts ms) out := by
  have hprune : pruneRows H runId rows =
      (marks H rows.length 0 none rows).bind (Stretches.pass (shown H runId) [] []) := by
    rw [← pruneLoop_eq H runId rows.length 0 none ⟨[], []⟩ rows, Option.map_eq_bind,
      Option.bind_assoc]
    rfl
  rw [hprune, Option.bind_eq_some_iff]
  refine exists_congr fun ms => and_congr_right fun _ => ?_
  rw [Stretches.pass_iff]
  simp

/-- The `dr` before a row: none in front of the first. -/
def lastOf (before : List Row) (lastDr : Option F) : Prop :=
  match before.getLast? with
  | none => lastDr = none
  | some prev => deltaR H prev = some lastDr

theorem keep_iff {before : List Row} {lastDr dr : Option F} (hlast : lastOf H before lastDr)
    {row : Row} (hdr : deltaR H row = some dr) {v : Cell}
    (hv : item row "identity_proposal" = some v) (after : List Row) :
    (isExtreme H dr = true ∨ truth v = true ∨
      (before.length = 0 ∨ before.length + 1 = before.length + (row :: after).length) ∨
        isInflection H lastDr dr = true) ↔ Retained H before row after := by
  have hextreme : Extreme H row ↔ isExtreme H dr = true := by
    simp [Extreme, hdr]
  have hproposal : HasProposal row ↔ truth v = true := by
    simp [HasProposal, hv]
  have hfirst : before.length = 0 ↔ before = [] := List.length_eq_zero_iff
  have hend : before.length + 1 = before.length + (row :: after).length ↔ after = [] := by
    rw [List.length_cons, ← List.length_eq_zero_iff]
    omega
  have hinflection : isInflection H lastDr dr = true ↔
      ∃ prev, before.getLast? = some prev ∧ Inflects H prev row := by
    unfold lastOf at hlast
    cases hprev : before.getLast? with
    | none =>
      rw [hprev] at hlast
      subst hlast
      simp [isInflection]
    | some prev =>
      rw [hprev] at hlast
      simp [Inflects, hdr, show deltaR H prev = some lastDr from hlast]
  unfold Retained
  rw [hextreme, hproposal, ← hinflection, hfirst, hend]
  constructor
  · rintro (h | h | (h | h) | h)
    · exact .inr (.inr (.inr (.inl h)))
    · exact .inr (.inr (.inl h))
    · exact .inl h
    · exact .inr (.inl h)
    · exact .inr (.inr (.inr (.inr h)))
  · rintro (h | h | h | h | h)
    · exact .inr (.inr (.inl (.inl h)))
    · exact .inr (.inr (.inl (.inr h)))
    · exact .inr (.inl h)
    · exact .inl h
    · exact .inr (.inr (.inr h))

variable {ms : List (Row × Bool)}

theorem marks_spec {before : List Row} {lastDr : Option F} (hlast : lastOf H before lastDr)
    (h : marks H (before.length + rows.length) before.length lastDr rows = some ms) :
    ms.map Prod.fst = rows ∧ ∀ b m a, ms = b ++ m :: a →
      (m.2 = true ↔ Retained H (before ++ b.map Prod.fst) m.1 (a.map Prod.fst)) := by
  induction rows generalizing before lastDr ms with
  | nil =>
    cases h
    refine ⟨rfl, fun b m a heq => ?_⟩
    simp at heq
  | cons row rows ih =>
    obtain ⟨dr, hdr, h⟩ := Option.bind_eq_some_iff.1 h
    obtain ⟨v, hv, h⟩ := Option.bind_eq_some_iff.1 h
    obtain ⟨more, hmore, h⟩ := Option.bind_eq_some_iff.1 h
    cases h
    have hnext : lastOf H (before ++ [row]) dr := by
      simp [lastOf, hdr]
    have htotal : before.length + (row :: rows).length = (before ++ [row]).length + rows.length := by
      simp only [List.length_append, List.length_cons, List.length_nil]
      omega
    have hlength : before.length + 1 = (before ++ [row]).length := by simp
    rw [htotal, hlength] at hmore
    obtain ⟨hrows, hretained⟩ := ih hnext hmore
    refine ⟨by rw [List.map_cons, hrows], fun b m a heq => ?_⟩
    cases b with
    | nil =>
      obtain ⟨rfl, rfl⟩ := List.cons.inj heq
      rw [decide_eq_true_iff, List.map_nil, List.append_nil, hrows]
      exact keep_iff H hlast hdr hv rows
    | cons first b =>
      obtain ⟨rfl, hrest⟩ := List.cons.inj heq
      have hm := hretained b m a hrest
      rw [List.append_assoc] at hm
      exact hm

theorem plain_lit {s : String} (h : (lit s).all (fun c => decide (Readable c)) = true) :
    Plain (lit s) :=
  fun c hc => of_decide_eq_true (List.all_eq_true.1 h c hc)

theorem digits_visible {n : ℕ} {c : CodePoint} (hc : c ∈ lit (toString n)) :
    48 ≤ c.val ∧ c.val ≤ 57 := by
  have hdigits : (toString n).toList = Nat.toDigits 10 n := Nat.toList_repr
  unfold lit at hc
  rw [hdigits] at hc
  obtain ⟨d, hd, rfl⟩ := List.mem_map.1 hc
  exact Char.isDigit_iff_toNat.1 (Nat.isDigit_of_mem_toDigits (by decide) (by decide) hd)

theorem plain_collapsed (n : ℕ) : Plain (lit ("[" ++ toString n ++ " cycles collapsed]")) := by
  have hsplit : lit ("[" ++ toString n ++ " cycles collapsed]") =
      lit "[" ++ lit (toString n) ++ lit " cycles collapsed]" := by
    simp [lit, String.toList_append]
  rw [hsplit]
  refine plain_append (plain_append (plain_lit (by decide)) fun c hc => ?_) (plain_lit (by decide))
  have hdigit := digits_visible hc
  exact readable_of_ascii (by omega) (by omega)

theorem modalSignal_mem (tops : List PyText) : modalSignal tops = [] ∨ modalSignal tops ∈ tops := by
  have hkeys : ∀ (l : List PyText) (counts : OrderedMap PyText ℕ),
      ∀ e ∈ (l.foldl (fun counts top => counts.set top ((counts.get? top).getD 0 + 1))
        counts).entries, e.1 ∈ counts.keys ∨ e.1 ∈ l := by
    intro l
    induction l with
    | nil => exact fun counts e he => .inl (List.mem_map_of_mem he)
    | cons top l ih =>
      intro counts e he
      obtain hset | hl := ih _ e he
      · obtain ⟨v, hv⟩ := OrderedMap.mem_keys.1 hset
        rw [OrderedMap.get?_set] at hv
        split_ifs at hv with heq
        · exact .inr (heq ▸ List.mem_cons_self ..)
        · exact .inl (OrderedMap.mem_keys.2 ⟨v, hv⟩)
      · exact .inr (List.mem_cons_of_mem _ hl)
  have hbest : ∀ (l : List (PyText × ℕ)) (best : PyText × ℕ),
      l.foldl (fun best e => if best.2 < e.2 then e else best) best = best ∨
        l.foldl (fun best e => if best.2 < e.2 then e else best) best ∈ l := by
    intro l
    induction l with
    | nil => exact fun best => .inl rfl
    | cons e l ih =>
      intro best
      rw [List.foldl_cons]
      split_ifs
      · obtain h | h := ih e
        · rw [h]
          exact .inr (List.mem_cons_self ..)
        · exact .inr (List.mem_cons_of_mem _ h)
      · exact (ih best).imp_right fun h => List.mem_cons_of_mem _ h
  unfold modalSignal
  obtain h | h := hbest _ ([], 0)
  · exact .inl (congrArg Prod.fst h)
  · obtain hempty | hmem := hkeys tops .empty _ h
    · cases hempty
    · exact .inr hmem

theorem topSignal_plain {record : Csv.Record} (hfull : Full record) {top : PyText}
    (h : topSignal (rowOf record) = some top) : Plain top := by
  obtain ⟨t, ht, hitem⟩ := exists_item hfull "signal_state" (by decide)
  simp only [topSignal, hitem, Option.bind_eq_bind, Option.bind_some] at h
  cases h
  intro c hc
  exact hfull.plain t ht c ((List.takeWhile_sublist _).subset ((List.takeWhile_sublist _).subset hc))

theorem items_written (reprOf : Csv.Record → PyText) {items : List (String × Cell)}
    (hkeys : (items.map fun e => lit e.1).Nodup) (hnames : ∀ e ∈ items, lit e.1 ∈ fieldnames)
    (htexts : ∀ e ∈ items, ∃ t, e.2 = .text t ∧ Plain t) :
    ∃ record, Csv.dictToList reprOf (fieldnames.map some)
        (items.foldl (fun row e => row.set (some (lit e.1)) e.2) .empty) = some record ∧
      Full record ∧ ∀ name ∈ fieldnames, (rowOf record).get? (some name) =
        some (((items.foldl (fun row e => row.set (some (lit e.1)) e.2)
          (.empty : Row)).get? (some name)).getD (.text [])) := by
  have hentries := Csv.entries_ofItems (fun e : String × Cell => lit e.1) Prod.snd hkeys
  generalize items.foldl (fun row e => row.set (some (lit e.1)) e.2) (.empty : Row) = row
    at hentries
  have hall : row.keys.all (· ∈ fieldnames.map some) = true := by
    rw [List.all_eq_true]
    intro k hk
    unfold OrderedMap.keys at hk
    rw [hentries, List.map_map] at hk
    obtain ⟨e, he, rfl⟩ := List.mem_map.1 hk
    exact decide_eq_true (List.mem_map_of_mem (hnames e he))
  -- a column is a text of the dictionary, or empty
  have hcell : ∀ name, ∃ t, (row.get? (some name)).getD (.text []) = .text t ∧ Plain t := by
    intro name
    cases hget : row.get? (some name) with
    | none => exact ⟨[], rfl, fun c hc => absurd hc List.not_mem_nil⟩
    | some v =>
      rw [OrderedMap.get?_eq_some, hentries] at hget
      obtain ⟨e, he, heq⟩ := List.mem_map.1 hget
      obtain ⟨t, ht, hplain⟩ := htexts e he
      exact ⟨t, (congrArg Prod.snd heq).symm.trans ht, hplain⟩
  refine ⟨_, if_pos hall, ⟨by simp, fun t ht => ?_⟩, fun name hname => ?_⟩
  · obtain ⟨k, hk, rfl⟩ := List.mem_map.1 ht
    obtain ⟨name, -, rfl⟩ := List.mem_map.1 hk
    obtain ⟨u, hu, hplain⟩ := hcell name
    rw [hu]
    exact hplain
  · obtain ⟨i, hi, rfl⟩ := List.getElem_of_mem hname
    have hlength : ((fieldnames.map some).map fun name =>
        ((row.get? name).getD (.text [])).written reprOf).length = fieldnames.length := by
      simp
    have hrow := Csv.get?_dictRow fieldnames_nodup hlength hi (by omega)
    obtain ⟨u, hu, -⟩ := hcell fieldnames[i]
    unfold rowOf
    rw [hrow]
    simp [hu, Cell.written]

def summaryItems (cycle stamp runId snippet delta signal : PyText) : List (String × Cell) :=
  [("cycle", .text cycle), ("timestamp", .text stamp), ("run_id", .text runId),
    ("thought_snippet", .text snippet), ("delta_r", .text delta), ("signal_state", .text signal),
    ("identity_proposal", .text []), ("summary", .text (lit "True"))]

section SummaryItems

variable (cycle stamp snippet delta signal : PyText)

theorem summaryItems_keys :
    (summaryItems cycle stamp runId snippet delta signal).map (fun e => lit e.1) =
      [lit "cycle", lit "timestamp", lit "run_id", lit "thought_snippet", lit "delta_r",
        lit "signal_state", lit "identity_proposal", lit "summary"] := rfl

variable {cycle stamp snippet delta signal}

theorem summaryItems_written (reprOf : Csv.Record → PyText) (hcycle : Plain cycle)
    (hstamp : Plain stamp) (hid : Plain runId) (hsnippet : Plain snippet) (hdelta : Plain delta)
    (hsignal : Plain signal) {summary : Row}
    (h : summary = (summaryItems cycle stamp runId snippet delta signal).foldl
      (fun row e => row.set (some (lit e.1)) e.2) .empty) :
    ∃ record, Csv.dictToList reprOf (fieldnames.map some) summary = some record ∧
      Full record ∧ (∀ name ∈ fieldnames, (rowOf record).get? (some name) =
        some ((summary.get? (some name)).getD (.text []))) ∧
      ∀ e ∈ summaryItems cycle stamp runId snippet delta signal,
        item (rowOf record) e.1 = some e.2 := by
  have hkeys := summaryItems_keys runId cycle stamp snippet delta signal
  have hnodup : ((summaryItems cycle stamp runId snippet delta signal).map
      fun e => lit e.1).Nodup := by
    rw [hkeys]
    decide
  have hnames : ∀ e ∈ summaryItems cycle stamp runId snippet delta signal,
      lit e.1 ∈ fieldnames := by
    intro e he
    have hmem := List.mem_map_of_mem (f := fun e : String × Cell => lit e.1) he
    rw [hkeys] at hmem
    have hall : ∀ name ∈ [lit "cycle", lit "timestamp", lit "run_id", lit "thought_snippet",
        lit "delta_r", lit "signal_state", lit "identity_proposal", lit "summary"],
        name ∈ fieldnames := by
      decide
    exact hall _ hmem
  have htexts : ∀ e ∈ summaryItems cycle stamp runId snippet delta signal,
      ∃ t, e.2 = .text t ∧ Plain t := by
    unfold summaryItems
    simp only [List.forall_mem_cons]
    exact ⟨⟨_, rfl, hcycle⟩, ⟨_, rfl, hstamp⟩, ⟨_, rfl, hid⟩, ⟨_, rfl, hsnippet⟩, ⟨_, rfl, hdelta⟩,
      ⟨_, rfl, hsignal⟩, ⟨[], rfl, fun c hc => absurd hc List.not_mem_nil⟩,
      ⟨_, rfl, plain_lit (by decide)⟩, fun e he => absurd he List.not_mem_nil⟩
  obtain ⟨record, hwritten, hfull, hget⟩ := items_written reprOf hnodup hnames htexts
  have hentries := Csv.entries_ofItems (fun e : String × Cell => lit e.1) Prod.snd hnodup
  rw [← h] at hwritten hget hentries
  refine ⟨record, hwritten, hfull, hget, fun e he => ?_⟩
  have hmem : (some (lit e.1), e.2) ∈ summary.entries := by
    rw [hentries]
    exact List.mem_map_of_mem (f := fun e : String × Cell => (some (lit e.1), e.2)) he
  unfold item
  rw [hget _ (hnames e he), OrderedMap.get?_eq_some.2 hmem]
  rfl

end SummaryItems

theorem summary_written {stretch : List Csv.Record} (hfull : ∀ r ∈ stretch, Full r)
    (hid : Plain runId) {first last : Csv.Record} (hfirst : first ∈ stretch)
    (hlast : last ∈ stretch) {summary : Row}
    (h : summaryRow H runId (rowOf first) (rowOf last) (stretch.map rowOf) = some summary) :
    ∃ record, Csv.dictToList H.reprOf (fieldnames.map some) summary = some record ∧
      Full record ∧ IsOwn runId (rowOf record) ∧
      Summarises H runId (rowOf first) (rowOf last) (stretch.map rowOf) (rowOf record) := by
  have hbuilt := h
  obtain ⟨start, hstart, hitemStart⟩ := exists_item (hfull first hfirst) "cycle" (by decide)
  obtain ⟨stop, hstop, hitemStop⟩ := exists_item (hfull last hlast) "cycle" (by decide)
  obtain ⟨stamp, hstamp, hitemStamp⟩ :=
    exists_item (hfull last hlast) "timestamp" (by decide)
  obtain ⟨drs, -, h⟩ := Option.bind_eq_some_iff.1 h
  obtain ⟨tops, htops, h⟩ := Option.bind_eq_some_iff.1 h
  simp only [hitemStart, hitemStop, hitemStamp, Option.bind_eq_bind, Option.bind_some] at h
  have hmodal : Plain (modalSignal tops) := by
    obtain hnil | hmem := modalSignal_mem tops
    · rw [hnil]
      exact fun c hc => absurd hc List.not_mem_nil
    · obtain ⟨row, hrow, htop⟩ := (Effectful.mapM_mem htops).1 hmem
      obtain ⟨r, hr, rfl⟩ := List.mem_map.1 hrow
      exact topSignal_plain (hfull r hr) htop
  have hfixed : ∀ x, Plain (H.fixed x) := by
    intro x c hc
    have hvisible := H.fixed_visible x c hc
    exact readable_of_ascii (by omega) (by omega)
  have hcycle : Plain (start ++ lit "-" ++ stop) :=
    plain_append (plain_append ((hfull first hfirst).plain start hstart) (plain_lit (by decide)))
      ((hfull last hlast).plain stop hstop)
  have hdelta : Plain (lit "mean:" ++ H.fixed (H.mean drs) ++ lit "|var:" ++
      H.fixed (H.variance drs)) :=
    plain_append (plain_append (plain_append (plain_lit (by decide)) (hfixed _))
      (plain_lit (by decide))) (hfixed _)
  have hsignal : Plain (lit "modal:" ++ modalSignal tops) :=
    plain_append (plain_lit (by decide)) hmodal
  obtain ⟨record, hwritten, hrecord, hget, hitems⟩ := summaryItems_written runId H.reprOf hcycle
    ((hfull last hlast).plain stamp hstamp) hid (plain_collapsed (stretch.map rowOf).length)
    hdelta hsignal (Option.some.inj h).symm
  have hspan := hitems ("cycle", .text (start ++ lit "-" ++ stop)) (by simp [summaryItems])
  have howner := hitems ("run_id", .text runId) (by simp [summaryItems])
  have hmarked := hitems ("summary", .text (lit "True")) (by simp [summaryItems])
  exact ⟨record, hwritten, hrecord, howner,
    ⟨⟨_, _, hitemStart, hitemStop, hspan⟩, hmarked, ⟨summary, hbuilt, hget⟩⟩⟩

def Owned (row : Row) : Prop := ∃ r, Full r ∧ IsOwn runId (rowOf r) ∧ row = rowOf r

variable {H runId}

theorem Owned.plain {row : Row} (h : Owned runId row) : Plain runId := by
  obtain ⟨r, hfull, hown, rfl⟩ := h
  obtain ⟨t, ht, hitem⟩ := exists_item hfull "run_id" (by decide)
  have heq : t = runId := by
    unfold IsOwn at hown
    rw [hitem] at hown
    simpa using hown
  exact heq ▸ hfull.plain t ht

theorem exists_records (h : ∀ row ∈ rows, Owned runId row) :
    ∃ records : List Csv.Record, rows = records.map rowOf ∧
      ∀ r ∈ records, Full r ∧ IsOwn runId (rowOf r) := by
  induction rows with
  | nil => exact ⟨[], rfl, fun r hr => absurd hr List.not_mem_nil⟩
  | cons row rows ih =>
    obtain ⟨r, hfull, hown, rfl⟩ := h row (List.mem_cons_self ..)
    obtain ⟨records, rfl, hrecords⟩ := ih fun row hrow => h row (List.mem_cons_of_mem _ hrow)
    exact ⟨r :: records, rfl, List.forall_mem_cons.2 ⟨⟨hfull, hown⟩, hrecords⟩⟩

/-- A record that is written for a part, and what it reads back as. -/
structure Writes (H : Refiner F) (runId : PyText) (p : Piece Row) (row : Row)
    (record : Csv.Record) : Prop where
  written : Csv.dictToList H.reprOf (fieldnames.map some) row = some record
  full : Full record
  own : IsOwn runId (rowOf record)
  shown : Shown H runId p (rowOf record)

/-- **What a part leaves is written under the columns, and reads back as one row for it.** -/
theorem part_written {p : Piece Row} (hp : ∀ e ∈ p.items, Owned runId e.1) {row : Row}
    (h : shown H runId p = some row) : ∃ record, Writes H runId p row record := by
  have hsingle : ∀ r : Csv.Record, Full r →
      Csv.dictToList H.reprOf (fieldnames.map some) (rowOf r) = some r :=
    fun r hr => Csv.dictToList_dictRow H.reprOf fieldnames_nodup hr.length
  match p, h with
  | .kept first, h =>
    obtain ⟨r, hfull, hown, hfirst⟩ := hp (first, true) (List.mem_cons_self ..)
    cases h
    subst hfirst
    exact ⟨r, hsingle r hfull, hfull, hown, .kept _⟩
  | .stretch first [], h =>
    obtain ⟨r, hfull, hown, hfirst⟩ := hp (first, false) (List.mem_cons_self ..)
    cases h
    subst hfirst
    exact ⟨r, hsingle r hfull, hfull, hown, .alone _⟩
  | .stretch first (next :: rest), h =>
    have hall : ∀ row ∈ first :: next :: rest, Owned runId row :=
      fun row hrow => hp (row, false) (List.mem_map_of_mem hrow)
    have hid := (hall first (List.mem_cons_self ..)).plain
    obtain ⟨records, hrecords, hfull⟩ := exists_records hall
    match records, hrecords with
    | r :: s :: more, hrecords =>
      obtain ⟨rfl, rfl, rfl⟩ : first = rowOf r ∧ next = rowOf s ∧ rest = more.map rowOf := by
        simpa using hrecords
      have hlast : ((rowOf s :: more.map rowOf).getLast (List.cons_ne_nil _ _)) =
          rowOf ((s :: more).getLast (List.cons_ne_nil _ _)) :=
        List.getLast_map (f := rowOf) (l := s :: more) (by simp)
      simp only [shown, hlast] at h
      obtain ⟨record, hwritten, hrecord, hown, hsum⟩ := summary_written H runId
        (fun r hr => (hfull r hr).1) hid (List.mem_cons_self ..)
        (List.mem_cons_of_mem _ (List.getLast_mem _)) h
      refine ⟨record, hwritten, hrecord, hown, .summary ?_⟩
      rw [hlast]
      exact hsum

theorem parts_written {parts : List (Piece Row)}
    (hparts : ∀ e ∈ parts.flatMap Piece.items, Owned runId e.1) {out : List Row}
    (h : List.Forall₂ (fun p row => shown H runId p = some row) parts out) :
    ∃ records, Csv.WrittenAs H.reprOf fieldnames out records ∧
      (∀ r ∈ records, Full r ∧ IsOwn runId (rowOf r)) ∧
      List.Forall₂ (Shown H runId) parts (records.map rowOf) := by
  induction h with
  | nil => exact ⟨[], .nil, fun r hr => absurd hr List.not_mem_nil, .nil⟩
  | @cons p row parts out hp hout ih =>
    rw [List.flatMap_cons] at hparts
    obtain ⟨record, hrecord⟩ := part_written
      (fun e he => hparts e (List.mem_append_left _ he)) hp
    obtain ⟨records, hwritten, hfull, hshown⟩ :=
      ih fun e he => hparts e (List.mem_append_right _ he)
    exact ⟨record :: records, .cons hrecord.written hwritten,
      List.forall_mem_cons.2 ⟨⟨hrecord.full, hrecord.own⟩, hfull⟩, .cons hrecord.shown hshown⟩

theorem partition_marks
    (h : marks H rows.length 0 none rows = some ms) : Partition H rows (Stretches.parts ms) := by
  have hzero : ([] : List Row).length + rows.length = rows.length := by simp
  have hstart : lastOf H [] none := rfl
  rw [← hzero] at h
  obtain ⟨hrows, hretained⟩ := marks_spec H hstart h
  have hitems := Stretches.items_parts ms
  refine ⟨by rw [hitems, hrows], fun b m a heq => ?_, Stretches.chain_parts ms⟩
  rw [hitems] at heq
  exact hretained b m a heq

theorem Partition.unique {parts : List (Piece Row)} (h : Partition H rows parts) (hms : marks H rows.length 0 none rows = some ms) :
    parts = Stretches.parts ms := by
  have hmarks := partition_marks hms
  have heq : parts.flatMap Piece.items = (Stretches.parts ms).flatMap Piece.items :=
    Stretches.marks_unique (h.items.trans hmarks.items.symm) [] h.retained hmarks.retained
  rw [← Stretches.parts_items h.apart, heq, Stretches.items_parts]

def Logged (H : Refiner F) (row : Row) : Prop := ∃ dr, deltaR H row = some (some dr)

theorem delta_of_logged {row : Row} (h : Logged H row) :
    ∃ v dr, item row "delta_r" = some v ∧ floatOf H v = some dr := by
  obtain ⟨dr, h⟩ := h
  obtain ⟨summary, -, h⟩ := Option.bind_eq_some_iff.1 h
  split_ifs at h
  · cases h
  · obtain ⟨v, hv, h⟩ := Option.bind_eq_some_iff.1 h
    obtain ⟨x, hx, h⟩ := Option.bind_eq_some_iff.1 h
    exact ⟨v, x, hv, hx⟩

theorem marks_logged
    (h : ∀ row ∈ rows, Logged H row ∧ Owned runId row) (total i : ℕ) (lastDr : Option F) :
    (marks H total i lastDr rows).isSome = true := by
  induction rows generalizing i lastDr with
  | nil => rfl
  | cons row rows ih =>
    obtain ⟨⟨dr, hdr⟩, r, hfull, -, rfl⟩ := h row (List.mem_cons_self ..)
    obtain ⟨t, -, ht⟩ := exists_item hfull "identity_proposal" (by decide)
    obtain ⟨more, hmore⟩ := Option.isSome_iff_exists.1
      (ih (fun row hrow => h row (List.mem_cons_of_mem _ hrow)) (i + 1) (some dr))
    simp [marks, hdr, ht, hmore]

theorem shown_logged {p : Piece Row}
    (hp : ∀ e ∈ p.items, Logged H e.1 ∧ Owned runId e.1) : (shown H runId p).isSome = true := by
  match p with
  | .kept row => rfl
  | .stretch row [] => rfl
  | .stretch first (next :: rest) =>
    have hall : ∀ row ∈ first :: next :: rest, Logged H row ∧ Owned runId row :=
      fun row hrow => hp (row, false) (List.mem_map_of_mem hrow)
    have hlast : (next :: rest).getLast (List.cons_ne_nil _ _) ∈ first :: next :: rest :=
      List.mem_cons_of_mem _ (List.getLast_mem _)
    rw [shown]
    generalize (next :: rest).getLast (List.cons_ne_nil _ _) = last at hlast
    have hcolumn : ∀ row ∈ first :: next :: rest, ∀ key, lit key ∈ fieldnames →
        ∃ t, item row key = some (.text t) := by
      intro row hrow key hkey
      obtain ⟨r, hfull, -, rfl⟩ := (hall row hrow).2
      obtain ⟨t, -, ht⟩ := exists_item hfull key hkey
      exact ⟨t, ht⟩
    obtain ⟨drs, hdrs⟩ : ∃ drs, (first :: next :: rest).mapM
        (fun r => do floatOf H (← item r "delta_r")) = some drs := by
      rw [← Option.isSome_iff_exists, Effectful.mapM_isSome_iff]
      intro row hrow
      obtain ⟨v, dr, hv, hdr⟩ := delta_of_logged (hall row hrow).1
      simp [hv, hdr]
    obtain ⟨tops, htops⟩ : ∃ tops, (first :: next :: rest).mapM topSignal = some tops := by
      rw [← Option.isSome_iff_exists, Effectful.mapM_isSome_iff]
      intro row hrow
      obtain ⟨t, ht⟩ := hcolumn row hrow "signal_state" (by decide)
      simp [topSignal, ht]
    obtain ⟨start, hstart⟩ := hcolumn first (List.mem_cons_self ..) "cycle" (by decide)
    obtain ⟨stop, hstop⟩ := hcolumn last hlast "cycle" (by decide)
    obtain ⟨stamp, hstamp⟩ := hcolumn last hlast "timestamp" (by decide)
    unfold summaryRow
    rw [hdrs]
    simp only [htops, hstart, hstop, hstamp, Option.bind_eq_bind, Option.bind_some]
    rfl

theorem prune_logged (h : ∀ row ∈ rows, Logged H row ∧ Owned runId row) :
    ∃ out, pruneRows H runId rows = some out := by
  obtain ⟨ms, hms⟩ := Option.isSome_iff_exists.1 (marks_logged h rows.length 0 none)
  have hpartition := partition_marks hms
  obtain ⟨out, hout⟩ : ∃ out, (Stretches.parts ms).mapM (shown H runId) = some out := by
    rw [← Option.isSome_iff_exists, Effectful.mapM_isSome_iff]
    intro p hp
    refine shown_logged fun e he => h e.1 ?_
    rw [← hpartition.items]
    exact List.mem_map_of_mem (List.mem_flatMap.2 ⟨p, hp, he⟩)
  exact ⟨out, (pruneRows_iff H runId).2 ⟨ms, hms, Effectful.mapM_some hout⟩⟩

/-- **After a pruning that returns, the run has each retained row, and for each stretch of others
one row, in order; rows as they are logged are pruned without raising.** -/
theorem prune_represents (H : Refiner F) (runId : PyText) {file : Option Bytes}
    (hsheet : IsSheet file) :
    ∃ rows, readTrajectory runId file = some rows ∧
      ((∀ row ∈ rows, Logged H row) → (pruneTrajectory H runId file).2 = true) ∧
      ((pruneTrajectory H runId file).2 = true →
        IsSheet (pruneTrajectory H runId file).1 ∧
          ∃ out, readTrajectory runId (pruneTrajectory H runId file).1 = some out ∧
            Represents H runId rows out) := by
  obtain ⟨records, hrecords, hread⟩ := readTrajectory_sheet runId hsheet
  have howned : ∀ row ∈ records.map rowOf, Owned runId row := by
    intro row hrow
    obtain ⟨r, hr, rfl⟩ := List.mem_map.1 hrow
    exact ⟨r, (hrecords r hr).1, (hrecords r hr).2, rfl⟩
  refine ⟨records.map rowOf, hread, ?_⟩
  unfold pruneTrajectory
  rw [hread]
  match records with
  | [] =>
    refine ⟨fun _ => rfl, fun _ => ⟨hsheet, [], hread, [], ⟨rfl, ?_, .nil⟩, .nil⟩⟩
    intro b m a heq
    simp at heq
  | first :: more =>
    have hkeys : (rowOf first).keys = fieldnames.map some :=
      Csv.keys_dictRow fieldnames_nodup (hrecords first (List.mem_cons_self ..)).1.length
    simp only [List.map_cons] at howned ⊢
    cases hprune : pruneRows H runId (rowOf first :: more.map rowOf) with
    | none =>
      refine ⟨fun hlogged => ?_, fun h => by cases h⟩
      obtain ⟨out, hout⟩ := prune_logged fun row hrow => ⟨hlogged row hrow, howned row hrow⟩
      rw [hout] at hprune
      cases hprune
    | some out =>
      obtain ⟨ms, hms, hall⟩ := (pruneRows_iff H runId).1 hprune
      have hpartition := partition_marks hms
      have hparts : ∀ e ∈ (Stretches.parts ms).flatMap Piece.items, Owned runId e.1 := by
        intro e he
        refine howned e.1 ?_
        rw [← hpartition.items]
        exact List.mem_map_of_mem he
      obtain ⟨written, hwritten, hfull, hshown⟩ := parts_written hparts hall
      obtain ⟨file', hwrite, hsheet', hread'⟩ :=
        writeBack_sheet hkeys hwritten fun r hr => (hfull r hr).1
      simp only [hwrite]
      refine ⟨fun _ => trivial, fun _ => ⟨hsheet', written.map rowOf, ?_, _, hpartition, hshown⟩⟩
      have hown : (written.map rowOf).filter (fun row => IsOwn runId row) = written.map rowOf := by
        refine List.filter_eq_self.2 fun row hrow => ?_
        obtain ⟨r, hr, rfl⟩ := List.mem_map.1 hrow
        exact decide_eq_true (hfull r hr).2
      unfold readTrajectory
      rw [hread', Option.bind_eq_bind, Option.bind_some, ownRows_full fun r hr => (hfull r hr).1,
        hown]

def KeepsOthers (H : Refiner F) (runId : PyText) (file : Option Bytes) : Prop :=
  (readRows (pruneTrajectory H runId file).1).map (List.filter fun row => ¬IsOwn runId row) =
    (readRows file).map (List.filter fun row => ¬IsOwn runId row)

/-- Each retained row stays, and each stretch has one summary row, in order. -/
def Summarised (H : Refiner F) (runId : PyText) (file : Option Bytes) : Prop :=
  ∃ rows out parts, readTrajectory runId file = some rows ∧
    readTrajectory runId (pruneTrajectory H runId file).1 = some out ∧ Partition H rows parts ∧
    List.Forall₂ (fun p row => match p with
      | .kept r => row = r
      | .stretch first rest => Summarises H runId first
          ((first :: rest).getLast (List.cons_ne_nil _ _)) (first :: rest) row) parts out

def sampleRefiner : Refiner ℤ where
  float t :=
    let digits := t.drop 2
    let value := digits.foldl (fun n c => 10 * n + (c.val - 48)) 0 * 10 ^ (4 - digits.length)
    if lit "0." <+: t ∧ digits ≠ [] ∧ digits.length ≤ 4 ∧
        digits.all (fun c => 48 ≤ c.val ∧ c.val ≤ 57) then some (Int.ofNat value)
    else none
  less a b := a < b
  distance a b := (a - b).natAbs
  high := 2500
  low := 500
  jump := 1000
  mean l := l.sum / l.length
  variance l := (l.map fun x => (x - l.sum / l.length) ^ 2).sum / (l.length - 1) / 10000
  fixed x := lit "0." ++ PyText.padded 4 x.toNat
  reprOf _ := []
  fixed_visible := by
    intro x c hc
    unfold PyText.padded at hc
    simp only [List.mem_append, List.mem_replicate] at hc
    obtain hc | ⟨-, rfl⟩ | hc := hc
    · have hall : (lit "0.").all (fun c => 33 ≤ c.val ∧ c.val < 127) = true := by decide
      exact of_decide_eq_true (List.all_eq_true.1 hall c hc)
    · decide
    · have hdigit := digits_visible hc
      omega

def cycleRecord (cycle runId deltaR : String) : Csv.Record :=
  [lit cycle, lit runId, lit "7.5", lit "so on", lit deltaR, lit "joy:0.7000", [], [], lit "False"]

/-- A plain alone between retained rows, a row of another run, and plains before an inflection. -/
def sampleRecords : List Csv.Record :=
  [cycleRecord "1" "a" "0.1", cycleRecord "2" "a" "0.1", cycleRecord "3" "b" "0.1",
    cycleRecord "4" "a" "0.22", cycleRecord "5" "a" "0.22", cycleRecord "6" "a" "0.22",
    cycleRecord "7" "a" "0.1", cycleRecord "8" "a" "0.1"]

def sampleFile : Option Bytes :=
  PyText.encodeUtf8 (Csv.writeRows (fieldnames :: sampleRecords))

theorem sample_full : ∀ r ∈ sampleRecords, Full r := by
  have hall : sampleRecords.all (fun r => decide (r.length = fieldnames.length) &&
      r.all fun t => t.all fun c => decide (Readable c)) = true := by
    decide +kernel
  intro r hr
  have hfull := Bool.and_eq_true_iff.1 (List.all_eq_true.1 hall r hr)
  refine ⟨of_decide_eq_true hfull.1, fun t ht c hc => ?_⟩
  have ht' := List.all_eq_true.1 hfull.2 t ht
  exact of_decide_eq_true (List.all_eq_true.1 ht' c hc)

theorem sample_sheet : IsSheet sampleFile := by
  obtain ⟨bytes, hbytes, hsheet, -⟩ := sheet_of_records sample_full
  unfold sampleFile
  rw [hbytes]
  exact hsheet

theorem sample_represents :
    ∃ rows, readTrajectory (lit "a") sampleFile = some rows ∧
      ((∀ row ∈ rows, Logged sampleRefiner row) →
        (pruneTrajectory sampleRefiner (lit "a") sampleFile).2 = true) ∧
      ((pruneTrajectory sampleRefiner (lit "a") sampleFile).2 = true →
        IsSheet (pruneTrajectory sampleRefiner (lit "a") sampleFile).1 ∧
          ∃ out, readTrajectory (lit "a")
              (pruneTrajectory sampleRefiner (lit "a") sampleFile).1 = some out ∧
            Represents sampleRefiner (lit "a") rows out) :=
  prune_represents sampleRefiner (lit "a") sample_sheet

def samplePruned : Option Bytes × Bool := pruneTrajectory sampleRefiner (lit "a") sampleFile

/-- What the pruning of the sample gives: does it return, and once more; the number of rows of
other runs; the parts that are kept; is the second row a summary? -/
theorem sample_runs :
    samplePruned.2 = true ∧ (pruneTrajectory sampleRefiner (lit "a") samplePruned.1).2 = false ∧
      ((readRows samplePruned.1).map fun rows =>
        (rows.filter fun row => ¬IsOwn (lit "a") row).length) = some 0 ∧
      ((readRows sampleFile).map fun rows =>
        (rows.filter fun row => ¬IsOwn (lit "a") row).length) = some 1 ∧
      ((readTrajectory (lit "a") sampleFile).bind fun rows =>
        (marks sampleRefiner rows.length 0 none rows).map fun ms =>
          (Stretches.parts ms).map Piece.isKept) = some [true, false, true, false, true, true] ∧
      ((readTrajectory (lit "a") samplePruned.1).map fun rows =>
        (rows.map fun row => item row "summary")[1]?) =
          some (some (some (.text (lit "False")))) := by
  decide +kernel

theorem sample_pruned :
    (pruneTrajectory sampleRefiner (lit "a") sampleFile).2 = true ∧
      ¬KeepsOthers sampleRefiner (lit "a") sampleFile ∧
      ¬Summarised sampleRefiner (lit "a") sampleFile ∧
      (pruneTrajectory sampleRefiner (lit "a")
        (pruneTrajectory sampleRefiner (lit "a") sampleFile).1).2 = false := by
  have hruns := sample_runs
  unfold samplePruned at hruns
  obtain ⟨hreturns, hraises, hafter, hbefore, hparts, hsummary⟩ := hruns
  refine ⟨hreturns, fun hkeeps => ?_, ?_, hraises⟩
  · have hlength := congrArg (Option.map List.length) hkeeps
    rw [Option.map_map, Option.map_map] at hlength
    cases hafter.symm.trans (hlength.trans hbefore)
  · rintro ⟨rows, out, parts, hrows, hout, hpartition, hall⟩
    -- the second part is a stretch, and the second row no summary
    rw [hrows, Option.bind_some] at hparts
    obtain ⟨ms, hms, hkept⟩ := Option.map_eq_some_iff.1 hparts
    rw [← hpartition.unique hms] at hkept
    rw [hout, Option.map_some, Option.some.injEq] at hsummary
    cases hall with
    | nil => simp at hkept
    | cons _ hall =>
      cases hall with
      | nil => simp at hkept
      | @cons p row _ _ hshown _ =>
        have hplain : item row "summary" = some (.text (lit "False")) := Option.some.inj hsummary
        cases p with
        | kept r =>
          have hflag := (List.cons.inj (List.cons.inj hkept).2).1
          cases hflag
        | stretch first rest =>
          have hmarked := hshown.marked
          rw [hplain] at hmarked
          exact absurd hmarked (by decide)

end ClawHarder.Cognition
