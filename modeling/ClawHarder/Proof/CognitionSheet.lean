import ClawHarder.Spec.Cognition

/-!
# Sheets and their rows

A sheet is a file with the columns of the logger in which every record fills them (`IsSheet`).
Its rows are `Full`: a column of such a row is a text, without a carriage return, since the file
is read in universal newlines, and with an encoding, since it was decoded.

* `readTrajectory_sheet`: the rows of a run are those with its id.
* `writeBack_sheet`: **full rows are written back as a sheet of the same rows.**
-/

namespace ClawHarder.Cognition

open PyText (lit)
open Csv (Cell Row)

theorem fieldnames_nodup : fieldnames.Nodup := by decide

def Readable (c : CodePoint) : Prop := c.val ≠ 13 ∧ (PyText.encodePoint c).isSome = true

instance (c : CodePoint) : Decidable (Readable c) := inferInstanceAs (Decidable (_ ∧ _))

theorem readable_of_ascii {c : CodePoint} (hlow : c.val ≠ 13) (hhigh : c.val < 128) :
    Readable c := by
  refine ⟨hlow, ?_⟩
  unfold PyText.encodePoint
  rw [if_pos (by omega)]
  rfl

def Plain (t : PyText) : Prop := ∀ c ∈ t, Readable c

theorem plain_append {t u : PyText} (ht : Plain t) (hu : Plain u) : Plain (t ++ u) :=
  fun c hc => (List.mem_append.1 hc).elim (ht c) (hu c)

structure Full (record : Csv.Record) : Prop where
  length : record.length = fieldnames.length
  plain : ∀ t ∈ record, Plain t

def rowOf (record : Csv.Record) : Row := Csv.dictRow fieldnames record

/-- A file with the columns of the logger, which every record fills. -/
def IsSheet (file : Option Bytes) : Prop :=
  ∃ bytes text records, file = some bytes ∧ PyText.decodeUtf8 bytes = some text ∧
    Csv.read (PyText.universalNewlines text) = some (fieldnames :: records) ∧
    ∀ r ∈ records, r.length = fieldnames.length

variable {record : Csv.Record} {runId : PyText}

theorem exists_item (hfull : Full record) (key : String) (hkey : lit key ∈ fieldnames) :
    ∃ t ∈ record, item (rowOf record) key = some (.text t) := by
  obtain ⟨i, hi, hname⟩ := List.getElem_of_mem hkey
  have hrecord : i < record.length := by
    rw [hfull.length]
    exact hi
  have hget := Csv.get?_dictRow fieldnames_nodup hfull.length hi hrecord
  rw [hname] at hget
  exact ⟨record[i], List.getElem_mem hrecord, hget⟩

def IsOwn (runId : PyText) (row : Row) : Prop := item row "run_id" = some (.text runId)

instance (runId : PyText) (row : Row) : Decidable (IsOwn runId row) :=
  decidable_of_iff ((item row "run_id").any (isText runId) = true) <| by
    unfold IsOwn
    cases item row "run_id" with
    | none => simp
    | some v => cases v <;> simp [isText]

variable {records : List Csv.Record}

theorem ownRows_full (hfull : ∀ r ∈ records, Full r) :
    ownRows runId (records.map rowOf) = some ((records.map rowOf).filter (IsOwn runId)) := by
  induction records with
  | nil => rfl
  | cons record records ih =>
    have hrest := ih fun r hr => hfull r (List.mem_cons_of_mem _ hr)
    obtain ⟨t, -, ht⟩ := exists_item (hfull record (List.mem_cons_self ..)) "run_id" (by decide)
    have hown : IsOwn runId (rowOf record) ↔ t = runId := by
      simp [IsOwn, ht]
    simp only [List.map_cons, ownRows, ht, hrest, Option.bind_eq_bind, Option.bind_some]
    by_cases hid : t = runId
    · simp [isText, hown, hid]
    · simp [isText, hown, hid]

theorem full_of_read {bytes : Bytes} {text : PyText} (htext : PyText.decodeUtf8 bytes = some text)
    (hread : Csv.read (PyText.universalNewlines text) = some (fieldnames :: records))
    (hlength : ∀ r ∈ records, r.length = fieldnames.length) : ∀ r ∈ records, Full r := by
  have hencode : ∀ c ∈ text, (PyText.encodePoint c).isSome = true :=
    PyText.encodable_iff.1 (by rw [PyText.encodeUtf8_decodeUtf8 htext]; rfl)
  have hreadable : ∀ c ∈ PyText.universalNewlines text, Readable c := by
    intro c hc
    obtain ⟨hreturn, rfl | hmem⟩ := PyText.mem_universalNewlines hc
    · decide
    · exact ⟨hreturn, hencode c hmem⟩
  intro r hr
  exact ⟨hlength r hr, Csv.mem_of_read hreadable hread r (List.mem_cons_of_mem _ hr)⟩

theorem readRows_sheet {file : Option Bytes} (hsheet : IsSheet file) :
    ∃ records : List Csv.Record, (∀ r ∈ records, Full r) ∧ readRows file = some (records.map rowOf) := by
  obtain ⟨bytes, text, records, rfl, htext, hread, hlength⟩ := hsheet
  refine ⟨records, full_of_read htext hread hlength, ?_⟩
  have hfilter : records.filter (· ≠ []) = records := by
    refine List.filter_eq_self.2 fun r hr => decide_eq_true ?_
    rintro rfl
    cases hlength [] hr
  unfold readRows Csv.readDicts
  simp only [htext, hread, Option.bind_eq_bind, Option.bind_some, hfilter]
  rfl

theorem readTrajectory_sheet (runId : PyText) {file : Option Bytes} (hsheet : IsSheet file) :
    ∃ records : List Csv.Record, (∀ r ∈ records, Full r ∧ IsOwn runId (rowOf r)) ∧
      readTrajectory runId file = some (records.map rowOf) := by
  obtain ⟨records, hfull, hread⟩ := readRows_sheet hsheet
  refine ⟨records.filter fun r => IsOwn runId (rowOf r), fun r hr => ?_, ?_⟩
  · obtain ⟨hmem, hown⟩ := List.mem_filter.1 hr
    exact ⟨hfull r hmem, of_decide_eq_true hown⟩
  · unfold readTrajectory
    rw [hread, Option.bind_eq_bind, Option.bind_some, ownRows_full hfull, List.filter_map]
    rfl

variable {F : Type} {H : Refiner F}

theorem sheet_of_records (hfull : ∀ r ∈ records, Full r) :
    ∃ bytes, PyText.encodeUtf8 (Csv.writeRows (fieldnames :: records)) = some bytes ∧
      IsSheet (some bytes) ∧ readRows (some bytes) = some (records.map rowOf) := by
  have hplain : ∀ r ∈ fieldnames :: records, ∀ t ∈ r, Plain t := by
    intro r hr
    obtain rfl | hr := List.mem_cons.1 hr
    · have hnames : ∀ t ∈ fieldnames, t.all (fun c => decide (Readable c)) = true := by
        decide
      exact fun t ht c hc => of_decide_eq_true (List.all_eq_true.1 (hnames t ht) c hc)
    · exact (hfull r hr).plain
  have hclean : ∀ r ∈ fieldnames :: records, Csv.Clean r :=
    fun r hr t ht c hc => (hplain r hr t ht c hc).1
  have hne : ∀ r ∈ records, r ≠ [] := by
    rintro r hr rfl
    cases (hfull [] hr).length
  obtain ⟨bytes, hbytes⟩ : ∃ bytes, PyText.encodeUtf8 (Csv.writeRows (fieldnames :: records)) =
      some bytes := by
    rw [← Option.isSome_iff_exists, PyText.encodable_iff]
    intro c hc
    obtain hc | ⟨r, hr, t, ht, hct⟩ := Csv.mem_writeRows hc
    · have hsigns : [Csv.comma, Csv.quote, 13, 10].all
          (fun c => (PyText.encodePoint c).isSome) = true := by decide
      exact List.all_eq_true.1 hsigns c hc
    · exact (hplain r hr t ht c hct).2
  have hdecode := PyText.decodeUtf8_encodeUtf8 hbytes
  have hread := Csv.read_writeRows hclean
  refine ⟨bytes, hbytes, ⟨bytes, _, records, rfl, hdecode, hread, fun r hr => (hfull r hr).length⟩,
    ?_⟩
  unfold readRows
  simp only [hdecode, Option.bind_eq_bind, Option.bind_some]
  exact Csv.readDicts_writeRows hne hclean

/-- **Full rows are written back as a sheet of the same rows.** -/
theorem writeBack_sheet {first : Row} (hfirst : first.keys = fieldnames.map some)
    {rows : List Row}
    (hwritten : Csv.WrittenAs H.reprOf fieldnames rows records) (hfull : ∀ r ∈ records, Full r) :
    ∃ file, writeBack H first rows = (file, true) ∧ IsSheet file ∧
      readRows file = some (records.map rowOf) := by
  obtain ⟨bytes, hbytes, hsheet, hread⟩ := sheet_of_records hfull
  refine ⟨some bytes, ?_, hsheet, hread⟩
  unfold writeBack
  simp only [hfirst, Csv.writeDicts_eq hwritten, Csv.writeHeader_append, hbytes]

end ClawHarder.Cognition
