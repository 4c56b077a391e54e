import Mathlib.Data.List.Induction
import ClawHarder.Lib.OrderedMap
import ClawHarder.Lib.PyLines

/-!
# Python's csv module

The dialect `excel`: commas, quotes where they are needed, quotes in quotes doubled, records that
end in a carriage return and a line feed. `read` is the machine of `csv.reader` over the lines of
a text, and `Row` is what `DictReader` makes of a record; the limit on the length of a field is
left out.

* `read_writeRows`: **what was written reads back**, through universal newlines, when no field
  has a carriage return.
* `mem_of_read`: a record that was read has no characters but those of the text.
* `writeDicts_eq`, `readDicts_writeRows`: rows with the keys of the header are written as records,
  which read back as their rows.
-/

namespace Csv

open PyText (lit)

abbrev Record := List PyText

def comma : CodePoint := PyText.codePoint ','

def quote : CodePoint := PyText.codePoint '"'

def isNewline (c : CodePoint) : Bool := c.val = 10 || c.val = 13

def special (c : CodePoint) : Bool := c = comma || c = quote || isNewline c

def doubled (t : PyText) : PyText := t.flatMap fun c => if c = quote then [quote, quote] else [c]

def writeField (t : PyText) : PyText :=
  if t.any special then quote :: doubled t ++ [quote] else t

/-- The fields with commas between them; one empty field alone is quoted. -/
def writeFields : Record → PyText
  | [] => []
  | [[]] => [quote, quote]
  | fields => [comma].intercalate (fields.map writeField)

/-- `writer.writerow(record)` -/
def writeRow (record : Record) : PyText := writeFields record ++ [13, 10]

def writeRows (records : List Record) : PyText := (records.map writeRow).flatten

inductive State where
  | startRecord
  | startField
  | inField
  | inQuotedField
  | quoteInQuotedField
  | eatCrnl
  deriving DecidableEq

structure Scan where
  state : State
  field : PyText
  fields : Record

def Scan.fresh : Scan := ⟨.startRecord, [], []⟩

/-- `parse_save_field` -/
def Scan.save (s : Scan) (next : State) : Scan := ⟨next, [], s.fields ++ [s.field]⟩

/-- `parse_add_char` -/
def Scan.add (s : Scan) (c : CodePoint) (next : State) : Scan := ⟨next, s.field ++ [c], s.fields⟩

def Scan.begin (s : Scan) (c : CodePoint) : Scan :=
  if isNewline c then s.save .eatCrnl
  else if c = quote then { s with state := .inQuotedField }
  else if c = comma then s.save .startField
  else s.add c .inField

/-- `parse_process_char`; none is `csv.Error`. -/
def Scan.step (s : Scan) (c : CodePoint) : Option Scan :=
  match s.state with
  | .startRecord => some (if isNewline c then { s with state := .eatCrnl } else s.begin c)
  | .startField => some (s.begin c)
  | .inField =>
    some (if isNewline c then s.save .eatCrnl
      else if c = comma then s.save .startField
      else s.add c .inField)
  | .inQuotedField =>
    some (if c = quote then { s with state := .quoteInQuotedField } else s.add c .inQuotedField)
  | .quoteInQuotedField =>
    some (if c = quote then s.add c .inQuotedField
      else if c = comma then s.save .startField
      else if isNewline c then s.save .eatCrnl
      else s.add c .inField)
  | .eatCrnl => if isNewline c then some s else none

/-- `parse_process_char` at the end of a line -/
def Scan.endLine (s : Scan) : Scan :=
  match s.state with
  | .startRecord | .inQuotedField => s
  | .startField | .inField | .quoteInQuotedField => s.save .startRecord
  | .eatCrnl => { s with state := .startRecord }

/-- The records of a text, by its lines; a quote that stays open is closed by the end. -/
def readFrom (s : Scan) : PyText → Option (List Record)
  | [] =>
    if s.state = .startRecord then some []
    else if s.state = .inQuotedField then some [s.fields ++ [s.field]]
    else some [s.endLine.fields]
  | c :: rest =>
    match s.step c with
    | none => none
    | some s =>
      if c.val = 10 then
        if s.endLine.state = .startRecord then (readFrom .fresh rest).map (s.endLine.fields :: ·)
        else readFrom s.endLine rest
      else readFrom s rest

/-- `list(csv.reader(f))` of a text in universal newlines -/
def read (text : PyText) : Option (List Record) := readFrom .fresh text

/-- A value of a row: a field, `None`, or the fields behind the last of the header. -/
inductive Cell where
  | none
  | text (t : PyText)
  | rest (fields : Record)
  deriving DecidableEq

/-- A row of `DictReader`; the key of the fields behind the last is `None`. -/
abbrev Row := OrderedMap (Option PyText) Cell

def dictRow (fieldnames record : Record) : Row :=
  let row : Row := (fieldnames.zip record).foldl (fun row e => row.set (some e.1) (.text e.2)) .empty
  if fieldnames.length < record.length then
    row.set Option.none (.rest (record.drop fieldnames.length))
  else (fieldnames.drop record.length).foldl (fun row name => row.set (some name) .none) row

/-- `list(csv.DictReader(f))` -/
def readDicts (text : PyText) : Option (List Row) := do
  match ← read text with
  | [] => return []
  | fieldnames :: records => return (records.filter (· ≠ [])).map (dictRow fieldnames)

/-- A value as it is written: `None` is empty, and a list is printed. -/
def Cell.written (reprOf : Record → PyText) : Cell → PyText
  | .none => []
  | .text t => t
  | .rest fields => reprOf fields

/-- `_dict_to_list`; none is `ValueError`. -/
def dictToList (reprOf : Record → PyText) (fieldnames : List (Option PyText)) (row : Row) :
    Option Record :=
  if row.keys.all (· ∈ fieldnames) then
    some (fieldnames.map fun name => ((row.get? name).getD (.text [])).written reprOf)
  else none

/-- `writer.writerows(rows)`: what is written, and whether it returns. -/
def writeDicts (reprOf : Record → PyText) (fieldnames : List (Option PyText)) :
    List Row → PyText × Bool
  | [] => ([], true)
  | row :: rows =>
    match dictToList reprOf fieldnames row with
    | none => ([], false)
    | some record =>
      let (text, returned) := writeDicts reprOf fieldnames rows
      (writeRow record ++ text, returned)

/-- `writer.writeheader()` -/
def writeHeader (fieldnames : List (Option PyText)) : PyText :=
  writeRow (fieldnames.map (·.getD []))

theorem readFrom_quoted (t field rest : PyText) (fields : Record) :
    readFrom ⟨.inQuotedField, field, fields⟩ (doubled t ++ rest) =
      readFrom ⟨.inQuotedField, field ++ t, fields⟩ rest := by
  induction t generalizing field with
  | nil => simp [doubled]
  | cons c t ih =>
    have happend : field ++ c :: t = field ++ [c] ++ t := by simp
    have hrest := ih (field ++ [c])
    by_cases hc : c = quote
    · have hdoubled : doubled (c :: t) = quote :: quote :: doubled t := by
        simp [doubled, hc]
      have hquote : ¬quote.val = 10 := by decide
      rw [hdoubled, happend, ← hrest, hc]
      simp [readFrom, Scan.step, Scan.add, hquote]
    · have hdoubled : doubled (c :: t) = c :: doubled t := by
        simp [doubled, hc]
      rw [hdoubled, happend, ← hrest]
      simp [readFrom, Scan.step, Scan.add, Scan.endLine, hc]

theorem readFrom_plain {t : PyText} (ht : t.any special = false) (field rest : PyText)
    (fields : Record) :
    readFrom ⟨.inField, field, fields⟩ (t ++ rest) =
      readFrom ⟨.inField, field ++ t, fields⟩ rest := by
  induction t generalizing field with
  | nil => simp
  | cons c t ih =>
    have happend : field ++ c :: t = field ++ [c] ++ t := by simp
    rw [List.any_cons, Bool.or_eq_false_iff] at ht
    have hc : c ≠ comma ∧ c ≠ quote ∧ isNewline c = false := by
      simpa [special, not_or, and_assoc] using ht.1
    have hline : ¬c.val = 10 := by
      intro heq
      simp [isNewline, heq] at hc
    rw [happend, ← ih ht.2 (field ++ [c]), List.cons_append, readFrom]
    simp [Scan.step, Scan.add, hc.1, hc.2.2, hline]

def State.ends : State → Bool
  | .inQuotedField | .eatCrnl => false
  | _ => true

variable {state : State}

theorem readFrom_comma (hends : state.ends = true) (field rest : PyText)
    (fields : Record) :
    readFrom ⟨state, field, fields⟩ (comma :: rest) =
      readFrom ⟨.startField, [], fields ++ [field]⟩ rest := by
  have hline : ¬comma.val = 10 := by decide
  have hnewline : isNewline comma = false := by decide
  have hquote : comma ≠ quote := by decide
  cases state <;>
    simp_all [readFrom, Scan.step, Scan.begin, Scan.save, State.ends]

theorem readFrom_newline (hends : state.ends = true) (hstate : state ≠ .startRecord)
    (field rest : PyText) (fields : Record) :
    readFrom ⟨state, field, fields⟩ (10 :: rest) =
      (read rest).map ((fields ++ [field]) :: ·) := by
  have hline : (10 : CodePoint).val = 10 := rfl
  have hnewline : isNewline 10 = true := rfl
  have hcomma : (10 : CodePoint) ≠ comma := by decide
  have hquote : (10 : CodePoint) ≠ quote := by decide
  cases state <;>
    simp_all [readFrom, read, Scan.step, Scan.begin, Scan.save, Scan.endLine, State.ends]

theorem readFrom_field (hstate : state = .startRecord ∨ state = .startField)
    (t rest : PyText) (fields : Record) :
    ∃ after : State, after.ends = true ∧ (after = .startRecord → state = .startRecord ∧ t = []) ∧
      readFrom ⟨state, [], fields⟩ (writeField t ++ rest) = readFrom ⟨after, t, fields⟩ rest := by
  have hbegin : ∀ c : CodePoint, isNewline c = false →
      Scan.step ⟨state, [], fields⟩ c = some (Scan.begin ⟨state, [], fields⟩ c) := by
    intro c hc
    obtain rfl | rfl := hstate
    · simp [Scan.step, hc]
    · rfl
  by_cases hspecial : t.any special = true
  · -- the quote that opens the field, its characters, and the quote that may close it
    have hquote : ¬quote.val = 10 := by decide
    have hnewline : isNewline quote = false := by decide
    refine ⟨.quoteInQuotedField, rfl, nofun, ?_⟩
    have hwrite : writeField t ++ rest = quote :: (doubled t ++ quote :: rest) := by
      simp [writeField, hspecial]
    have hopen : Scan.begin ⟨state, [], fields⟩ quote = ⟨.inQuotedField, [], fields⟩ := by
      simp [Scan.begin, hnewline]
    rw [hwrite, readFrom, hbegin quote hnewline, hopen]
    simp only [if_neg hquote]
    rw [readFrom_quoted, List.nil_append, readFrom]
    simp [Scan.step, hquote]
  · have hplain : t.any special = false := by simpa using hspecial
    have hwrite : writeField t = t := by simp [writeField, hplain]
    rw [hwrite]
    cases t with
    | nil =>
      refine ⟨state, ?_, fun h => ⟨h, rfl⟩, rfl⟩
      obtain rfl | rfl := hstate <;> rfl
    | cons c t =>
      rw [List.any_cons, Bool.or_eq_false_iff] at hplain
      have hc : c ≠ comma ∧ c ≠ quote ∧ isNewline c = false := by
        simpa [special, not_or, and_assoc] using hplain.1
      have hline : ¬c.val = 10 := by
        intro heq
        simp [isNewline, heq] at hc
      have hadd : Scan.begin ⟨state, [], fields⟩ c = ⟨.inField, [c], fields⟩ := by
        simp [Scan.begin, Scan.add, hc]
      refine ⟨.inField, rfl, nofun, ?_⟩
      rw [List.cons_append, readFrom, hbegin c hc.2.2, hadd]
      simp only [if_neg hline]
      rw [readFrom_plain hplain.2]
      rfl

theorem readFrom_fields {record : Record} (hne : record ≠ [])
    (hstate : state = .startField ∨ state = .startRecord ∧ record ≠ [[]]) (rest : PyText)
    (fields : Record) :
    readFrom ⟨state, [], fields⟩ ([comma].intercalate (record.map writeField) ++ 10 :: rest) =
      (read rest).map ((fields ++ record) :: ·) := by
  induction record generalizing state fields with
  | nil => exact absurd rfl hne
  | cons t record ih =>
    have hstart : state = .startRecord ∨ state = .startField :=
      hstate.elim .inr fun h => .inl h.1
    cases record with
    | nil =>
      obtain ⟨after, hends, hafter, hread⟩ := readFrom_field hstart t (10 :: rest) fields
      have hrecord : after ≠ .startRecord := by
        intro heq
        obtain ⟨hs, rfl⟩ := hafter heq
        obtain h | h := hstate
        · rw [hs] at h
          cases h
        · exact h.2 rfl
      have hone : [comma].intercalate ([t].map writeField) = writeField t := by
        simp [List.intercalate]
      rw [hone, hread, readFrom_newline hends hrecord]
    | cons u record =>
      have hmore : [comma].intercalate ((t :: u :: record).map writeField) ++ 10 :: rest =
          writeField t ++ comma :: ([comma].intercalate ((u :: record).map writeField) ++
            10 :: rest) := by
        simp [List.intercalate]
      obtain ⟨after, hends, -, hread⟩ := readFrom_field hstart t
        (comma :: ([comma].intercalate ((u :: record).map writeField) ++ 10 :: rest)) fields
      rw [hmore, hread, readFrom_comma hends, ih (List.cons_ne_nil _ _) (.inl rfl)]
      simp

theorem read_fields (record : Record) (rest : PyText) :
    read (writeFields record ++ 10 :: rest) = (read rest).map (record :: ·) := by
  by_cases hnil : record = []
  · subst hnil
    rfl
  · by_cases hempty : record = [[]]
    · subst hempty
      rfl
    · have hfields : writeFields record = [comma].intercalate (record.map writeField) := by
        unfold writeFields
        split
        next => exact absurd rfl hnil
        next => exact absurd rfl hempty
        next => rfl
      rw [hfields, read, Scan.fresh, readFrom_fields hnil (.inr ⟨rfl, hempty⟩), List.nil_append]

theorem mem_intercalate {texts : List PyText} {c : CodePoint}
    (hc : c ∈ [comma].intercalate texts) : c = comma ∨ ∃ t ∈ texts, c ∈ t := by
  induction texts with
  | nil => cases hc
  | cons t texts ih =>
    cases texts with
    | nil =>
      have hone : [comma].intercalate [t] = t := by simp [List.intercalate]
      exact .inr ⟨t, List.mem_cons_self .., hone ▸ hc⟩
    | cons u texts =>
      have hmore : [comma].intercalate (t :: u :: texts) =
          t ++ comma :: [comma].intercalate (u :: texts) := by
        simp [List.intercalate]
      rw [hmore, List.mem_append, List.mem_cons] at hc
      obtain h | h | h := hc
      · exact .inr ⟨t, List.mem_cons_self .., h⟩
      · exact .inl h
      · exact (ih h).imp_right fun ⟨x, hx, hcx⟩ => ⟨x, List.mem_cons_of_mem _ hx, hcx⟩

theorem mem_writeFields {record : Record} {c : CodePoint} (hc : c ∈ writeFields record) :
    c = comma ∨ c = quote ∨ ∃ t ∈ record, c ∈ t := by
  have hfield : ∀ t : PyText, c ∈ writeField t → c = quote ∨ c ∈ t := by
    intro t ht
    unfold writeField at ht
    split at ht
    next =>
      simp only [List.cons_append, List.mem_cons, List.mem_append, List.not_mem_nil, or_false,
        doubled, List.mem_flatMap] at ht
      obtain h | ⟨d, hd, hcd⟩ | h := ht
      · exact .inl h
      · split at hcd
        next => exact .inl (by simpa using hcd)
        next => exact .inr ((List.mem_singleton.1 hcd) ▸ hd)
      · exact .inl h
    next => exact .inr ht
  unfold writeFields at hc
  split at hc
  next => cases hc
  next => exact .inr (.inl (by simpa using hc))
  next =>
    obtain hsep | ⟨w, hw, hcw⟩ := mem_intercalate hc
    · exact .inl hsep
    · obtain ⟨t, ht, rfl⟩ := List.mem_map.1 hw
      exact (hfield t hcw).elim (fun h => .inr (.inl h)) fun h => .inr (.inr ⟨t, ht, h⟩)

def Clean (record : Record) : Prop := ∀ t ∈ record, PyText.NoReturn t

/-- **What was written reads back.** -/
theorem read_writeRows {records : List Record} (hclean : ∀ r ∈ records, Clean r) :
    read (PyText.universalNewlines (writeRows records)) = some records := by
  induction records with
  | nil => rfl
  | cons record records ih =>
    have hrecord : PyText.NoReturn (writeFields record) := by
      intro c hc
      obtain rfl | rfl | ⟨t, ht, hct⟩ := mem_writeFields hc
      · decide
      · decide
      · exact hclean record (List.mem_cons_self ..) t ht c hct
    have hrow : PyText.universalNewlines (writeRows (record :: records)) =
        writeFields record ++ 10 :: PyText.universalNewlines (writeRows records) := by
      have hsplit : writeRows (record :: records) =
          writeFields record ++ 13 :: 10 :: writeRows records := by
        simp [writeRows, writeRow]
      rw [hsplit, PyText.universalNewlines_append hrecord]
      rfl
    rw [hrow, read_fields, ih fun r hr => hclean r (List.mem_cons_of_mem _ hr)]
    rfl

def Scan.All (P : CodePoint → Prop) (s : Scan) : Prop :=
  (∀ c ∈ s.field, P c) ∧ ∀ t ∈ s.fields, ∀ c ∈ t, P c

section Characters

variable {P : CodePoint → Prop} {s s' : Scan} {c : CodePoint}

theorem Scan.All.save (hs : s.All P) (next : State) : (s.save next).All P := by
  refine ⟨fun c hc => absurd hc List.not_mem_nil, fun t ht => ?_⟩
  obtain ht | ht := List.mem_append.1 ht
  · exact hs.2 t ht
  · exact (List.mem_singleton.1 ht) ▸ hs.1

theorem Scan.All.add (hs : s.All P) (hc : P c) (next : State) : (s.add c next).All P := by
  refine ⟨fun d hd => ?_, hs.2⟩
  obtain hd | hd := List.mem_append.1 hd
  · exact hs.1 d hd
  · exact (List.mem_singleton.1 hd) ▸ hc

theorem Scan.All.begin (hs : s.All P) (hc : P c) : (s.begin c).All P := by
  unfold Scan.begin
  split_ifs
  · exact hs.save _
  · exact hs
  · exact hs.save _
  · exact hs.add hc _

theorem Scan.All.step (hs : s.All P) (hc : P c) (h : s.step c = some s') : s'.All P := by
  unfold Scan.step at h
  split at h <;> try cases Option.some.inj h
  · split_ifs
    · exact hs
    · exact hs.begin hc
  · exact hs.begin hc
  · split_ifs
    · exact hs.save _
    · exact hs.save _
    · exact hs.add hc _
  · split_ifs
    · exact hs
    · exact hs.add hc _
  · split_ifs
    · exact hs.add hc _
    · exact hs.save _
    · exact hs.save _
    · exact hs.add hc _
  · split_ifs at h
    exact Option.some.inj h ▸ hs

theorem Scan.All.endLine (hs : s.All P) : s.endLine.All P := by
  unfold Scan.endLine
  split
  all_goals first | exact hs | exact hs.save _

theorem Scan.all_fresh : Scan.fresh.All P :=
  ⟨fun _ hc => absurd hc List.not_mem_nil, fun _ ht => absurd ht List.not_mem_nil⟩

/-- **A record that was read has no characters but those of the text.** -/
theorem mem_of_readFrom {text : PyText} (htext : ∀ c ∈ text, P c) (hs : s.All P)
    {records : List Record} (h : readFrom s text = some records) :
    ∀ r ∈ records, ∀ t ∈ r, ∀ c ∈ t, P c := by
  induction text generalizing s records with
  | nil =>
    unfold readFrom at h
    intro r hr
    split_ifs at h <;> cases Option.some.inj h
    · cases hr
    · exact (List.mem_singleton.1 hr) ▸ (hs.save .startRecord).2
    · exact (List.mem_singleton.1 hr) ▸ hs.endLine.2
  | cons c text ih =>
    have hrest := fun d hd => htext d (List.mem_cons_of_mem c hd)
    unfold readFrom at h
    split at h
    next => cases h
    next next hnext =>
      have hall := hs.step (htext c (List.mem_cons_self ..)) hnext
      split_ifs at h
      · obtain ⟨more, hmore, rfl⟩ := Option.map_eq_some_iff.1 h
        intro r hr
        obtain rfl | hr := List.mem_cons.1 hr
        · exact hall.endLine.2
        · exact ih hrest Scan.all_fresh hmore r hr
      · exact ih hrest hall.endLine h
      · exact ih hrest hall h

theorem mem_of_read {text : PyText} (htext : ∀ c ∈ text, P c) {records : List Record}
    (h : read text = some records) : ∀ r ∈ records, ∀ t ∈ r, ∀ c ∈ t, P c :=
  mem_of_readFrom htext Scan.all_fresh h

end Characters

section Items

variable {ι : Type*} (key : ι → PyText) (value : ι → Cell)

theorem entries_foldl_set {l : List ι} {row : Row} (hl : (l.map key).Nodup)
    (hrow : ∀ e ∈ l, some (key e) ∉ row.keys) :
    (l.foldl (fun row e => row.set (some (key e)) (value e)) row).entries =
      row.entries ++ l.map fun e => (some (key e), value e) := by
  induction l generalizing row with
  | nil => simp
  | cons e l ih =>
    rw [List.map_cons, List.nodup_cons] at hl
    have hnew : some (key e) ∉ row.entries.map Prod.fst := hrow e (List.mem_cons_self ..)
    have hset : (row.set (some (key e)) (value e)).entries =
        row.entries ++ [(some (key e), value e)] := by
      unfold OrderedMap.set
      rw [dif_neg hnew]
    have hrest : ∀ d ∈ l, some (key d) ∉ (row.set (some (key e)) (value e)).keys := by
      intro d hd hmem
      unfold OrderedMap.keys at hmem
      rw [hset, List.map_append, List.mem_append] at hmem
      obtain hmem | hmem := hmem
      · exact hrow d (List.mem_cons_of_mem _ hd) hmem
      · have heq : key d = key e := Option.some.inj (List.mem_singleton.1 hmem)
        exact hl.1 (heq ▸ List.mem_map_of_mem hd)
    rw [List.foldl_cons, ih hl.2 hrest, hset, List.append_assoc]
    rfl

theorem entries_ofItems {l : List ι} (hl : (l.map key).Nodup) :
    (l.foldl (fun row e => row.set (some (key e)) (value e)) (.empty : Row)).entries =
      l.map fun e => (some (key e), value e) :=
  entries_foldl_set key value hl fun _ _ => List.not_mem_nil

end Items

section Rows

variable {fieldnames record : Record}

theorem entries_dictRow (hnodup : fieldnames.Nodup) (hlength : record.length = fieldnames.length) :
    (dictRow fieldnames record).entries =
      (fieldnames.zip record).map fun e => (some e.1, .text e.2) := by
  have hkeys : ((fieldnames.zip record).map Prod.fst).Nodup := by
    rwa [List.map_fst_zip (by omega)]
  have hdrop : fieldnames.drop record.length = [] := List.drop_eq_nil_of_le (by omega)
  unfold dictRow
  rw [if_neg (by omega), hdrop]
  exact entries_ofItems Prod.fst (fun e => .text e.2) hkeys

theorem keys_dictRow (hnodup : fieldnames.Nodup) (hlength : record.length = fieldnames.length) :
    (dictRow fieldnames record).keys = fieldnames.map some := by
  unfold OrderedMap.keys
  rw [entries_dictRow hnodup hlength, List.map_map]
  have hfst : Prod.fst ∘ (fun e : PyText × PyText => (some e.1, Cell.text e.2)) =
      some ∘ Prod.fst := rfl
  rw [hfst, ← List.map_map, List.map_fst_zip (by omega)]

theorem get?_dictRow (hnodup : fieldnames.Nodup) (hlength : record.length = fieldnames.length)
    {i : ℕ} (hi : i < fieldnames.length) (hrecord : i < record.length) :
    (dictRow fieldnames record).get? (some fieldnames[i]) = some (.text record[i]) := by
  rw [OrderedMap.get?_eq_some, entries_dictRow hnodup hlength]
  refine List.mem_map.2 ⟨(fieldnames[i], record[i]), ?_, rfl⟩
  have hzip : i < (fieldnames.zip record).length := by
    rw [List.length_zip]
    omega
  have helem : (fieldnames.zip record)[i] = (fieldnames[i], record[i]) := List.getElem_zip
  exact helem ▸ List.getElem_mem hzip

theorem dictToList_dictRow (reprOf : Record → PyText) (hnodup : fieldnames.Nodup)
    (hlength : record.length = fieldnames.length) :
    dictToList reprOf (fieldnames.map some) (dictRow fieldnames record) = some record := by
  have hkeys : (dictRow fieldnames record).keys.all (· ∈ fieldnames.map some) = true := by
    rw [keys_dictRow hnodup hlength, List.all_eq_true]
    exact fun k hk => decide_eq_true hk
  unfold dictToList
  rw [if_pos hkeys]
  refine congrArg some (List.ext_getElem (by simp [hlength]) fun i hi hi' => ?_)
  have hfield : i < fieldnames.length := by omega
  have hget := get?_dictRow hnodup hlength hfield hi'
  simp [hget, Cell.written]

def WrittenAs (reprOf : Record → PyText) (fieldnames : Record) (rows : List Row)
    (records : List Record) : Prop :=
  List.Forall₂ (fun row record => dictToList reprOf (fieldnames.map some) row = some record)
    rows records

variable {records : List Record}

theorem writeDicts_eq {reprOf : Record → PyText} {rows : List Row}
    (h : WrittenAs reprOf fieldnames rows records) :
    writeDicts reprOf (fieldnames.map some) rows = (writeRows records, true) := by
  induction h with
  | nil => rfl
  | cons hrow hrows ih =>
    rw [writeDicts, hrow, ih]
    rfl

theorem writeHeader_append (records : List Record) :
    writeHeader (fieldnames.map some) ++ writeRows records = writeRows (fieldnames :: records) := by
  have hnames : (fieldnames.map some).map (·.getD []) = fieldnames := by
    rw [List.map_map]
    exact List.map_id fieldnames
  unfold writeHeader
  rw [hnames]
  rfl

/-- **Records read back as their rows.** -/
theorem readDicts_writeRows (hne : ∀ r ∈ records, r ≠ [])
    (hclean : ∀ r ∈ fieldnames :: records, Clean r) :
    readDicts (PyText.universalNewlines (writeRows (fieldnames :: records))) =
      some (records.map (dictRow fieldnames)) := by
  have hfilter : records.filter (· ≠ []) = records :=
    List.filter_eq_self.2 fun r hr => by simpa using hne r hr
  unfold readDicts
  rw [read_writeRows hclean, Option.bind_eq_bind, Option.bind_some]
  simp only [hfilter]
  rfl

theorem mem_writeRows {c : CodePoint} (hc : c ∈ writeRows records) :
    c ∈ [comma, quote, 13, 10] ∨ ∃ r ∈ records, ∃ t ∈ r, c ∈ t := by
  obtain ⟨text, htext, hc⟩ := List.mem_flatten.1 hc
  obtain ⟨r, hr, rfl⟩ := List.mem_map.1 htext
  obtain hc | hc := List.mem_append.1 hc
  · obtain rfl | rfl | ⟨t, ht, hct⟩ := mem_writeFields hc
    · exact .inl (by simp)
    · exact .inl (by simp)
    · exact .inr ⟨r, hr, t, ht, hct⟩
  · exact .inl (List.mem_append_right [comma, quote] hc)

end Rows

end Csv
