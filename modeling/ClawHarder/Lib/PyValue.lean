import ClawHarder.Lib.PyText

/-!
# Python values from JSON

`PyValue` is what `json.loads` returns. A float is given by its `repr`; a
dictionary is the list of its members, of which the last of a key counts.
`str` is the builtin, for a given text of lists and dictionaries. `Alike` is
equality of dictionaries up to the order of their members: every path of keys reads
alike.

* `get?_set`, `get?_pop`: reading after an assignment and after a removal.
* `set_eq_self`: an assignment that changes nothing.
* `inside_inside`, `inside_alike`, `read_inside`: updates of an inner dictionary.
-/

/-- A value that `json.loads` returns. -/
inductive PyValue where
  | none
  | bool (b : Bool)
  | int (n : ℤ)
  | float (repr : PyText)
  | str (s : PyText)
  | list (items : List PyValue)
  | dict (members : List (PyText × PyValue))

abbrev PyDict := List (PyText × PyValue)

namespace PyValue

open PyText (lit)

/-- `d.get(key)` -/
def get? (key : PyText) : PyDict → Option PyValue
  | [] => Option.none
  | (k, v) :: rest =>
    match get? key rest with
    | some w => some w
    | Option.none => if k = key then some v else Option.none

/-- `str(v)` -/
def text (reprOf : PyValue → PyText) : PyValue → PyText
  | .none => lit "None"
  | .bool true => lit "True"
  | .bool false => lit "False"
  | .int n => lit (toString n)
  | .float r => r
  | .str s => s
  | v => reprOf v

/-- `v or default`, for the values that count as false: is `v` false? -/
def falsy : PyValue → Bool
  | .none => true
  | .bool b => !b
  | .int n => n = 0
  | .float r => r = lit "0.0" || r = lit "-0.0"
  | .str s => s = []
  | .list items => items.isEmpty
  | .dict members => members.isEmpty

/-- `isinstance(v, int)`; a Boolean is an integer. -/
def asInt? : PyValue → Option ℤ
  | .bool b => some (if b then 1 else 0)
  | .int n => some n
  | _ => Option.none

/-- `isinstance(v, bool)` -/
def asBool? : PyValue → Option Bool
  | .bool b => some b
  | _ => Option.none

/-- `isinstance(v, str)` -/
def asStr? : PyValue → Option PyText
  | .str s => some s
  | _ => Option.none

/-- `isinstance(v, list)` -/
def asList? : PyValue → Option (List PyValue)
  | .list items => some items
  | _ => Option.none

/-- `isinstance(v, dict)` -/
def asDict? : PyValue → Option PyDict
  | .dict members => some members
  | _ => Option.none

/-- `d.pop(key, None)` -/
def pop (key : PyText) (d : PyDict) : PyDict := d.filter (fun m => m.1 ≠ key)

/-- `d[key] = v` -/
def set (key : PyText) (v : PyValue) : PyDict → PyDict
  | [] => [(key, v)]
  | m :: rest => if m.1 = key then (key, v) :: pop key rest else m :: set key v rest

theorem get?_cons (k : PyText) (m : PyText × PyValue) (d : PyDict) :
    get? k (m :: d) = (get? k d).or (if m.1 = k then some m.2 else Option.none) := by
  rw [get?]
  cases get? k d <;> rfl

variable {d : PyDict}

theorem mem_keys_of_get? {k : PyText} {v : PyValue} (h : get? k d = some v) :
    k ∈ d.map Prod.fst := by
  induction d with
  | nil => cases h
  | cons m rest ih =>
    rw [get?_cons] at h
    rw [List.map_cons, List.mem_cons]
    by_cases hm : m.1 = k
    · exact .inl hm.symm
    · rw [if_neg hm, Option.or_none] at h
      exact .inr (ih h)

theorem get?_pop (key k : PyText) (d : PyDict) :
    get? k (pop key d) = if k = key then Option.none else get? k d := by
  induction d with
  | nil => simp [pop, get?]
  | cons m rest ih =>
    by_cases hm : m.1 = key
    · have hdrop : pop key (m :: rest) = pop key rest := List.filter_cons_of_neg (by simpa using hm)
      rw [hdrop, ih, get?_cons]
      by_cases hk : k = key
      · rw [if_pos hk, if_pos hk]
      · have hne : m.1 ≠ k := fun h => hk (h.symm.trans hm)
        rw [if_neg hk, if_neg hk, if_neg hne, Option.or_none]
    · have hkeep : pop key (m :: rest) = m :: pop key rest :=
        List.filter_cons_of_pos (by simpa using hm)
      rw [hkeep, get?_cons, get?_cons, ih]
      by_cases hk : k = key
      · have hne : m.1 ≠ k := fun h => hm (h.trans hk)
        rw [if_pos hk, if_pos hk, if_neg hne]
        rfl
      · rw [if_neg hk, if_neg hk]

theorem get?_set (key k : PyText) (v : PyValue) (d : PyDict) :
    get? k (set key v d) = if k = key then some v else get? k d := by
  induction d with
  | nil =>
    by_cases hk : k = key
    · simp [set, get?, hk]
    · have hne : key ≠ k := fun h => hk h.symm
      simp [set, get?, hk, hne]
  | cons m rest ih =>
    unfold set
    by_cases hm : m.1 = key
    · rw [if_pos hm, get?_cons, get?_cons, get?_pop]
      by_cases hk : k = key
      · rw [if_pos hk, if_pos hk, if_pos hk.symm]
        rfl
      · have hne : m.1 ≠ k := fun h => hk (h.symm.trans hm)
        rw [if_neg hk, if_neg hk, if_neg hne, if_neg fun h => hk h.symm]
    · rw [if_neg hm, get?_cons, get?_cons, ih]
      by_cases hk : k = key
      · rw [if_pos hk, if_pos hk]
        rfl
      · rw [if_neg hk, if_neg hk]

theorem pop_pop (key : PyText) (d : PyDict) : pop key (pop key d) = pop key d := by
  unfold pop
  rw [List.filter_filter]
  simp only [Bool.and_self]

theorem set_set (key : PyText) (v w : PyValue) (d : PyDict) :
    set key w (set key v d) = set key w d := by
  induction d with
  | nil => simp [set, pop]
  | cons m rest ih =>
    by_cases hm : m.1 = key
    · simp only [set, if_pos hm, if_true, pop_pop]
    · simp only [set, if_neg hm, ih]

def entries (key : PyText) (d : PyDict) : PyDict := d.filter (fun m => m.1 = key)

theorem entries_pop (key k : PyText) (d : PyDict) :
    entries k (pop key d) = if k = key then [] else entries k d := by
  unfold entries pop
  rw [List.filter_filter]
  by_cases hk : k = key
  · subst hk
    simp
  · rw [if_neg hk]
    refine List.filter_congr fun m _ => ?_
    by_cases hm : m.1 = k
    · simp [hm, hk]
    · simp [hm]

theorem entries_cons (k : PyText) (m : PyText × PyValue) (d : PyDict) :
    entries k (m :: d) = (if m.1 = k then [m] else []) ++ entries k d := by
  unfold entries
  rw [List.filter_cons]
  by_cases hm : m.1 = k
  · simp [hm]
  · simp [hm]

theorem entries_set (key k : PyText) (v : PyValue) (d : PyDict) :
    entries k (set key v d) = if k = key then [(key, v)] else entries k d := by
  induction d with
  | nil =>
    by_cases hk : k = key
    · simp [set, entries, hk]
    · have hne : key ≠ k := fun h => hk h.symm
      simp [set, entries, hk, hne]
  | cons m rest ih =>
    unfold set
    by_cases hm : m.1 = key
    · rw [if_pos hm, entries_cons, entries_cons, entries_pop]
      by_cases hk : k = key
      · simp [hk]
      · have hne : m.1 ≠ k := fun h => hk (h.symm.trans hm)
        have hne' : key ≠ k := fun h => hk h.symm
        simp [hk, hne, hne']
    · rw [if_neg hm, entries_cons, entries_cons, ih]
      by_cases hk : k = key
      · simp [hk, hm]
      · simp [hk]

theorem pop_eq_self {key : PyText} (h : entries key d = []) : pop key d = d := by
  unfold pop
  refine List.filter_eq_self.2 fun m hm => ?_
  have hnot := List.filter_eq_nil_iff.1 h m hm
  simpa using hnot

/-- **An assignment of what the only member with a key holds changes nothing.** -/
theorem set_eq_self {key : PyText} {v : PyValue} (h : entries key d = [(key, v)]) :
    set key v d = d := by
  induction d with
  | nil => cases h
  | cons m rest ih =>
    rw [entries_cons] at h
    unfold set
    by_cases hm : m.1 = key
    · rw [if_pos hm, List.singleton_append, List.cons.injEq] at h
      rw [if_pos hm, pop_eq_self h.2, h.1]
    · rw [if_neg hm, List.nil_append] at h
      rw [if_neg hm, ih h]

/-- What a path of keys meets: nothing, a dictionary or another value. -/
inductive Reading where
  | missing
  | dict
  | leaf (v : PyValue)

def Reading.along (within : PyDict → Reading) (atEnd : Bool) : Option PyValue → Reading
  | Option.none => .missing
  | some (.dict d) => within d
  | some v => if atEnd then .leaf v else .missing

def read : List PyText → PyDict → Reading
  | [], _ => .dict
  | k :: ks, d => Reading.along (read ks) ks.isEmpty (get? k d)

/-- Two dictionaries that are equal, whatever the order of their members. -/
def Alike (d e : PyDict) : Prop := ∀ path, read path d = read path e

theorem alike_of_get? {e : PyDict} (h : ∀ k, get? k d = get? k e) : Alike d e := by
  intro path
  cases path with
  | nil => rfl
  | cons k ks => simp only [read, h k]

def child (k : PyText) (d : PyDict) : PyDict :=
  match get? k d with
  | some (.dict e) => e
  | _ => []

def innermost : List PyText → PyDict → PyDict
  | [], d => d
  | k :: ks, d => innermost ks (child k d)

/-- Update the dictionary at the end of a path, with new dictionaries on the way where
there are none. -/
def inside (update : PyDict → PyDict) : List PyText → PyDict → PyDict
  | [], d => update d
  | k :: ks, d => set k (.dict (inside update ks (child k d))) d

theorem child_set (k : PyText) (e d : PyDict) : child k (set k (.dict e) d) = e := by
  unfold child
  rw [get?_set, if_pos rfl]

/-- **Two updates at the end of a path are one.** -/
theorem inside_inside (f g : PyDict → PyDict) (ks : List PyText) (d : PyDict) :
    inside g ks (inside f ks d) = inside (g ∘ f) ks d := by
  induction ks generalizing d with
  | nil => rfl
  | cons k ks ih =>
    simp only [inside]
    rw [child_set, set_set, ih]

theorem read_inside (update : PyDict → PyDict) (ks : List PyText) (d : PyDict) :
    read ks (inside update ks d) = .dict := by
  induction ks generalizing d with
  | nil => rfl
  | cons k ks ih =>
    simp only [read, inside]
    rw [get?_set, if_pos rfl]
    exact ih (child k d)

theorem along_eq_dict {within : PyDict → Reading} {atEnd : Bool} {o : Option PyValue}
    (h : Reading.along within atEnd o = .dict) : ∃ d, o = some (.dict d) ∧ within d = .dict := by
  unfold Reading.along at h
  split at h
  · cases h
  · exact ⟨_, rfl, h⟩
  · split at h <;> cases h

theorem read_cons {k : PyText} {ks : List PyText} (h : read (k :: ks) d = .dict) :
    get? k d = some (.dict (child k d)) ∧ read ks (child k d) = .dict := by
  obtain ⟨e, hk, he⟩ := along_eq_dict h
  have hchild : child k d = e := by
    unfold child
    rw [hk]
  rw [hchild]
  exact ⟨hk, he⟩

/-- **An update that changes nothing, inside dictionaries that exist, changes nothing.** -/
theorem inside_alike {update : PyDict → PyDict} {ks : List PyText}
    (hread : read ks d = .dict) (hsame : Alike (update (innermost ks d)) (innermost ks d)) :
    Alike (inside update ks d) d := by
  induction ks generalizing d with
  | nil => exact hsame
  | cons k ks ih =>
    obtain ⟨hchild, hrest⟩ := read_cons hread
    have hinner : Alike (inside update ks (child k d)) (child k d) := ih hrest hsame
    intro path
    cases path with
    | nil => rfl
    | cons k' path =>
      simp only [read, inside]
      rw [get?_set]
      by_cases hk : k' = k
      · rw [if_pos hk, hk, hchild]
        exact hinner path
      · rw [if_neg hk]

end PyValue
