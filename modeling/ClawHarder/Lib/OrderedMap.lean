import Mathlib.Data.List.Nodup
import Mathlib.Data.List.Basic

/-!
# Insertion-ordered maps and sets

`OrderedMap K V` is a map that remembers the order in which its keys were first
written (a JavaScript object or `Map`, a Python dictionary). Writing an existing
key keeps its place; a new key goes to the end.

* `get?_set`, `get?_erase`: reading back after a write or a removal, at any key.
* `mem_values`: the values are what some key reads.
* `SetMap`: a map from keys to sets (`Map<K, Set<V>>`), with `mem_bucket_add` and
  `mem_bucket_remove` for its two updates, and `SetMap.Equiv`, equality up to
  empty buckets and the order inside a bucket.
-/

@[ext]
structure OrderedMap (K V : Type*) where
  entries : List (K × V)
  nodup : (entries.map Prod.fst).Nodup

namespace OrderedMap

variable {K V : Type*}

def empty : OrderedMap K V := ⟨[], List.nodup_nil⟩

instance : Inhabited (OrderedMap K V) := ⟨empty⟩

def keys (m : OrderedMap K V) : List K := m.entries.map Prod.fst

def values (m : OrderedMap K V) : List V := m.entries.map Prod.snd

variable [DecidableEq K]

def get? (m : OrderedMap K V) (k : K) : Option V :=
  (m.entries.find? (fun e => e.1 = k)).map Prod.snd

def contains (m : OrderedMap K V) (k : K) : Bool := (m.get? k).isSome

def replace (k : K) (v : V) (es : List (K × V)) : List (K × V) :=
  es.map (fun e => if e.1 = k then (k, v) else e)

theorem replace_keys (k : K) (v : V) (es : List (K × V)) :
    (replace k v es).map Prod.fst = es.map Prod.fst := by
  unfold replace
  rw [List.map_map]
  apply List.map_congr_left
  intro e _
  by_cases h : e.1 = k <;> simp [h]

/-- `m[k] = v`: in place if `k` is there, at the end otherwise. -/
def set (m : OrderedMap K V) (k : K) (v : V) : OrderedMap K V :=
  if h : k ∈ m.entries.map Prod.fst then
    ⟨replace k v m.entries, by rw [replace_keys]; exact m.nodup⟩
  else
    ⟨m.entries ++ [(k, v)], by
      rw [List.map_append, List.nodup_append]
      refine ⟨m.nodup, by simp, ?_⟩
      intro a ha b hb hab
      simp at hb
      subst hb hab
      exact h ha⟩

/-- `m.pop(k, None)` -/
def erase (m : OrderedMap K V) (k : K) : OrderedMap K V :=
  ⟨m.entries.filter (fun e => e.1 ≠ k), m.nodup.sublist (List.filter_sublist.map Prod.fst)⟩

@[simp] theorem get?_empty (k : K) : (empty : OrderedMap K V).get? k = none := rfl

variable {m : OrderedMap K V} {k : K}

theorem get?_eq_some {v : V} :
    m.get? k = some v ↔ (k, v) ∈ m.entries := by
  unfold get?
  rw [Option.map_eq_some_iff]
  constructor
  · rintro ⟨e, he, rfl⟩
    have hk := List.find?_some he
    simp at hk
    subst hk
    exact List.mem_of_find?_eq_some he
  · intro h
    cases hf : m.entries.find? (fun e => e.1 = k) with
    | none =>
      rw [List.find?_eq_none] at hf
      exact absurd (decide_eq_true rfl) (hf _ h)
    | some e =>
      have hk := List.find?_some hf
      simp at hk
      have heq : e = (k, v) :=
        List.inj_on_of_nodup_map m.nodup (List.mem_of_find?_eq_some hf) h hk
      exact ⟨e, rfl, by rw [heq]⟩

theorem get?_eq_none : m.get? k = none ↔ k ∉ m.keys := by
  unfold get? keys
  rw [Option.map_eq_none_iff, List.find?_eq_none]
  constructor
  · intro h hk
    obtain ⟨e, he, rfl⟩ := List.mem_map.1 hk
    exact h e he (decide_eq_true rfl)
  · intro h e he
    simp only [decide_eq_true_eq]
    rintro rfl
    exact h (List.mem_map_of_mem he)

theorem mem_keys : k ∈ m.keys ↔ ∃ v, m.get? k = some v := by
  rw [← not_iff_not, ← get?_eq_none]
  cases m.get? k <;> simp

theorem contains_iff :
    m.contains k = true ↔ ∃ v, m.get? k = some v := by
  unfold contains
  rw [Option.isSome_iff_exists]

theorem mem_values {v : V} : v ∈ m.values ↔ ∃ k, m.get? k = some v := by
  unfold values
  rw [List.mem_map]
  constructor
  · rintro ⟨e, he, rfl⟩; exact ⟨e.1, get?_eq_some.2 he⟩
  · rintro ⟨k, h⟩; exact ⟨(k, v), get?_eq_some.1 h, rfl⟩

theorem mem_replace {v : V} {es : List (K × V)} (hk : k ∈ es.map Prod.fst) {e : K × V} :
    e ∈ replace k v es ↔ e = (k, v) ∨ (e.1 ≠ k ∧ e ∈ es) := by
  unfold replace
  rw [List.mem_map]
  constructor
  · rintro ⟨x, hx, rfl⟩
    by_cases h : x.1 = k
    · simp [h]
    · right; simp [h, hx]
  · rintro (rfl | ⟨hne, he⟩)
    · obtain ⟨x, hx, rfl⟩ := List.mem_map.1 hk
      exact ⟨x, hx, by simp⟩
    · exact ⟨e, he, by simp [hne]⟩

theorem mem_entries_set {v : V} {e : K × V} :
    e ∈ (m.set k v).entries ↔ e = (k, v) ∨ (e.1 ≠ k ∧ e ∈ m.entries) := by
  unfold set
  split
  · rename_i h; exact mem_replace h
  · rename_i h
    simp only [List.mem_append, List.mem_singleton]
    constructor
    · rintro (he | rfl)
      · exact Or.inr ⟨fun hk => h (hk ▸ List.mem_map_of_mem he), he⟩
      · exact Or.inl rfl
    · rintro (rfl | ⟨-, he⟩)
      · exact Or.inr rfl
      · exact Or.inl he

theorem length_set_le (m : OrderedMap K V) (k : K) (v : V) :
    (m.set k v).entries.length ≤ m.entries.length + 1 := by
  unfold set
  split
  · show (replace k v m.entries).length ≤ _
    unfold replace
    rw [List.length_map]
    omega
  · simp

/-- **Reading back after a write.** -/
theorem get?_set (m : OrderedMap K V) (k : K) (v : V) (k' : K) :
    (m.set k v).get? k' = if k' = k then some v else m.get? k' := by
  apply Option.ext
  intro x
  rw [get?_eq_some, mem_entries_set]
  split
  · rename_i h
    subst h
    simp [eq_comm]
  · rename_i h
    simp [h, get?_eq_some]

@[simp] theorem get?_set_self (m : OrderedMap K V) (k : K) (v : V) :
    (m.set k v).get? k = some v := by
  rw [get?_set, if_pos rfl]

theorem get?_set_ne (m : OrderedMap K V) {k' : K} (v : V) (h : k' ≠ k) :
    (m.set k v).get? k' = m.get? k' := by
  rw [get?_set, if_neg h]

theorem get?_erase (m : OrderedMap K V) (k k' : K) :
    (m.erase k).get? k' = if k' = k then none else m.get? k' := by
  unfold get? erase
  rw [List.find?_filter]
  by_cases h : k' = k
  · subst h
    rw [if_pos rfl, List.find?_eq_none.2 ?_]
    · rfl
    · intro e _
      simp
  · rw [if_neg h]
    congr 2
    funext e
    by_cases he : e.1 = k'
    · simp [he, h]
    · simp [he]

theorem set_set (m : OrderedMap K V) (k : K) (a b : V) : (m.set k a).set k b = m.set k b := by
  have hk : k ∈ (m.set k a).entries.map Prod.fst :=
    List.mem_map_of_mem (mem_entries_set.2 (Or.inl rfl))
  apply OrderedMap.ext
  have hset : ((m.set k a).set k b).entries = replace k b (m.set k a).entries := by
    rw [set, dif_pos hk]
  rw [hset]
  unfold set
  split
  · unfold replace
    rw [List.map_map]
    apply List.map_congr_left
    intro e _
    by_cases he : e.1 = k <;> simp [he]
  · rename_i hnew
    have hid : ∀ e ∈ m.entries, (if e.1 = k then (k, b) else e) = id e := by
      intro e he
      rw [if_neg (fun heq : e.1 = k => hnew (heq ▸ List.mem_map_of_mem he)), id]
    unfold replace
    rw [List.map_append, List.map_congr_left hid]
    simp

theorem contains_set (k' : K) (v : V) (h : m.contains k = true) :
    (m.set k' v).contains k = true := by
  obtain ⟨x, hx⟩ := contains_iff.1 h
  rw [contains_iff, get?_set]
  split
  · exact ⟨v, rfl⟩
  · exact ⟨x, hx⟩

@[simp] theorem contains_set_self (m : OrderedMap K V) (k : K) (v : V) :
    (m.set k v).contains k = true :=
  contains_iff.2 ⟨v, get?_set_self m k v⟩

theorem mem_values_set {v x : V} (h : x ∈ (m.set k v).values) :
    x = v ∨ x ∈ m.values := by
  obtain ⟨k', hk'⟩ := mem_values.1 h
  rw [get?_set] at hk'
  split at hk'
  · cases hk'; exact Or.inl rfl
  · exact Or.inr (mem_values.2 ⟨k', hk'⟩)

theorem values_set_new (v : V) (h : m.get? k = none) :
    (m.set k v).values = m.values ++ [v] := by
  have hk : k ∉ m.entries.map Prod.fst := get?_eq_none.1 h
  unfold set values
  rw [dif_neg hk]
  simp

theorem values_set_old {v₀ : V} (v : V) (h : m.get? k = some v₀) :
    ∃ l r, m.values = l ++ v₀ :: r ∧ (m.set k v).values = l ++ v :: r := by
  have hmem := get?_eq_some.1 h
  have hk : k ∈ m.entries.map Prod.fst := List.mem_map_of_mem hmem
  obtain ⟨l, r, hlr⟩ := List.append_of_mem hmem
  have hnd := m.nodup
  rw [hlr, List.map_append, List.map_cons, List.nodup_append] at hnd
  obtain ⟨-, hr, hl⟩ := hnd
  rw [List.nodup_cons] at hr
  have keep : ∀ es : List (K × V), k ∉ es.map Prod.fst → replace k v es = es := by
    intro es hes
    have hid : ∀ e ∈ es, (if e.1 = k then (k, v) else e) = id e := by
      intro e he
      have hne : e.1 ≠ k := fun heq => hes (heq ▸ List.mem_map_of_mem he)
      rw [if_neg hne, id]
    rw [replace, List.map_congr_left hid, List.map_id]
  refine ⟨l.map Prod.snd, r.map Prod.snd, by unfold values; rw [hlr]; simp, ?_⟩
  unfold set values
  rw [dif_pos hk]
  have hrep : replace k v m.entries = l ++ (k, v) :: r := by
    rw [hlr]
    unfold replace
    rw [List.map_append, List.map_cons]
    have h1 := keep l (fun hin => hl k hin k (by simp) rfl)
    have h2 := keep r hr.1
    unfold replace at h1 h2
    rw [h1, h2]
    simp
  simp only [hrep, List.map_append, List.map_cons]

end OrderedMap

abbrev OrderedSet (V : Type*) := List V

namespace OrderedSet

variable {V : Type*} [DecidableEq V]

/-- `Set.add`: a present element keeps its place. -/
def add (s : OrderedSet V) (v : V) : OrderedSet V := if v ∈ s then s else s ++ [v]

def delete (s : OrderedSet V) (v : V) : OrderedSet V := s.filter (fun x => x ≠ v)

/-- `new Set(xs)`. -/
def ofList (xs : List V) : OrderedSet V := xs.foldl add []

variable {s : OrderedSet V}

@[simp] theorem mem_add {v x : V} : x ∈ add s v ↔ x ∈ s ∨ x = v := by
  unfold add
  split
  · rename_i h
    constructor
    · exact Or.inl
    · rintro (hx | rfl)
      · exact hx
      · exact h
  · simp

@[simp] theorem mem_delete {v x : V} : x ∈ delete s v ↔ x ∈ s ∧ x ≠ v := by
  simp [delete]

theorem add_of_mem {v : V} (h : v ∈ s) : add s v = s := if_pos h

theorem add_of_not_mem {v : V} (h : v ∉ s) : add s v = s ++ [v] := if_neg h

theorem mem_ofList {xs : List V} {x : V} : x ∈ ofList xs ↔ x ∈ xs := by
  have key : ∀ (xs : List V) (s : OrderedSet V), x ∈ xs.foldl add s ↔ x ∈ s ∨ x ∈ xs := by
    intro xs
    induction xs with
    | nil => simp
    | cons v xs ih =>
      intro s
      rw [List.foldl_cons, ih, mem_add, List.mem_cons, or_assoc]
  unfold ofList
  rw [key]
  simp

end OrderedSet

/-- A map to sets, `Map<K, Set<V>>`. -/
abbrev SetMap (K V : Type*) := OrderedMap K (OrderedSet V)

namespace SetMap

variable {K V : Type*} [DecidableEq K]

def bucket (m : SetMap K V) (k : K) : OrderedSet V := (m.get? k).getD []

@[simp] theorem bucket_empty (k : K) : bucket (OrderedMap.empty : SetMap K V) k = [] := rfl

/-- Equality of maps to sets, up to empty buckets and the order inside a bucket. -/
def Equiv (a b : SetMap K V) : Prop := ∀ k v, v ∈ bucket a k ↔ v ∈ bucket b k

variable [DecidableEq V]

/-- Add `v` to the set at `k`, creating it if need be. -/
def add (m : SetMap K V) (k : K) (v : V) : SetMap K V := m.set k ((bucket m k).add v)

/-- Remove `v` from the set at `k`, if there is one. -/
def remove (m : SetMap K V) (k : K) (v : V) : SetMap K V :=
  match m.get? k with
  | none => m
  | some s => m.set k (s.delete v)

theorem bucket_add (m : SetMap K V) (k : K) (v : V) (k' : K) :
    bucket (add m k v) k' = if k' = k then (bucket m k).add v else bucket m k' := by
  unfold add bucket
  rw [OrderedMap.get?_set]
  split <;> rfl

theorem bucket_remove (m : SetMap K V) (k : K) (v : V) (k' : K) :
    bucket (remove m k v) k' = if k' = k then (bucket m k).delete v else bucket m k' := by
  unfold remove
  cases h : m.get? k with
  | none =>
    by_cases hk : k' = k
    · subst hk; simp [bucket, h, OrderedSet.delete]
    · simp [hk]
  | some s =>
    simp only [bucket, OrderedMap.get?_set]
    split <;> simp [h]

@[simp] theorem mem_bucket_add {m : SetMap K V} {k k' : K} {v x : V} :
    x ∈ bucket (add m k v) k' ↔ x ∈ bucket m k' ∨ (k' = k ∧ x = v) := by
  rw [bucket_add]
  split
  · rename_i h; subst h; simp
  · rename_i h; simp [h]

@[simp] theorem mem_bucket_remove {m : SetMap K V} {k k' : K} {v x : V} :
    x ∈ bucket (remove m k v) k' ↔ x ∈ bucket m k' ∧ ¬ (k' = k ∧ x = v) := by
  rw [bucket_remove]
  split
  · rename_i h; subst h; simp
  · rename_i h; simp [h]

theorem mem_bucket_foldl_add {A : Type*} (key : A → K) (val : A → V) (as : List A)
    (m : SetMap K V) (k : K) (v : V) :
    v ∈ bucket (as.foldl (fun m a => add m (key a) (val a)) m) k ↔
      v ∈ bucket m k ∨ ∃ a ∈ as, key a = k ∧ val a = v := by
  induction as generalizing m with
  | nil => simp
  | cons a as ih =>
    have hcomm : (k = key a ∧ v = val a) ↔ (key a = k ∧ val a = v) :=
      and_congr eq_comm eq_comm
    rw [List.foldl_cons, ih, mem_bucket_add, hcomm, or_assoc]
    simp only [List.mem_cons, exists_eq_or_imp]

theorem bucket_foldl_add {A : Type*} (key : A → K) (val : A → V) (as : List A)
    (hnd : (as.map val).Nodup) (m : SetMap K V) (hnew : ∀ a ∈ as, val a ∉ bucket m (key a))
    (k : K) :
    bucket (as.foldl (fun m a => add m (key a) (val a)) m) k =
      bucket m k ++ (as.filter (fun a => key a = k)).map val := by
  induction as generalizing m with
  | nil => simp
  | cons a as ih =>
    rw [List.map_cons, List.nodup_cons] at hnd
    have hnew' : ∀ b ∈ as, val b ∉ bucket (add m (key a) (val a)) (key b) := by
      intro b hb
      rw [mem_bucket_add]
      rintro (hin | ⟨-, heq⟩)
      · exact hnew b (List.mem_cons_of_mem a hb) hin
      · exact hnd.1 (heq ▸ List.mem_map_of_mem hb)
    rw [List.foldl_cons, ih hnd.2 _ hnew', bucket_add,
      OrderedSet.add_of_not_mem (hnew a List.mem_cons_self)]
    by_cases hk : key a = k
    · subst hk; simp
    · simp [hk, Ne.symm hk]

theorem mem_bucket_foldl_remove (keys : List K) (v : V) (m : SetMap K V) (k : K) (x : V) :
    x ∈ bucket (keys.foldl (fun m k => remove m k v) m) k ↔
      x ∈ bucket m k ∧ ¬ (k ∈ keys ∧ x = v) := by
  induction keys generalizing m with
  | nil => simp
  | cons a keys ih =>
    rw [List.foldl_cons, ih, mem_bucket_remove, List.mem_cons]
    tauto

end SetMap
