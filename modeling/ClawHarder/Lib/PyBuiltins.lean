import ClawHarder.Lib.PyValue

/-!
# Python's conversions of JSON values

What `int`, `str`, `list`, `dict` and the subscripts do with a value that
`json.loads` returns, and the exceptions they raise. Arithmetic of floats, the `repr`
of containers and a dictionary from pairs are left to `PyBuiltins`. A tuple is a list.

* `get?_of_mem`: reading a dictionary whose keys are distinct.
-/

inductive PyRaised where
  | typeError
  | valueError
  | attributeError
  | keyError
  | overflowError
deriving DecidableEq

abbrev Py (α : Type) := Except PyRaised α

structure PyBuiltins where
  /-- `float(v)`, by its `repr` -/
  float : PyValue → Py PyText
  intOfFloat : PyText → Py ℤ
  intOfText : PyText → Py ℤ
  /-- `str(v)` of a list or a dictionary -/
  reprOf : PyValue → PyText
  /-- `dict(items)` of a list -/
  dictOfPairs : List PyValue → Py PyDict
  /-- `a == b` of two keys -/
  sameKey : PyValue → PyValue → Bool
  /-- `round(v, 3)` of a number -/
  round3 : PyValue → PyValue
  /-- `1.0 - v` of a number -/
  oneMinus : PyValue → PyValue
  /-- `time()` -/
  now : PyText

namespace Py

open PyText (lit)

variable {α : Type} (b : PyBuiltins)

/-- `int(v)` -/
def int : PyValue → Py ℤ
  | .bool v => .ok (if v then 1 else 0)
  | .int n => .ok n
  | .float r => b.intOfFloat r
  | .str s => b.intOfText s
  | _ => .error .typeError

/-- `str(v)` -/
def str (v : PyValue) : PyText := PyValue.text b.reprOf v

/-- `bool(v)` -/
def truth (v : PyValue) : Bool := !PyValue.falsy v

/-- The items that a loop over a value meets; also `list(v)` and `tuple(v)`. -/
def items : PyValue → Py (List PyValue)
  | .list vs => .ok vs
  | .dict members => .ok (members.map fun m => .str m.1)
  | .str s => .ok (s.map fun c => .str [c])
  | _ => .error .typeError

/-- `dict(v)` -/
def dict : PyValue → Py PyDict
  | .dict members => .ok members
  | .list vs => b.dictOfPairs vs
  | .str [] => .ok []
  | .str (_ :: _) => .error .valueError
  | _ => .error .typeError

/-- `v.get(key, default)` -/
def get (v : PyValue) (key : String) (default : PyValue) : Py PyValue :=
  match v with
  | .dict members => .ok ((PyValue.get? (lit key) members).getD default)
  | _ => .error .attributeError

/-- `v[key]` -/
def item (v : PyValue) (key : String) : Py PyValue :=
  match v with
  | .dict members =>
    match PyValue.get? (lit key) members with
    | some w => .ok w
    | none => .error .keyError
  | _ => .error .typeError

/-- `v.items()` -/
def members : PyValue → Py PyDict
  | .dict ms => .ok ms
  | _ => .error .attributeError

/-- `v if isinstance(v, dict) else {}` -/
def orEmpty : PyValue → PyValue
  | .dict ms => .dict ms
  | _ => .dict []

/-- `isinstance(v, dict)` -/
def isDict : PyValue → Bool
  | .dict _ => true
  | _ => false

/-- A member that may be `None`: `convert(v) if v is not None else None`. -/
def optional (convert : PyValue → Py α) : PyValue → Py (Option α)
  | .none => .ok none
  | v => do return some (← convert v)

def hashable : PyValue → Bool
  | .list _ | .dict _ => false
  | _ => true

end Py

namespace PyValue

theorem get?_of_mem {d : PyDict} {k : PyText} {v : PyValue} (hkeys : (d.map Prod.fst).Nodup)
    (h : (k, v) ∈ d) : get? k d = some v := by
  induction d with
  | nil => cases h
  | cons m rest ih =>
    rw [List.map_cons, List.nodup_cons] at hkeys
    rw [get?_cons]
    rcases List.mem_cons.1 h with rfl | hrest
    · have hnone : get? k rest = Option.none := by
        cases hg : get? k rest with
        | none => rfl
        | some w => exact absurd (mem_keys_of_get? hg) hkeys.1
      rw [hnone, if_pos rfl]
      rfl
    · rw [ih hkeys.2 hrest]
      rfl

end PyValue
