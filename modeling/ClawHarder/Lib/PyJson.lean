import Mathlib.Data.List.Chain
import Mathlib.Data.List.TakeWhile
import ClawHarder.Lib.PyValue

/-!
# `json.dumps` and `json.loads`

`dumps` writes a value with `", "` and `": "` between its parts and every character outside
ASCII escaped; `loads` reads a text, with `none` for a `JSONDecodeError`. What a float's text
stands for is given by `floatRepr`, the `repr` of the float that a text denotes. The limits of
the interpreter, on the digits of an integer and on the depth of the recursion, are left out.

* `scanString_quote`: a string is read back in front of any text.
* `scanNumber_int`, `scanNumber_append`: so is a number, in front of what stops it.
-/

namespace PyJson

open PyText (lit codePoint)

def isHigh (n : ℕ) : Bool := 0xD800 ≤ n && n ≤ 0xDBFF

def isLow (n : ℕ) : Bool := 0xDC00 ≤ n && n ≤ 0xDFFF

def hexDigit (n : ℕ) : CodePoint := Fin.ofNat 0x110000 (if n < 10 then 48 + n else 87 + n)

/-- `\uXXXX` -/
def escapeHex (n : ℕ) : PyText :=
  [codePoint '\\', codePoint 'u', hexDigit (n / 4096 % 16), hexDigit (n / 256 % 16),
    hexDigit (n / 16 % 16), hexDigit (n % 16)]

def escapeChar (c : CodePoint) : PyText :=
  if c = codePoint '"' then lit "\\\""
  else if c = codePoint '\\' then lit "\\\\"
  else if c.val = 8 then lit "\\b"
  else if c.val = 9 then lit "\\t"
  else if c.val = 10 then lit "\\n"
  else if c.val = 12 then lit "\\f"
  else if c.val = 13 then lit "\\r"
  else if 32 ≤ c.val ∧ c.val ≤ 126 then [c]
  else if c.val < 0x10000 then escapeHex c.val
  else escapeHex (0xD800 + (c.val - 0x10000) / 1024) ++
    escapeHex (0xDC00 + (c.val - 0x10000) % 1024)

def quote (s : PyText) : PyText := codePoint '"' :: (s.flatMap escapeChar ++ [codePoint '"'])

def hexValue (c : CodePoint) : Option ℕ :=
  if 48 ≤ c.val ∧ c.val ≤ 57 then some (c.val - 48)
  else if 97 ≤ c.val ∧ c.val ≤ 102 then some (c.val - 87)
  else if 65 ≤ c.val ∧ c.val ≤ 70 then some (c.val - 55)
  else none

def hex4 (a b c d : CodePoint) : Option ℕ := do
  let a ← hexValue a
  let b ← hexValue b
  let c ← hexValue c
  let d ← hexValue d
  return ((a * 16 + b) * 16 + c) * 16 + d

def unescape (c : CodePoint) : Option CodePoint :=
  if c = codePoint '"' ∨ c = codePoint '\\' ∨ c = codePoint '/' then some c
  else if c = codePoint 'b' then some 8
  else if c = codePoint 'f' then some 12
  else if c = codePoint 'n' then some 10
  else if c = codePoint 'r' then some 13
  else if c = codePoint 't' then some 9
  else none

def joinSurrogates (high low : ℕ) : CodePoint :=
  Fin.ofNat 0x110000 (0x10000 + (high - 0xD800) * 1024 + (low - 0xDC00))

/-- What an escape adds after the pending high surrogate, and what is pending after it. -/
def pairEscape (high : Option ℕ) (n : ℕ) : PyText × Option ℕ :=
  match high with
  | some h =>
    if isLow n then ([joinSurrogates h n], none)
    else if isHigh n then ([Fin.ofNat 0x110000 h], some n)
    else ([Fin.ofNat 0x110000 h, Fin.ofNat 0x110000 n], none)
  | none => if isHigh n then ([], some n) else ([Fin.ofNat 0x110000 n], none)

def pending (high : Option ℕ) : PyText := (high.map (Fin.ofNat 0x110000)).toList

/-- `scanstring`, behind the first quote: the string and the text behind it. An escaped high
surrogate is pending until it is known what follows. -/
def scanString (high : Option ℕ) : PyText → Option (PyText × PyText)
  | [] => none
  | c :: s =>
    if c = codePoint '"' then some (pending high, s)
    else if c = codePoint '\\' then
      match s with
      | [] => none
      | e :: s =>
        if e = codePoint 'u' then
          match s with
          | i :: j :: k :: l :: s => do
            let n ← hex4 i j k l
            let r ← scanString (pairEscape high n).2 s
            return ((pairEscape high n).1 ++ r.1, r.2)
          | _ => none
        else do
          let u ← unescape e
          let r ← scanString none s
          return (pending high ++ u :: r.1, r.2)
    else if c.val < 32 then none
    else do
      let r ← scanString none s
      return (pending high ++ c :: r.1, r.2)

def Unsplit (s : PyText) : Prop := s.IsChain fun a b => ¬(isHigh a.val = true ∧ isLow b.val = true)

instance (s : PyText) : Decidable (Unsplit s) := inferInstanceAs (Decidable (List.IsChain _ s))

theorem hexValue_hexDigit {n : ℕ} (h : n < 16) : hexValue (hexDigit n) = some n := by
  have hall : ∀ n < 16, hexValue (hexDigit n) = some n := by decide
  exact hall n h

theorem scanString_escapeHex (high : Option ℕ) {n : ℕ} (h : n < 0x10000) (t : PyText) :
    scanString high (escapeHex n ++ t) =
      (scanString (pairEscape high n).2 t).map fun r => ((pairEscape high n).1 ++ r.1, r.2) := by
  have hvalue : hex4 (hexDigit (n / 4096 % 16)) (hexDigit (n / 256 % 16))
      (hexDigit (n / 16 % 16)) (hexDigit (n % 16)) = some n := by
    unfold hex4
    rw [hexValue_hexDigit (by omega), hexValue_hexDigit (by omega), hexValue_hexDigit (by omega),
      hexValue_hexDigit (by omega)]
    simp only [Option.bind_eq_bind, Option.bind_some, Option.pure_def, Option.some.injEq]
    omega
  unfold escapeHex
  simp only [List.cons_append, List.nil_append]
  rw [scanString.eq_def]
  simp only [if_neg (show codePoint '\\' ≠ codePoint '"' by decide), if_true, hvalue, Option.bind_eq_bind, Option.bind_some, Option.pure_def]
  cases scanString (pairEscape high n).2 t <;> rfl

variable {c : CodePoint}

theorem scanString_raw (high : Option ℕ) (hspace : 32 ≤ c.val)
    (hquote : c ≠ codePoint '"') (hback : c ≠ codePoint '\\') (t : PyText) :
    scanString high (c :: t) = (scanString none t).map fun r => (pending high ++ c :: r.1, r.2) := by
  rw [scanString.eq_def]
  simp only [if_neg hquote, if_neg hback, if_neg (show ¬c.val < 32 by omega)]
  cases scanString none t <;> rfl

theorem scanString_short (high : Option ℕ) {e : CodePoint} (he : e ≠ codePoint 'u')
    (hunescape : unescape e = some c) (t : PyText) :
    scanString high (codePoint '\\' :: e :: t) =
      (scanString none t).map fun r => (pending high ++ c :: r.1, r.2) := by
  rw [scanString.eq_def]
  simp only [if_neg (show codePoint '\\' ≠ codePoint '"' by decide), if_true, if_neg he, hunescape, Option.bind_eq_bind, Option.bind_some, Option.pure_def]
  cases scanString none t <;> rfl

def held (c : CodePoint) : Option ℕ := if isHigh c.val = true then some c.val else none

def emitted (c : CodePoint) : PyText := if isHigh c.val = true then [] else [c]

theorem emitted_pending (c : CodePoint) : emitted c ++ pending (held c) = [c] := by
  unfold emitted held
  split
  · have hsame : Fin.ofNat 0x110000 c.val = c := Fin.ext (Nat.mod_eq_of_lt c.isLt)
    simp [pending, hsame]
  · rfl

def Apart (high : Option ℕ) (c : CodePoint) : Prop :=
  ∀ h ∈ high, isHigh h = true ∧ isLow c.val = false

theorem pairEscape_of_apart {high : Option ℕ} (hapart : Apart high c) :
    pairEscape high c.val = (pending high ++ emitted c, held c) := by
  have hsame : Fin.ofNat 0x110000 c.val = c := Fin.ext (Nat.mod_eq_of_lt c.isLt)
  cases high with
  | none =>
    by_cases hc : isHigh c.val = true
    · simp [pairEscape, emitted, held, pending, hc]
    · simp [pairEscape, emitted, held, pending, hc, hsame]
  | some h =>
    obtain ⟨-, hlow⟩ := hapart h rfl
    by_cases hc : isHigh c.val = true
    · simp [pairEscape, emitted, held, pending, hlow, hc]
    · simp [pairEscape, emitted, held, pending, hlow, hc, hsame]

theorem pairEscape_pair {high : Option ℕ} (hhigh : ∀ h ∈ high, isHigh h = true)
    (hc : 0x10000 ≤ c.val) :
    pairEscape high (0xD800 + (c.val - 0x10000) / 1024) =
        (pending high, some (0xD800 + (c.val - 0x10000) / 1024)) ∧
      pairEscape (some (0xD800 + (c.val - 0x10000) / 1024))
        (0xDC00 + (c.val - 0x10000) % 1024) = ([c], none) := by
  have hbound := c.isLt
  have hfirst : isHigh (0xD800 + (c.val - 0x10000) / 1024) = true := by
    simp only [isHigh, Bool.and_eq_true, decide_eq_true_eq]
    omega
  have hnot : isLow (0xD800 + (c.val - 0x10000) / 1024) = false := by
    simp only [isLow, Bool.and_eq_false_iff, decide_eq_false_iff_not]
    omega
  have hsecond : isLow (0xDC00 + (c.val - 0x10000) % 1024) = true := by
    simp only [isLow, Bool.and_eq_true, decide_eq_true_eq]
    omega
  have hjoin : joinSurrogates (0xD800 + (c.val - 0x10000) / 1024)
      (0xDC00 + (c.val - 0x10000) % 1024) = c := by
    refine Fin.ext ?_
    unfold joinSurrogates
    simp only [Fin.val_ofNat]
    omega
  constructor
  · unfold pairEscape
    cases high with
    | none => simp only [hfirst, if_true]; rfl
    | some h => simp only [hnot, hfirst, Bool.false_eq_true, if_false, if_true]; rfl
  · unfold pairEscape
    simp only [hsecond, if_true, hjoin]

theorem scanString_escapeChar {high : Option ℕ} (hapart : Apart high c)
    (t : PyText) :
    scanString high (escapeChar c ++ t) =
      (scanString (held c) t).map fun r => (pending high ++ emitted c ++ r.1, r.2) := by
  have hplain : c.val < 0xD800 → held c = none ∧ emitted c = [c] := by
    intro hlt
    have hno : isHigh c.val = false := by
      simp only [isHigh, Bool.and_eq_false_iff, decide_eq_false_iff_not]
      omega
    simp only [held, emitted, hno, Bool.false_eq_true, if_false, and_self]
  have hshort : ∀ e : CodePoint, e ≠ codePoint 'u' → unescape e = some c → c.val < 0xD800 →
      scanString high (codePoint '\\' :: e :: t) =
        (scanString (held c) t).map fun r => (pending high ++ emitted c ++ r.1, r.2) := by
    intro e he hunescape hlt
    rw [scanString_short high he hunescape, (hplain hlt).1, (hplain hlt).2]
    simp only [List.append_assoc, List.cons_append, List.nil_append]
  have hcontrol : ∀ n : ℕ, c.val = n → (hn : n < 0x110000) → c = ⟨n, hn⟩ :=
    fun n heq hn => Fin.ext heq
  unfold escapeChar
  split
  next h => exact hshort _ (by decide) (by rw [h]; rfl) (by rw [h]; decide)
  split
  next h => exact hshort _ (by decide) (by rw [h]; rfl) (by rw [h]; decide)
  split
  next h => exact hshort (codePoint 'b') (by decide) (by rw [hcontrol 8 h]; rfl) (by omega)
  split
  next h => exact hshort (codePoint 't') (by decide) (by rw [hcontrol 9 h]; rfl) (by omega)
  split
  next h => exact hshort (codePoint 'n') (by decide) (by rw [hcontrol 10 h]; rfl) (by omega)
  split
  next h => exact hshort (codePoint 'f') (by decide) (by rw [hcontrol 12 h]; rfl) (by omega)
  split
  next h => exact hshort (codePoint 'r') (by decide) (by rw [hcontrol 13 h]; rfl) (by omega)
  split
  next hquote hback _ _ _ _ _ h =>
    rw [List.cons_append, List.nil_append, scanString_raw high h.1 hquote hback,
      (hplain (by omega)).1, (hplain (by omega)).2]
    simp only [List.append_assoc, List.cons_append, List.nil_append]
  split
  next h => rw [scanString_escapeHex high h, pairEscape_of_apart hapart]
  next h =>
    have hbound := c.isLt
    obtain ⟨hfirst, hsecond⟩ := pairEscape_pair (fun h hh => (hapart h hh).1) (not_lt.1 h)
    have hno : isHigh c.val = false := by
      simp only [isHigh, Bool.and_eq_false_iff, decide_eq_false_iff_not]
      omega
    rw [List.append_assoc, scanString_escapeHex high (by omega), hfirst,
      scanString_escapeHex _ (by omega), hsecond]
    simp only [held, emitted, hno, Bool.false_eq_true, if_false, Option.map_map,
      Function.comp_def, List.append_assoc]

theorem scanString_literal {s : PyText} (hsplit : Unsplit s) (high : Option ℕ)
    (hhigh : ∀ c ∈ s.head?, Apart high c) (rest : PyText) :
    scanString high (s.flatMap escapeChar ++ codePoint '"' :: rest) =
      some (pending high ++ s, rest) := by
  induction s generalizing high with
  | nil =>
    rw [List.flatMap_nil, List.nil_append, scanString.eq_def]
    simp
  | cons c s ih =>
    have hnext : ∀ d ∈ s.head?, Apart (held c) d := by
      intro d hd h hh
      unfold held at hh
      split at hh
      next hc =>
        obtain rfl : c.val = h := by simpa using hh
        cases s with
        | nil => cases hd
        | cons e s =>
          obtain rfl : e = d := by simpa using hd
          have hno := (List.isChain_cons_cons.1 hsplit).1
          exact ⟨hc, Bool.eq_false_iff.2 fun hlow => hno ⟨hc, hlow⟩⟩
      next => cases hh
    have hrest := ih (List.IsChain.tail hsplit) (held c) hnext
    rw [List.flatMap_cons, List.append_assoc, scanString_escapeChar (hhigh c rfl), hrest,
      Option.map_some, ← List.append_assoc, List.append_assoc (pending high), emitted_pending,
      List.append_assoc]
    rfl

/-- **A string is read back in front of any text.** -/
theorem scanString_quote {s : PyText} (hsplit : Unsplit s) (rest : PyText) :
    scanString none (s.flatMap escapeChar ++ codePoint '"' :: rest) = some (s, rest) := by
  have hnone : ∀ c ∈ s.head?, Apart none c := fun _ _ h hh => absurd hh (by simp)
  exact scanString_literal hsplit none hnone rest

def isDigit (c : CodePoint) : Bool := 48 ≤ c.val && c.val ≤ 57

def scanSign (signs s : PyText) : PyText × PyText :=
  match s with
  | [] => ([], [])
  | c :: t => if c ∈ signs then ([c], t) else ([], c :: t)

def scanInt : PyText → Option (PyText × PyText)
  | [] => none
  | c :: s =>
    if c = codePoint '0' then some ([c], s)
    else if isDigit c then some ((c :: s).takeWhile isDigit, (c :: s).dropWhile isDigit)
    else none

def scanFraction : PyText → PyText × PyText
  | [] => ([], [])
  | p :: s =>
    if p = codePoint '.' ∧ s.head?.any isDigit then (p :: s.takeWhile isDigit, s.dropWhile isDigit)
    else ([], p :: s)

def scanExponent : PyText → PyText × PyText
  | [] => ([], [])
  | e :: s =>
    let (sign, t) := scanSign (lit "+-") s
    if (e = codePoint 'e' ∨ e = codePoint 'E') ∧ t.head?.any isDigit then
      (e :: sign ++ t.takeWhile isDigit, t.dropWhile isDigit)
    else ([], e :: s)

def digitsValue (digits : PyText) : ℕ := digits.foldl (fun n c => 10 * n + (c.val - 48)) 0

/-- `int(sign + digits)` -/
def intValue (sign digits : PyText) : ℤ :=
  if sign = [] then digitsValue digits else -digitsValue digits

/-- `_match_number_unicode` -/
def scanNumber (floatRepr : PyText → PyText) (s : PyText) : Option (PyValue × PyText) := do
  let (sign, s) := scanSign (lit "-") s
  let (digits, s) ← scanInt s
  let (fraction, s) := scanFraction s
  let (exponent, s) := scanExponent s
  if fraction = [] ∧ exponent = [] then return (.int (intValue sign digits), s)
  else return (.float (floatRepr (sign ++ digits ++ fraction ++ exponent)), s)

def Stops (r : PyText) : Prop :=
  ∀ c ∈ r.head?, c = codePoint ',' ∨ c = codePoint ']' ∨ c = codePoint '\x7d'

section Stops

variable {r : PyText} (hstops : Stops r)
include hstops

theorem Stops.no_digit : r.head?.any isDigit = false := by
  cases r with
  | nil => rfl
  | cons c r => obtain rfl | rfl | rfl := hstops c rfl <;> rfl

theorem Stops.digits (t : PyText) :
    (t ++ r).takeWhile isDigit = t.takeWhile isDigit ∧
      (t ++ r).dropWhile isDigit = t.dropWhile isDigit ++ r := by
  have hhead := hstops.no_digit
  induction t with
  | nil =>
    cases r with
    | nil => simp
    | cons c r =>
      have hc : isDigit c = false := by simpa using hhead
      simp [hc]
  | cons c t ih =>
    by_cases hc : isDigit c = true
    · simp [hc, ih]
    · simp [hc]

theorem Stops.any_digit (t : PyText) : (t ++ r).head?.any isDigit = t.head?.any isDigit := by
  cases t with
  | nil => exact hstops.no_digit
  | cons c t => rfl

theorem scanSign_append {signs : PyText} (hsigns : signs <:+ lit "+-") (t : PyText) :
    scanSign signs (t ++ r) = ((scanSign signs t).1, (scanSign signs t).2 ++ r) := by
  cases t with
  | nil =>
    cases r with
    | nil => rfl
    | cons c r =>
      have hout : c ∉ lit "+-" := by obtain rfl | rfl | rfl := hstops c rfl <;> decide
      have hc : c ∉ signs := fun hmem => hout (hsigns.subset hmem)
      simp [scanSign, hc]
  | cons c t =>
    by_cases hc : c ∈ signs
    · simp [scanSign, hc]
    · simp [scanSign, hc]

theorem scanInt_append (t : PyText) :
    scanInt (t ++ r) = (scanInt t).map fun p => (p.1, p.2 ++ r) := by
  obtain ⟨htake, hdrop⟩ := hstops.digits t
  cases t with
  | nil =>
    cases r with
    | nil => rfl
    | cons c r =>
      have hdigit : isDigit c = false := by simpa using hstops.no_digit
      have hzero : c ≠ codePoint '0' := by
        rintro rfl
        exact absurd hdigit (by decide)
      simp [scanInt, hdigit, hzero]
  | cons c t =>
    simp only [List.cons_append] at htake hdrop ⊢
    simp only [scanInt, htake, hdrop]
    split
    · rfl
    split
    · rfl
    · rfl

theorem scanFraction_append (t : PyText) :
    scanFraction (t ++ r) = ((scanFraction t).1, (scanFraction t).2 ++ r) := by
  cases t with
  | nil =>
    cases r with
    | nil => rfl
    | cons c r =>
      have hdot : c ≠ codePoint '.' := by
        rintro rfl
        exact absurd (hstops _ rfl) (by decide)
      simp [scanFraction, hdot]
  | cons c t =>
    obtain ⟨htake, hdrop⟩ := hstops.digits t
    simp only [List.cons_append, scanFraction, hstops.any_digit t, htake, hdrop]
    split <;> rfl

theorem scanExponent_append (t : PyText) :
    scanExponent (t ++ r) = ((scanExponent t).1, (scanExponent t).2 ++ r) := by
  cases t with
  | nil =>
    cases r with
    | nil => rfl
    | cons c r =>
      have hlower : c ≠ codePoint 'e' := by
        rintro rfl
        exact absurd (hstops _ rfl) (by decide)
      have hupper : c ≠ codePoint 'E' := by
        rintro rfl
        exact absurd (hstops _ rfl) (by decide)
      simp [scanExponent, hlower, hupper]
  | cons c t =>
    obtain ⟨htake, hdrop⟩ := hstops.digits (scanSign (lit "+-") t).2
    simp only [List.cons_append, scanExponent, scanSign_append hstops (List.suffix_refl (lit "+-")),
      hstops.any_digit, htake, hdrop]
    split <;> rfl

theorem scanNumber_append (floatRepr : PyText → PyText) (t : PyText) :
    scanNumber floatRepr (t ++ r) = (scanNumber floatRepr t).map fun p => (p.1, p.2 ++ r) := by
  unfold scanNumber
  simp only [scanSign_append hstops (show lit "-" <:+ lit "+-" by decide), scanInt_append hstops]
  cases scanInt (scanSign (lit "-") t).2 with
  | none => rfl
  | some p =>
    simp only [Option.map_some, Option.bind_eq_bind, Option.bind_some, scanFraction_append hstops,
      scanExponent_append hstops]
    split <;> rfl

end Stops

/-- The text of a float; `repr` writes those that are not finite in small letters. -/
def floatText (repr : PyText) : PyText :=
  if repr = lit "nan" then lit "NaN"
  else if repr = lit "inf" then lit "Infinity"
  else if repr = lit "-inf" then lit "-Infinity"
  else repr

mutual

def dumps : PyValue → PyText
  | .none => lit "null"
  | .bool true => lit "true"
  | .bool false => lit "false"
  | .int n => lit (toString n)
  | .float repr => floatText repr
  | .str s => quote s
  | .list items => codePoint '[' :: ((dumpsItems items).drop 2 ++ [codePoint ']'])
  | .dict members => codePoint '\x7b' :: ((dumpsMembers members).drop 2 ++ [codePoint '\x7d'])

def dumpsItems : List PyValue → PyText
  | [] => []
  | v :: vs => lit ", " ++ dumps v ++ dumpsItems vs

def dumpsMembers : List (PyText × PyValue) → PyText
  | [] => []
  | (k, v) :: ms => lit ", " ++ quote k ++ lit ": " ++ dumps v ++ dumpsMembers ms

end

mutual

/-- The value with the members of every dictionary in the order of their keys. -/
def sortKeys : PyValue → PyValue
  | .list items => .list (sortItems items)
  | .dict members => .dict ((sortMembers members).mergeSort fun m n => decide (m.1 ≤ n.1))
  | v => v

def sortItems : List PyValue → List PyValue
  | [] => []
  | v :: vs => sortKeys v :: sortItems vs

def sortMembers : List (PyText × PyValue) → List (PyText × PyValue)
  | [] => []
  | (k, v) :: ms => (k, sortKeys v) :: sortMembers ms

end

def isSpace (c : CodePoint) : Bool := c.val = 32 || c.val = 9 || c.val = 10 || c.val = 13

def skipSpace (s : PyText) : PyText := s.dropWhile isSpace

def constants : List (PyText × PyValue) := [
  (lit "null", .none), (lit "true", .bool true), (lit "false", .bool false),
  (lit "NaN", .float (lit "nan")), (lit "Infinity", .float (lit "inf")),
  (lit "-Infinity", .float (lit "-inf"))]

def scanNext (close : CodePoint) (s : PyText) : Option (Bool × PyText) :=
  match skipSpace s with
  | [] => none
  | c :: t =>
    if c = close then some (false, t)
    else if c = codePoint ',' then some (true, skipSpace t)
    else none

def scanKey : PyText → Option (PyText × PyText)
  | [] => none
  | q :: s =>
    if q = codePoint '"' then do
      let k ← scanString none s
      match skipSpace k.2 with
      | [] => none
      | c :: t => if c = codePoint ':' then some (k.1, skipSpace t) else none
    else none

def dictOf (members : PyDict) : PyDict := members.foldl (fun d m => PyValue.set m.1 m.2 d) []

variable (floatRepr : PyText → PyText)

def scanAtom (s : PyText) : Option (PyValue × PyText) :=
  match constants.find? fun k => k.1.isPrefixOf s with
  | some k => some (k.2, s.drop k.1.length)
  | none => scanNumber floatRepr s

mutual

/-- `scan_once`: a value and the text behind it. -/
def scanOnce : ℕ → PyText → Option (PyValue × PyText)
  | 0, _ => none
  | _ + 1, [] => none
  | fuel + 1, c :: s =>
    if c = codePoint '"' then (scanString none s).map fun r => (.str r.1, r.2)
    else if c = codePoint '\x7b' then
      if (skipSpace s).head? = some (codePoint '\x7d') then some (.dict [], (skipSpace s).tail)
      else (scanMembers fuel (skipSpace s)).map fun r => (.dict (dictOf r.1), r.2)
    else if c = codePoint '[' then
      if (skipSpace s).head? = some (codePoint ']') then some (.list [], (skipSpace s).tail)
      else (scanItems fuel (skipSpace s)).map fun r => (.list r.1, r.2)
    else scanAtom floatRepr (c :: s)

def scanItems : ℕ → PyText → Option (List PyValue × PyText)
  | 0, _ => none
  | fuel + 1, s => do
    let v ← scanOnce fuel s
    let next ← scanNext (codePoint ']') v.2
    if next.1 then
      let r ← scanItems fuel next.2
      return (v.1 :: r.1, r.2)
    else return ([v.1], next.2)

def scanMembers : ℕ → PyText → Option (List (PyText × PyValue) × PyText)
  | 0, _ => none
  | fuel + 1, s => do
    let k ← scanKey s
    let v ← scanOnce fuel k.2
    let next ← scanNext (codePoint '\x7d') v.2
    if next.1 then
      let r ← scanMembers fuel next.2
      return ((k.1, v.1) :: r.1, r.2)
    else return ([(k.1, v.1)], next.2)

end

def loads (s : PyText) : Option PyValue :=
  if s.head? = some 0xFEFF then none
  else match scanOnce floatRepr (2 * s.length) (skipSpace s) with
    | some (v, r) => if (skipSpace r).isEmpty then some v else none
    | none => none

/-- The values that a program can hold: no key twice, no character as two surrogates, and
floats given by their `repr`. -/
inductive Encodable : PyValue → Prop
  | none : Encodable .none
  | bool (b : Bool) : Encodable (.bool b)
  | int (n : ℤ) : Encodable (.int n)
  | finite {repr : PyText} : scanNumber floatRepr repr = some (.float repr, []) →
    Encodable (.float repr)
  | special {repr : PyText} : repr ∈ [lit "nan", lit "inf", lit "-inf"] → Encodable (.float repr)
  | str {s : PyText} : Unsplit s → Encodable (.str s)
  | list {items : List PyValue} : (∀ v ∈ items, Encodable v) → Encodable (.list items)
  | dict {members : List (PyText × PyValue)} : (members.map Prod.fst).Nodup →
    (∀ m ∈ members, Unsplit m.1) → (∀ m ∈ members, Encodable m.2) → Encodable (.dict members)

variable {floatRepr}

theorem beq_of_digit {d : CodePoint} (hc : isDigit c = false) (hd : isDigit d = true) :
    (c == d) = false := by
  refine beq_eq_false_iff_ne.2 ?_
  rintro rfl
  rw [hc] at hd
  cases hd

theorem number_head {t : PyText} (h : (scanNumber floatRepr t).isSome) :
    ∃ d u, isDigit d = true ∧ (t = d :: u ∨ t = codePoint '-' :: d :: u) := by
  have hint : (scanInt (scanSign (lit "-") t).2).isSome := by
    unfold scanNumber at h
    simp only [Option.bind_eq_bind] at h
    cases hscan : scanInt (scanSign (lit "-") t).2 with
    | none => simp [hscan] at h
    | some p => rfl
  have hdigit : ∀ u : PyText, (scanInt u).isSome → ∃ d w, isDigit d = true ∧ u = d :: w := by
    intro u hu
    cases u with
    | nil => cases hu
    | cons d w =>
      refine ⟨d, w, ?_, rfl⟩
      by_contra hd
      have hzero : d ≠ codePoint '0' := by
        rintro rfl
        exact hd rfl
      simp [scanInt, hd, hzero] at hu
  obtain ⟨d, w, hd, hw⟩ := hdigit _ hint
  refine ⟨d, w, hd, ?_⟩
  cases t with
  | nil => cases hint
  | cons c t =>
    by_cases hc : c = codePoint '-'
    · have hsign : (scanSign (lit "-") (c :: t)).2 = t := by rw [hc]; rfl
      exact .inr (by rw [hc, ← hw, hsign])
    · have hmem : c ∉ lit "-" := fun h => hc (List.mem_singleton.1 h)
      have hsign : (scanSign (lit "-") (c :: t)).2 = c :: t := by simp [scanSign, hmem]
      exact .inl (hsign ▸ hw)

theorem scanAtom_number {t : PyText} (h : (scanNumber floatRepr t).isSome) :
    scanAtom floatRepr t = scanNumber floatRepr t := by
  have hnone : ∀ k ∈ constants, ¬k.1.isPrefixOf t = true := by
    obtain ⟨d, u, hd, rfl | rfl⟩ := number_head h
    · have hfirst : ∀ k ∈ constants, k.1.head?.any fun c => !isDigit c := by decide
      intro k hk hpre
      have hhead := hfirst k hk
      cases hkey : k.1 with
      | nil => simp [hkey] at hhead
      | cons c w =>
        rw [hkey] at hpre hhead
        simp only [List.isPrefixOf_cons_cons, Bool.and_eq_true, beq_iff_eq] at hpre
        rw [hpre.1] at hhead
        simp [hd] at hhead
    · have hI := beq_of_digit (c := codePoint 'I') rfl hd
      intro k hk
      simp only [constants, List.mem_cons, List.not_mem_nil, or_false] at hk
      obtain rfl | rfl | rfl | rfl | rfl | rfl := hk
      · exact Bool.false_ne_true
      · exact Bool.false_ne_true
      · exact Bool.false_ne_true
      · exact Bool.false_ne_true
      · exact Bool.false_ne_true
      · simp [lit, List.isPrefixOf, hI]
  have hfind : (constants.find? fun k => k.1.isPrefixOf t) = none := List.find?_eq_none.2 hnone
  unfold scanAtom
  rw [hfind]

theorem scanOnce_atom (hquote : c ≠ codePoint '"') (hbrace : c ≠ codePoint '\x7b')
    (hbracket : c ≠ codePoint '[') (fuel : ℕ) (s : PyText) :
    scanOnce floatRepr (fuel + 1) (c :: s) = scanAtom floatRepr (c :: s) := by
  rw [scanOnce, if_neg hquote, if_neg hbrace, if_neg hbracket]

theorem scanOnce_number {t : PyText} {v : PyValue} {u : PyText}
    (h : scanNumber floatRepr t = some (v, u)) (fuel : ℕ) :
    scanOnce floatRepr (fuel + 1) t = some (v, u) := by
  have hsome : (scanNumber floatRepr t).isSome := by rw [h]; rfl
  have hatom := scanAtom_number hsome
  obtain ⟨d, w, hd, rfl | rfl⟩ := number_head hsome
  · have hquote : d ≠ codePoint '"' := by
      rintro rfl
      cases hd
    have hbrace : d ≠ codePoint '\x7b' := by
      rintro rfl
      cases hd
    have hbracket : d ≠ codePoint '[' := by
      rintro rfl
      cases hd
    rw [scanOnce_atom hquote hbrace hbracket, hatom, h]
  · rw [scanOnce_atom (by decide) (by decide) (by decide), hatom, h]

theorem scanOnce_constant {k : PyText × PyValue} (hk : k ∈ constants) (fuel : ℕ) (r : PyText) :
    scanOnce floatRepr (fuel + 1) (k.1 ++ r) = some (k.2, r) := by
  simp only [constants, List.mem_cons, List.not_mem_nil, or_false] at hk
  obtain rfl | rfl | rfl | rfl | rfl | rfl := hk <;> rfl

theorem head_toDigits {n : ℕ} (hn : 0 < n) : (Nat.toDigits 10 n).head? ≠ some '0' := by
  induction n using Nat.strongRecOn with
  | _ n ih =>
    rw [Nat.toDigits_eq_if (by decide)]
    split
    next hlt =>
      have hall : ∀ d < 10, 0 < d → [Nat.digitChar d].head? ≠ some '0' := by decide
      exact hall n hlt hn
    next hge =>
      have hhead := ih (n / 10) (by omega) (by omega)
      rw [List.head?_append]
      cases hdigits : Nat.toDigits 10 (n / 10) with
      | nil => exact absurd hdigits Nat.toDigits_ne_nil
      | cons c cs => rwa [hdigits] at hhead

theorem digitsValue_toDigits (n : ℕ) :
    digitsValue ((Nat.toDigits 10 n).map codePoint) = n := by
  have hread : Nat.ofDigitChars 10 (Nat.toDigits 10 n) 0 = n := Nat.ofDigitChars_ten_toDigits
  rw [Nat.ofDigitChars_eq_foldl] at hread
  unfold digitsValue
  rw [List.foldl_map]
  exact hread

theorem isDigit_of_mem_toDigits {n : ℕ}
    (hc : c ∈ (Nat.toDigits 10 n).map codePoint) : isDigit c = true := by
  obtain ⟨d, hd, rfl⟩ := List.mem_map.1 hc
  have hdigit := Nat.isDigit_of_mem_toDigits (by decide) (by decide) hd
  have hbounds : 48 ≤ d.toNat ∧ d.toNat ≤ 57 := Char.isDigit_iff_toNat.1 hdigit
  unfold isDigit
  exact Bool.and_eq_true_iff.2 ⟨decide_eq_true hbounds.1, decide_eq_true hbounds.2⟩

theorem scanInt_toDigits (n : ℕ) :
    scanInt ((Nat.toDigits 10 n).map codePoint) = some ((Nat.toDigits 10 n).map codePoint, []) := by
  have hdigits : ∀ c ∈ (Nat.toDigits 10 n).map codePoint, isDigit c = true :=
    fun c hc => isDigit_of_mem_toDigits hc
  obtain rfl | hpos := Nat.eq_zero_or_pos n
  · rfl
  have hhead := head_toDigits hpos
  cases hdec : Nat.toDigits 10 n with
  | nil => exact absurd hdec Nat.toDigits_ne_nil
  | cons d ds =>
    rw [hdec] at hdigits hhead
    rw [List.map_cons] at hdigits ⊢
    have hzero : codePoint d ≠ codePoint '0' := by
      intro heq
      have hval : d.toNat = '0'.toNat := congrArg (fun c : CodePoint => c.val) heq
      exact hhead (congrArg some (Char.toNat_inj.1 hval))
    have htake : (codePoint d :: ds.map codePoint).takeWhile isDigit =
        codePoint d :: ds.map codePoint := List.takeWhile_eq_self_iff.2 hdigits
    have hdrop : (codePoint d :: ds.map codePoint).dropWhile isDigit = [] :=
      List.dropWhile_eq_nil_iff.2 hdigits
    rw [scanInt, if_neg hzero, if_pos (hdigits _ (List.mem_cons_self ..)), htake, hdrop]

theorem scanNumber_int (n : ℤ) : scanNumber floatRepr (lit (toString n)) = some (.int n, []) := by
  cases n with
  | ofNat m =>
    have htext : lit (toString (Int.ofNat m)) = (Nat.toDigits 10 m).map codePoint :=
      congrArg (List.map codePoint) Nat.toList_repr
    have hsign : scanSign (lit "-") ((Nat.toDigits 10 m).map codePoint) =
        ([], (Nat.toDigits 10 m).map codePoint) := by
      cases hdec : (Nat.toDigits 10 m).map codePoint with
      | nil => rfl
      | cons c cs =>
        have hdigit : isDigit c = true :=
          isDigit_of_mem_toDigits (hdec ▸ List.mem_cons_self .. : c ∈ (Nat.toDigits 10 m).map codePoint)
        have hc : c ∉ lit "-" := by
          intro hmem
          rw [List.mem_singleton.1 hmem] at hdigit
          cases hdigit
        simp [scanSign, hc]
    rw [htext]
    unfold scanNumber
    simp only [hsign, scanInt_toDigits, Option.bind_eq_bind, Option.bind_some]
    simp [scanFraction, scanExponent, intValue, digitsValue_toDigits]
  | negSucc m =>
    have htext : lit (toString (Int.negSucc m)) =
        codePoint '-' :: (Nat.toDigits 10 (m + 1)).map codePoint := by
      have hlist : (toString (Int.negSucc m)).toList = '-' :: Nat.toDigits 10 (m + 1) := by
        have htoString : toString (Int.negSucc m) = "-" ++ (m + 1).repr := rfl
        rw [htoString, String.toList_append, Nat.toList_repr]
        rfl
      exact congrArg (List.map codePoint) hlist
    have hsign : scanSign (lit "-") (codePoint '-' :: (Nat.toDigits 10 (m + 1)).map codePoint) =
        ([codePoint '-'], (Nat.toDigits 10 (m + 1)).map codePoint) := rfl
    rw [htext]
    unfold scanNumber
    simp only [hsign, scanInt_toDigits, Option.bind_eq_bind, Option.bind_some]
    simp [scanFraction, scanExponent, intValue, digitsValue_toDigits]
    omega

end PyJson
