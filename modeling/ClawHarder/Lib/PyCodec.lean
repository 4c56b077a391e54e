import ClawHarder.Lib.PyText

/-!
# Text files in Python

What `Path.read_text` and `Path.write_text` do with the bytes of a file: strict
UTF-8, which has no surrogates, and universal newlines on reading.
`splitKeepends` is `str.splitlines(keepends=True)`.

* `encodeUtf8_decodeUtf8`: **encoding a decoded text gives its bytes back.**
* `decodeUtf8_encodeUtf8`: **decoding an encoded text gives it back.**
-/

abbrev Bytes := List UInt8

namespace PyText

def continuation (n : ℕ) : UInt8 := UInt8.ofNat (0x80 + n % 64)

def encodePoint (c : CodePoint) : Option Bytes :=
  let n := c.val
  if n < 0x80 then some [UInt8.ofNat n]
  else if n < 0x800 then some [UInt8.ofNat (0xC0 + n / 64), continuation n]
  else if 0xD800 ≤ n ∧ n < 0xE000 then none
  else if n < 0x10000 then
    some [UInt8.ofNat (0xE0 + n / 4096), continuation (n / 64), continuation n]
  else
    some [UInt8.ofNat (0xF0 + n / 262144), continuation (n / 4096), continuation (n / 64),
      continuation n]

/-- `t.encode("utf-8")`; none is `UnicodeEncodeError`. -/
def encodeUtf8 : PyText → Option Bytes
  | [] => some []
  | c :: rest =>
    match encodePoint c, encodeUtf8 rest with
    | some bytes, some more => some (bytes ++ more)
    | _, _ => none

def continued (b : UInt8) : Option ℕ :=
  if 0x80 ≤ b.toNat ∧ b.toNat < 0xC0 then some (b.toNat - 0x80) else none

def decodeTwo (a b : UInt8) : Option CodePoint := do
  let low ← continued b
  if 0xC2 ≤ a.toNat ∧ a.toNat < 0xE0 then
    some (Fin.ofNat _ ((a.toNat - 0xC0) * 64 + low))
  else none

/-- The code point of a three-byte sequence, not overlong and not a surrogate. -/
def decodeThree (a b c : UInt8) : Option CodePoint := do
  let mid ← continued b
  let low ← continued c
  let n := (a.toNat - 0xE0) * 4096 + mid * 64 + low
  if 0xE0 ≤ a.toNat ∧ a.toNat < 0xF0 ∧ 0x800 ≤ n ∧ ¬ (0xD800 ≤ n ∧ n < 0xE000) then
    some (Fin.ofNat _ n)
  else none

/-- The code point of a four-byte sequence, not overlong and in range. -/
def decodeFour (a b c d : UInt8) : Option CodePoint := do
  let high ← continued b
  let mid ← continued c
  let low ← continued d
  let n := (a.toNat - 0xF0) * 262144 + high * 4096 + mid * 64 + low
  if 0xF0 ≤ a.toNat ∧ a.toNat < 0xF5 ∧ 0x10000 ≤ n ∧ n < 0x110000 then some (Fin.ofNat _ n)
  else none

/-- `bytes.decode("utf-8")`; none is `UnicodeDecodeError`. -/
def decodeUtf8 : Bytes → Option PyText
  | [] => some []
  | a :: rest =>
    if a.toNat < 0x80 then (decodeUtf8 rest).map (Fin.ofNat _ a.toNat :: ·)
    else
      match rest with
      | [] => none
      | b :: rest =>
        match decodeTwo a b with
        | some point => (decodeUtf8 rest).map (point :: ·)
        | none =>
          match rest with
          | [] => none
          | c :: rest =>
            match decodeThree a b c with
            | some point => (decodeUtf8 rest).map (point :: ·)
            | none =>
              match rest with
              | [] => none
              | d :: rest =>
                match decodeFour a b c d with
                | some point => (decodeUtf8 rest).map (point :: ·)
                | none => none

variable {n : ℕ}

theorem continued_eq {b : UInt8} (h : continued b = some n) :
    b.toNat = 0x80 + n ∧ n < 64 := by
  unfold continued at h
  split at h
  · have := Option.some.inj h
    omega
  · cases h

theorem ofNat_eq_byte {b : UInt8} (h : n = b.toNat) : UInt8.ofNat n = b := by
  rw [h]
  exact UInt8.ofNat_toNat

theorem continuation_eq {b : UInt8} {m : ℕ} (hb : b.toNat = 0x80 + n) (hn : m % 64 = n) :
    continuation m = b := by
  unfold continuation
  exact ofNat_eq_byte (by omega)

theorem ofNat_val (h : n < 0x110000) : (Fin.ofNat 0x110000 n).val = n :=
  Nat.mod_eq_of_lt h

variable {c : CodePoint}

theorem encode_decodeTwo {a b : UInt8} (h : decodeTwo a b = some c) :
    encodePoint c = some [a, b] := by
  unfold decodeTwo at h
  rw [Option.bind_eq_bind, Option.bind_eq_some_iff] at h
  obtain ⟨low, hlow, h⟩ := h
  obtain ⟨hb, hlt⟩ := continued_eq hlow
  split at h
  · rename_i ha
    cases h
    unfold encodePoint
    rw [ofNat_val (by omega), if_neg (by omega), if_pos (by omega)]
    rw [ofNat_eq_byte (b := a) (by omega), continuation_eq hb (by omega)]
  · cases h

theorem encode_decodeThree {a b c : UInt8} {p : CodePoint} (h : decodeThree a b c = some p) :
    encodePoint p = some [a, b, c] := by
  unfold decodeThree at h
  rw [Option.bind_eq_bind, Option.bind_eq_some_iff] at h
  obtain ⟨mid, hmid, h⟩ := h
  rw [Option.bind_eq_some_iff] at h
  obtain ⟨low, hlow, h⟩ := h
  obtain ⟨hb, hmid'⟩ := continued_eq hmid
  obtain ⟨hc, hlow'⟩ := continued_eq hlow
  simp only at h
  split at h
  · rename_i ha
    cases h
    unfold encodePoint
    rw [ofNat_val (by omega), if_neg (by omega), if_neg (by omega), if_neg (by omega),
      if_pos (by omega)]
    rw [ofNat_eq_byte (b := a) (by omega), continuation_eq hb (by omega),
      continuation_eq hc (by omega)]
  · cases h

theorem encode_decodeFour {a b c d : UInt8} {p : CodePoint} (h : decodeFour a b c d = some p) :
    encodePoint p = some [a, b, c, d] := by
  unfold decodeFour at h
  rw [Option.bind_eq_bind, Option.bind_eq_some_iff] at h
  obtain ⟨high, hhigh, h⟩ := h
  rw [Option.bind_eq_some_iff] at h
  obtain ⟨mid, hmid, h⟩ := h
  rw [Option.bind_eq_some_iff] at h
  obtain ⟨low, hlow, h⟩ := h
  obtain ⟨hb, hhigh'⟩ := continued_eq hhigh
  obtain ⟨hc, hmid'⟩ := continued_eq hmid
  obtain ⟨hd, hlow'⟩ := continued_eq hlow
  simp only at h
  split at h
  · rename_i ha
    cases h
    unfold encodePoint
    rw [ofNat_val (by omega), if_neg (by omega), if_neg (by omega), if_neg (by omega),
      if_neg (by omega)]
    rw [ofNat_eq_byte (b := a) (by omega), continuation_eq hb (by omega),
      continuation_eq hc (by omega), continuation_eq hd (by omega)]
  · cases h

theorem encode_ascii {a : UInt8} (h : a.toNat < 0x80) :
    encodePoint (Fin.ofNat _ a.toNat) = some [a] := by
  unfold encodePoint
  rw [ofNat_val (by omega), if_pos h, ofNat_eq_byte rfl]

theorem encodeUtf8_cons {t : PyText} {bytes more : Bytes}
    (hc : encodePoint c = some bytes) (ht : encodeUtf8 t = some more) :
    encodeUtf8 (c :: t) = some (bytes ++ more) := by
  rw [encodeUtf8, hc, ht]

/-- **Encoding a decoded text gives its bytes back.** -/
theorem encodeUtf8_decodeUtf8 {bytes : Bytes} {t : PyText} (h : decodeUtf8 bytes = some t) :
    encodeUtf8 t = some bytes := by
  fun_induction decodeUtf8 bytes generalizing t with
  | case1 =>
    cases h
    rfl
  | case2 a rest ha ih =>
    obtain ⟨u, hu, rfl⟩ := Option.map_eq_some_iff.1 h
    exact encodeUtf8_cons (encode_ascii ha) (ih hu)
  | case3 a _ => cases h
  | case4 a _ b rest point hp ih =>
    obtain ⟨u, hu, rfl⟩ := Option.map_eq_some_iff.1 h
    exact encodeUtf8_cons (encode_decodeTwo hp) (ih hu)
  | case5 => cases h
  | case6 a _ b _ c rest point hp ih =>
    obtain ⟨u, hu, rfl⟩ := Option.map_eq_some_iff.1 h
    exact encodeUtf8_cons (encode_decodeThree hp) (ih hu)
  | case7 => cases h
  | case8 a _ b _ c _ d rest point hp ih =>
    obtain ⟨u, hu, rfl⟩ := Option.map_eq_some_iff.1 h
    exact encodeUtf8_cons (encode_decodeFour hp) (ih hu)
  | case9 => cases h

theorem toNat_byte (h : n < 256) : (UInt8.ofNat n).toNat = n := by
  rw [UInt8.toNat_ofNat']
  exact Nat.mod_eq_of_lt h

theorem continued_continuation (n : ℕ) : continued (continuation n) = some (n % 64) := by
  have hlt : n % 64 < 64 := Nat.mod_lt n (by decide)
  have hbyte : (continuation n).toNat = 0x80 + n % 64 := toNat_byte (by omega)
  unfold continued
  rw [hbyte, if_pos (by omega), Nat.add_sub_cancel_left]

theorem ofNat_val_eq (h : n = c.val) : Fin.ofNat 0x110000 n = c := by
  rw [h]
  exact Fin.ofNat_val_eq_self c

theorem decodeTwo_none {a b : UInt8} (h : 0xE0 ≤ a.toNat) : decodeTwo a b = none := by
  unfold decodeTwo
  cases continued b with
  | none => rfl
  | some low => exact if_neg (by omega)

theorem decodeThree_none {a b c : UInt8} (h : 0xF0 ≤ a.toNat) : decodeThree a b c = none := by
  unfold decodeThree
  cases continued b with
  | none => rfl
  | some mid =>
    cases continued c with
    | none => rfl
    | some low => exact if_neg (by omega)

section Steps

variable {a b c d : UInt8} {rest : Bytes} {point : CodePoint}

theorem decodeUtf8_one (ha : a.toNat < 0x80) :
    decodeUtf8 (a :: rest) = (decodeUtf8 rest).map (Fin.ofNat _ a.toNat :: ·) := by
  rw [decodeUtf8.eq_def]
  exact if_pos ha

theorem decodeUtf8_two (ha : ¬ a.toNat < 0x80) (h : decodeTwo a b = some point) :
    decodeUtf8 (a :: b :: rest) = (decodeUtf8 rest).map (point :: ·) := by
  rw [decodeUtf8.eq_def]
  simp only [if_neg ha, h]

theorem decodeUtf8_three (ha : ¬ a.toNat < 0x80) (hb : decodeTwo a b = none)
    (h : decodeThree a b c = some point) :
    decodeUtf8 (a :: b :: c :: rest) = (decodeUtf8 rest).map (point :: ·) := by
  rw [decodeUtf8.eq_def]
  simp only [if_neg ha, hb, h]

theorem decodeUtf8_four (ha : ¬ a.toNat < 0x80) (hb : decodeTwo a b = none)
    (hc : decodeThree a b c = none) (h : decodeFour a b c d = some point) :
    decodeUtf8 (a :: b :: c :: d :: rest) = (decodeUtf8 rest).map (point :: ·) := by
  rw [decodeUtf8.eq_def]
  simp only [if_neg ha, hb, hc, h]

end Steps

theorem decode_encodePoint {bytes : Bytes} (h : encodePoint c = some bytes)
    (more : Bytes) : decodeUtf8 (bytes ++ more) = (decodeUtf8 more).map (c :: ·) := by
  have hc := c.isLt
  unfold encodePoint at h
  simp only at h
  split at h
  · rename_i hn
    cases h
    have ha : (UInt8.ofNat c.val).toNat = c.val := toNat_byte (by omega)
    rw [List.singleton_append, decodeUtf8_one (by omega), ofNat_val_eq (c := c) ha]
  · split at h
    · rename_i hn
      cases h
      have ha : (UInt8.ofNat (0xC0 + c.val / 64)).toNat = 0xC0 + c.val / 64 :=
        toNat_byte (by omega)
      have htwo : decodeTwo (UInt8.ofNat (0xC0 + c.val / 64)) (continuation c.val) = some c := by
        unfold decodeTwo
        rw [continued_continuation, Option.bind_eq_bind, Option.bind_some, ha,
          if_pos (by omega), ofNat_val_eq (c := c) (by omega)]
      simp only [List.cons_append, List.nil_append]
      exact decodeUtf8_two (by omega) htwo
    · split at h
      · cases h
      · split at h
        · rename_i hn
          cases h
          have ha : (UInt8.ofNat (0xE0 + c.val / 4096)).toNat = 0xE0 + c.val / 4096 :=
            toNat_byte (by omega)
          have hthree : decodeThree (UInt8.ofNat (0xE0 + c.val / 4096))
              (continuation (c.val / 64)) (continuation c.val) = some c := by
            unfold decodeThree
            rw [continued_continuation, continued_continuation]
            simp only [Option.bind_eq_bind, Option.bind_some, ha]
            rw [if_pos (by omega), ofNat_val_eq (c := c) (by omega)]
          simp only [List.cons_append, List.nil_append]
          exact decodeUtf8_three (by omega) (decodeTwo_none (by omega)) hthree
        · cases h
          have ha : (UInt8.ofNat (0xF0 + c.val / 262144)).toNat = 0xF0 + c.val / 262144 :=
            toNat_byte (by omega)
          have hfour : decodeFour (UInt8.ofNat (0xF0 + c.val / 262144))
              (continuation (c.val / 4096)) (continuation (c.val / 64)) (continuation c.val) =
              some c := by
            unfold decodeFour
            rw [continued_continuation, continued_continuation, continued_continuation]
            simp only [Option.bind_eq_bind, Option.bind_some, ha]
            rw [if_pos (by omega), ofNat_val_eq (c := c) (by omega)]
          simp only [List.cons_append, List.nil_append]
          exact decodeUtf8_four (by omega) (decodeTwo_none (by omega))
            (decodeThree_none (by omega)) hfour

/-- **Decoding an encoded text gives it back.** -/
theorem decodeUtf8_encodeUtf8 {t : PyText} {bytes : Bytes} (h : encodeUtf8 t = some bytes) :
    decodeUtf8 bytes = some t := by
  induction t generalizing bytes with
  | nil =>
    cases h
    rfl
  | cons c t ih =>
    rw [encodeUtf8] at h
    split at h
    · rename_i point more hc ht
      cases h
      rw [decode_encodePoint hc, ih ht]
      rfl
    · cases h

/-- Both ends of line of other systems become `\n`. -/
def universalNewlines : PyText → PyText
  | [] => []
  | c :: rest =>
    if c.val = 13 then
      match rest with
      | [] => [10]
      | d :: rest => if d.val = 10 then 10 :: universalNewlines rest
        else 10 :: universalNewlines (d :: rest)
    else c :: universalNewlines rest

/-- The characters at which `str.splitlines` ends a line. -/
def isLineBreak (c : CodePoint) : Bool :=
  (10 ≤ c.val && c.val ≤ 13) || (28 ≤ c.val && c.val ≤ 30) || c.val = 0x85 || c.val = 0x2028 ||
    c.val = 0x2029

/-- `t.splitlines(keepends=True)` -/
def splitKeepends : PyText → List PyText
  | [] => []
  | c :: rest =>
    if isLineBreak c then
      match rest with
      | [] => [[c]]
      | d :: rest => if c.val = 13 ∧ d.val = 10 then [c, d] :: splitKeepends rest
        else [c] :: splitKeepends (d :: rest)
    else
      match splitKeepends rest with
      | [] => [[c]]
      | line :: lines => (c :: line) :: lines

end PyText
