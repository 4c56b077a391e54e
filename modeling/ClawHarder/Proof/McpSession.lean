import ClawHarder.Lib.PyJsonRead
import ClawHarder.Spec.McpSession

/-!
# Reading framed messages from a pipe

`framing_iff`: **the messages are read in order, and a call returns its own response, exactly
when every body is there as a whole when it is asked for.** The header does not depend on how
the bytes arrive (`readHeaders_frame`), since its lines are read byte by byte; the body is read
once (`readMessage_frame`).
-/

namespace ClawHarder.Mcp

open PyText (lit)

variable {h : Host} (method : PyText)

theorem decode_encodeAscii {t : PyText} (ht : ∀ c ∈ t, c.val < 128) :
    decodeAscii (encodeAscii t) = some t := by
  have hbyte : ∀ c ∈ t, (UInt8.ofNat c.val).toNat = c.val := by
    intro c hc
    have hlt := ht c hc
    rw [UInt8.toNat_ofNat']
    omega
  have hall : (encodeAscii t).all (fun b => b.toNat < 128) = true := by
    unfold encodeAscii
    rw [List.all_map, List.all_eq_true]
    intro c hc
    simp [hbyte c hc, ht c hc]
  have hback : (encodeAscii t).map (fun b => Fin.ofNat 0x110000 b.toNat) = t := by
    unfold encodeAscii
    rw [List.map_map]
    refine (List.map_congr_left fun c hc => ?_).trans (List.map_id t)
    simp only [Function.comp_apply, id_eq, hbyte c hc]
    exact Fin.ext (Nat.mod_eq_of_lt c.isLt)
  unfold decodeAscii
  rw [if_pos hall, hback]

theorem readHeaders_entry {t : Bytes} (ht : 10 ∉ t) {line : Bytes} {entry : PyText × PyText}
    (hblank : ¬(line ++ t ++ [10] = [13, 10] ∨ line ++ t ++ [10] = [10]))
    (hentry : parseHeader (line ++ t ++ [10]) = some entry) (headers : Headers) (rest : Bytes) :
    readHeaders h method line headers (t ++ 10 :: rest) =
      readHeaders h method [] (headers ++ [entry]) rest := by
  induction t generalizing line with
  | nil =>
    rw [List.append_nil] at hblank hentry
    rw [List.nil_append, readHeaders]
    simp only [if_true, if_neg hblank, hentry]
  | cons b t ih =>
    have hb : b ≠ 10 := fun heq => ht (heq ▸ List.mem_cons_self ..)
    have hline : line ++ b :: t ++ [10] = line ++ [b] ++ t ++ [10] := by simp
    rw [hline] at hblank hentry
    rw [List.cons_append, readHeaders, if_neg hb]
    exact ih (fun hmem => ht (List.mem_cons_of_mem _ hmem)) hblank hentry

theorem strip_padded {a d b : PyText} (ha : ∀ c ∈ a, PyText.isSpace c = true)
    (hb : ∀ c ∈ b, PyText.isSpace c = true) (hd : ∀ c ∈ d, PyText.isSpace c = false) (hne : d ≠ []) :
    PyText.strip (a ++ (d ++ b)) = d := by
  have hleft : (a ++ (d ++ b)).dropWhile PyText.isSpace = d ++ b := by
    rw [List.dropWhile_append, List.dropWhile_eq_nil_iff.2 ha]
    cases d with
    | nil => exact absurd rfl hne
    | cons c d =>
      simp only [List.isEmpty_nil, if_true, List.cons_append]
      exact List.dropWhile_cons_of_neg (by simp [hd c (List.mem_cons_self ..)])
  have hright : (d ++ b).rdropWhile PyText.isSpace = d := by
    have hspaces : b.reverse.dropWhile PyText.isSpace = [] :=
      List.dropWhile_eq_nil_iff.2 fun c hc => hb c (List.mem_reverse.1 hc)
    unfold List.rdropWhile
    rw [List.reverse_append, List.dropWhile_append, hspaces]
    simp only [List.isEmpty_nil, if_true]
    have hkeep : d.reverse.dropWhile PyText.isSpace = d.reverse := by
      cases hrev : d.reverse with
      | nil => rfl
      | cons c e =>
        have hc : c ∈ d := List.mem_reverse.1 (hrev ▸ List.mem_cons_self ..)
        exact List.dropWhile_cons_of_neg (by simp [hd c hc])
    rw [hkeep, List.reverse_reverse]
  unfold PyText.strip
  rw [hleft, hright]

def digits (n : ℕ) : PyText := (Nat.toDigits 10 n).map PyText.codePoint

theorem isDigit_of_mem_digits {n : ℕ} {c : CodePoint} (hc : c ∈ digits n) :
    48 ≤ c.val ∧ c.val ≤ 57 := by
  have hdigit := PyJson.isDigit_of_mem_toDigits hc
  simpa [PyJson.isDigit] using hdigit

theorem digits_ne_nil (n : ℕ) : digits n ≠ [] := by
  intro hnil
  exact Nat.toDigits_ne_nil (List.map_eq_nil_iff.1 hnil)

theorem not_space_of_mem_digits {n : ℕ} {c : CodePoint} (hc : c ∈ digits n) :
    PyText.isSpace c = false := by
  have hdigit := isDigit_of_mem_digits hc
  unfold PyText.isSpace
  simp only [Bool.or_eq_false_iff, Bool.and_eq_false_iff, decide_eq_false_iff_not]
  omega

theorem parseDigits_eq {t : PyText} (ht : ∀ c ∈ t, isDigit c = true) (acc : ℕ) (after : Bool)
    (hne : t ≠ [] ∨ after = true) :
    parseDigits acc after t = some (t.foldl (fun n c => 10 * n + (c.val - 48)) acc) := by
  induction t generalizing acc after with
  | nil =>
    obtain h | rfl := hne
    · exact absurd rfl h
    · rfl
  | cons c t ih =>
    have hc := ht c (List.mem_cons_self ..)
    have hrest := ih (fun d hd => ht d (List.mem_cons_of_mem _ hd)) (10 * acc + (c.val - 48)) true
      (.inr rfl)
    rw [parseDigits, if_pos hc, hrest]
    rfl

theorem parseInt_digits (n : ℕ) : parseInt (digits n) = some (n : ℤ) := by
  have hstrip : PyText.strip (digits n) = digits n :=
    PyText.strip_of_no_space fun c hc => not_space_of_mem_digits hc
  have hdigits : ∀ c ∈ digits n, isDigit c = true := fun c hc => PyJson.isDigit_of_mem_toDigits hc
  have hparse := parseDigits_eq hdigits 0 false (.inl (digits_ne_nil n))
  have hvalue : (digits n).foldl (fun n c => 10 * n + (c.val - 48)) 0 = n :=
    PyJson.digitsValue_toDigits n
  unfold parseInt
  rw [hstrip]
  cases hcons : digits n with
  | nil => exact absurd hcons (digits_ne_nil n)
  | cons c s =>
    have hc : 48 ≤ c.val ∧ c.val ≤ 57 := isDigit_of_mem_digits (hcons ▸ List.mem_cons_self ..)
    have hminus : c ≠ PyText.codePoint '-' := by
      rintro rfl
      exact absurd hc (by decide)
    have hplus : c ≠ PyText.codePoint '+' := by
      rintro rfl
      exact absurd hc (by decide)
    rw [hvalue, hcons] at hparse
    simp only [if_neg hminus, if_neg hplus, hparse, Option.map_some, Int.ofNat_eq_natCast]

theorem parseHeader_length (n : ℕ) :
    parseHeader (encodeAscii (lit "Content-Length: " ++ digits n ++ lit "\r\n")) =
      some (lit "content-length", digits n) := by
  have hascii : ∀ c ∈ lit "Content-Length: " ++ digits n ++ lit "\r\n", c.val < 128 := by
    have hends : ((lit "Content-Length: " ++ lit "\r\n").all fun c => c.val < 128) = true := rfl
    intro c hc
    simp only [List.mem_append] at hc
    obtain (hc | hc) | hc := hc
    · exact of_decide_eq_true (List.all_eq_true.1 hends c (List.mem_append_left _ hc))
    · have hdigit := isDigit_of_mem_digits hc
      omega
    · exact of_decide_eq_true (List.all_eq_true.1 hends c (List.mem_append_right _ hc))
  have hkey : (lit "Content-Length: " ++ digits n ++ lit "\r\n").takeWhile (· ≠ colon) =
      lit "Content-Length" := rfl
  have hvalue : ((lit "Content-Length: " ++ digits n ++ lit "\r\n").dropWhile (· ≠ colon)).drop 1 =
      lit " " ++ (digits n ++ lit "\r\n") := rfl
  have hstrip : PyText.strip (lit " " ++ (digits n ++ lit "\r\n")) = digits n := by
    have hspaces : (lit " " ++ lit "\r\n").all PyText.isSpace = true := rfl
    exact strip_padded
      (fun c hc => List.all_eq_true.1 hspaces c (List.mem_append_left _ hc))
      (fun c hc => List.all_eq_true.1 hspaces c (List.mem_append_right _ hc))
      (fun c hc => not_space_of_mem_digits hc) (digits_ne_nil n)
  have hcolon : colon ∈ lit "Content-Length: " ++ digits n ++ lit "\r\n" :=
    List.mem_append_left _ (List.mem_append_left _ (by decide))
  unfold parseHeader
  rw [decode_encodeAscii hascii]
  simp only [if_pos hcolon]
  rw [hkey, hvalue, hstrip]
  rfl

theorem frame_eq (body : Bytes) :
    frame body = encodeAscii (lit "Content-Length: " ++ digits body.length ++ lit "\r") ++
      10 :: ([13] ++ 10 :: body) := by
  have hlit : ∀ s t : String, lit (s ++ t) = lit s ++ lit t := by
    intro s t
    simp [lit, String.toList_append]
  have hdigits : lit (toString body.length) = digits body.length := by
    have hlist : (toString body.length).toList = Nat.toDigits 10 body.length := Nat.toList_repr
    unfold lit digits
    rw [hlist]
  unfold frame encodeAscii
  rw [hlit, hlit, hdigits]
  simp [List.map_append]
  rfl

theorem readHeaders_frame (body rest : Bytes) :
    readHeaders h method [] [] (frame body ++ rest) =
      .ok ([(lit "content-length", digits body.length)], body ++ rest) := by
  have hline : [] ++ encodeAscii (lit "Content-Length: " ++ digits body.length ++ lit "\r") ++ [10] =
      encodeAscii (lit "Content-Length: " ++ digits body.length ++ lit "\r\n") := by
    simp [encodeAscii]
    rfl
  have hno : 10 ∉ encodeAscii (lit "Content-Length: " ++ digits body.length ++ lit "\r") := by
    have hends : 10 ∉ encodeAscii (lit "Content-Length: ") ∧ 10 ∉ encodeAscii (lit "\r") := by
      decide
    intro hmem
    simp only [encodeAscii, List.map_append, List.mem_append] at hmem
    obtain (hmem | hmem) | hmem := hmem
    · exact hends.1 hmem
    · obtain ⟨c, hc, heq⟩ := List.mem_map.1 hmem
      have hdigit := isDigit_of_mem_digits hc
      have hvalue := congrArg UInt8.toNat heq
      rw [UInt8.toNat_ofNat'] at hvalue
      have hten : (10 : UInt8).toNat = 10 := rfl
      omega
    · exact hends.2 hmem
  have hblank : ¬([] ++ encodeAscii (lit "Content-Length: " ++ digits body.length ++ lit "\r") ++
      [10] = [13, 10] ∨ [] ++ encodeAscii (lit "Content-Length: " ++ digits body.length ++
        lit "\r") ++ [10] = [10]) := by
    rintro (heq | heq)
    · exact absurd (List.cons.inj heq).1 (by decide)
    · exact absurd (List.cons.inj heq).1 (by decide)
  rw [frame_eq, List.append_assoc, List.cons_append,
    readHeaders_entry method hno hblank (hline ▸ parseHeader_length body.length)]
  rfl

def Carries (h : Host) (body : Bytes) (message : PyValue) : Prop :=
  parseBody h body = some message ∧ (body.length : ℤ) ≤ maxMcpResponseBytes

def stream (bodies : List Bytes) : Bytes := (bodies.map frame).flatten

/-- The pipe after one call of `read`. -/
def later (there : ℕ → ℕ) : ℕ → ℕ := fun i => there (i + 1)

/-- **A framed message is read when its body is there as a whole, and only then.** -/
theorem readMessage_frame {body : Bytes} {message : PyValue} (hbody : Carries h body message)
    (rest : Bytes) (there : ℕ → ℕ) :
    (body.length ≤ max 1 (there 0) →
      readMessage h method ⟨frame body ++ rest, there⟩ = .ok (message, ⟨rest, later there⟩)) ∧
    (¬body.length ≤ max 1 (there 0) →
      ∃ error, readMessage h method ⟨frame body ++ rest, there⟩ = .error error) := by
  have hheaders := readHeaders_frame (h := h) method body rest
  have hlength : header "content-length" [(lit "content-length", digits body.length)] =
      some (digits body.length) := rfl
  have hnot : ¬maxMcpResponseBytes < (body.length : ℤ) := Int.not_lt.2 hbody.2
  have hread : Pipe.read ⟨body ++ rest, there⟩ (body.length : ℤ) =
      ((body ++ rest).take (min body.length (max 1 (there 0))),
        ⟨(body ++ rest).drop (min body.length (max 1 (there 0))), later there⟩) := by
    unfold Pipe.read
    rw [if_neg (by omega)]
    rfl
  constructor
  · intro hwhole
    unfold readMessage
    simp only [hheaders, bind, Except.bind, hlength, parseInt_digits, if_neg hnot, hread,
      Nat.min_eq_left hwhole, List.take_left, List.drop_left, ne_eq, not_true_eq_false, if_false,
      hbody.1]
  · intro hpart
    have hshort : (((body ++ rest).take (min body.length (max 1 (there 0)))).length : ℤ) ≠
        (body.length : ℤ) := by
      rw [List.length_take, List.length_append]
      omega
    refine ⟨lit "MCP server closed while reading body for " ++ method ++ lit ": " ++ h.stderr, ?_⟩
    unfold readMessage
    simp only [hheaders, bind, Except.bind, hlength, parseInt_digits, if_neg hnot, hread,
      if_pos hshort]

def Whole (there : ℕ → ℕ) : List Bytes → Prop
  | [] => True
  | body :: bodies => body.length ≤ max 1 (there 0) ∧ Whole (later there) bodies

variable {bodies : List Bytes}

theorem readMessages_iff {messages : List PyValue}
    (hsent : List.Forall₂ (Carries h) bodies messages) (there : ℕ → ℕ) :
    (∃ rest, readMessages h method bodies.length ⟨stream bodies, there⟩ = .ok (messages, rest)) ↔
      Whole there bodies := by
  induction hsent generalizing there with
  | nil => exact ⟨fun _ => trivial, fun _ => ⟨_, rfl⟩⟩
  | @cons body message bodies messages hbody hsent ih =>
    have hframe := readMessage_frame method hbody (stream bodies) there
    have hstream : stream (body :: bodies) = frame body ++ stream bodies := rfl
    rw [hstream, List.length_cons, Whole]
    by_cases hwhole : body.length ≤ max 1 (there 0)
    · rw [← ih (later there)]
      simp only [readMessages, hframe.1 hwhole, bind, Except.bind, hwhole, true_and]
      constructor
      · rintro ⟨rest, hok⟩
        split at hok
        next => cases hok
        next p hp =>
          cases hok
          exact ⟨_, hp⟩
      · rintro ⟨rest, hok⟩
        exact ⟨rest, by rw [hok]; rfl⟩
    · obtain ⟨error, herror⟩ := hframe.2 hwhole
      simp only [readMessages, herror, bind, Except.bind, hwhole, false_and, iff_false]
      rintro ⟨rest, hok⟩
      cases hok

theorem length_stream (bodies : List Bytes) : bodies.length ≤ (stream bodies).length := by
  induction bodies with
  | nil => exact Nat.le_refl 0
  | cons body bodies ih =>
    have hstream : stream (body :: bodies) = frame body ++ stream bodies := rfl
    have hpos : 0 < (frame body).length := by
      rw [frame_eq]
      simp only [List.length_append, List.length_cons]
      omega
    rw [hstream, List.length_append, List.length_cons]
    omega

theorem awaitResponse_first {messages before after : List PyValue}
    {message : PyValue} {result : Except PyText PyValue} {requestId : ℕ}
    (hsent : List.Forall₂ (Carries h) bodies messages)
    (hmessages : messages = before ++ message :: after)
    (hbefore : ∀ m ∈ before, handle h requestId m = .skipped)
    (hmessage : handle h requestId message = .done result) {there : ℕ → ℕ}
    (hwhole : Whole there bodies) {fuel : ℕ} (hfuel : bodies.length ≤ fuel) :
    (awaitResponse h method requestId fuel ⟨stream bodies, there⟩).map Prod.fst = result := by
  induction hsent generalizing before there fuel with
  | nil => simp at hmessages
  | @cons body first bodies messages hbody hsent ih =>
    obtain ⟨fuel, rfl⟩ : ∃ n, fuel = n + 1 := ⟨fuel - 1, by simp at hfuel; omega⟩
    have hread := (readMessage_frame method hbody (stream bodies) there).1 hwhole.1
    have hstream : stream (body :: bodies) = frame body ++ stream bodies := rfl
    rw [hstream, awaitResponse]
    cases before with
    | nil =>
      obtain ⟨rfl, rfl⟩ : first = message ∧ messages = after := by simpa using hmessages
      simp only [hread, bind, Except.bind, hmessage]
      cases result <;> rfl
    | cons skipped before =>
      obtain ⟨rfl, hrest⟩ : first = skipped ∧ messages = before ++ message :: after := by
        simpa using hmessages
      have hskip := hbefore first (List.mem_cons_self ..)
      simp only [hread, bind, Except.bind, hskip]
      exact ih hrest (fun m hm => hbefore m (List.mem_cons_of_mem _ hm)) hwhole.2
        (by simpa using hfuel)

/-- A call returns what the first message with its own id gives, when the messages before it are
objects. -/
def Responds (h : Host) (method : PyText) (params : PyDict) (s : Session)
    (messages : List PyValue) : Prop :=
  ∀ (before : List PyDict) (message : PyDict) (after : List PyValue),
    messages = before.map PyValue.dict ++ .dict message :: after →
    (∀ m ∈ before, isOwn h (s.requestId + 1) m = false) →
    isOwn h (s.requestId + 1) message = true →
    (rpc h method params s).map Prod.fst = respond h message

theorem responds_of_whole {messages : List PyValue}
    (hsent : List.Forall₂ (Carries h) bodies messages) {there : ℕ → ℕ}
    (hwhole : Whole there bodies) (params : PyDict) {s : Session}
    (hs : s.stdout = ⟨stream bodies, there⟩) : Responds h method params s messages := by
  intro before message after hmessages hbefore hown
  have hskipped : ∀ m ∈ before.map PyValue.dict, handle h (s.requestId + 1) m = .skipped := by
    intro m hm
    obtain ⟨d, hd, rfl⟩ := List.mem_map.1 hm
    simp only [handle, hbefore d hd, Bool.false_eq_true, if_false]
  have hdone : handle h (s.requestId + 1) (.dict message) = .done (respond h message) := by
    simp only [handle, hown, if_true]
  have hfuel : bodies.length ≤ (stream bodies).length + 1 := by
    have hlength := length_stream bodies
    omega
  have hawait := awaitResponse_first method hsent hmessages hskipped hdone hwhole hfuel
  unfold rpc
  simp only [Session.send, hs, bind, Except.bind]
  cases hresult : awaitResponse h method (s.requestId + 1) ((stream bodies).length + 1)
      ⟨stream bodies, there⟩ with
  | error error =>
    rw [hresult] at hawait
    exact hawait
  | ok p =>
    rw [hresult] at hawait
    exact hawait

/-- **The messages are read in order, and a call returns its own response, exactly when every
body is there as a whole when it is asked for.** -/
theorem framing_iff (h : Host) (method : PyText) (params : PyDict) {bodies : List Bytes}
    {messages : List PyValue} (hsent : List.Forall₂ (Carries h) bodies messages)
    {there : ℕ → ℕ} {s : Session} (hs : s.stdout = ⟨stream bodies, there⟩) :
    ((∃ rest, readMessages h method bodies.length s.stdout = .ok (messages, rest)) ∧
      Responds h method params s messages) ↔ Whole there bodies := by
  rw [hs, readMessages_iff method hsent there]
  exact ⟨fun hall => hall.1, fun hwhole => ⟨hwhole, responds_of_whole method hsent hwhole params hs⟩⟩

def sampleHost : Host where
  floatRepr t := t
  floatIs _ _ := false
  reprOf _ := []
  reprOfBytes _ := []
  reprOfText t := t
  malformed _ := []
  stderr := []
  serverName := lit "files"

def sampleMessage : PyValue := .dict [(lit "id", .int 1)]

def sampleBody : Bytes := encodeAscii (PyJson.dumps sampleMessage)

def sampleSession (there : ℕ → ℕ) : Session := ⟨0, [], ⟨stream [sampleBody], there⟩⟩

theorem carries_sample : List.Forall₂ (Carries sampleHost) [sampleBody] [sampleMessage] := by
  have hdecode : PyText.decodeUtf8 sampleBody = some (PyJson.dumps sampleMessage) := rfl
  have hencodable : PyJson.Encodable sampleHost.floatRepr sampleMessage := by
    refine .dict (by simp) (fun m hm => ?_) (fun m hm => ?_)
    · rw [List.mem_singleton.1 hm]
      unfold PyJson.Unsplit
      decide
    · rw [List.mem_singleton.1 hm]
      exact .int _
  have hbody : parseBody sampleHost sampleBody = some sampleMessage := by
    unfold parseBody
    rw [hdecode, Option.bind_some]
    exact PyJson.loads_dumps hencodable rfl
  have hlength : (sampleBody.length : ℤ) ≤ maxMcpResponseBytes := by decide +kernel
  exact .cons ⟨hbody, hlength⟩ .nil

theorem whole_response :
    ((∃ rest, readMessages sampleHost (lit "tools/list") [sampleBody].length
        (sampleSession fun _ => 64).stdout = .ok ([sampleMessage], rest)) ∧
      Responds sampleHost (lit "tools/list") [] (sampleSession fun _ => 64) [sampleMessage]) ↔
    Whole (fun _ => 64) [sampleBody] :=
  framing_iff sampleHost (lit "tools/list") [] carries_sample rfl

theorem split_response :
    ¬((∃ rest, readMessages sampleHost (lit "tools/list") [sampleBody].length
        (sampleSession fun _ => 4).stdout = .ok ([sampleMessage], rest)) ∧
      Responds sampleHost (lit "tools/list") [] (sampleSession fun _ => 4) [sampleMessage]) := by
  rintro ⟨⟨rest, hok⟩, -⟩
  have hfails : (readMessages sampleHost (lit "tools/list") [sampleBody].length
      (sampleSession fun _ => 4).stdout).isOk = false := by
    decide +kernel
  rw [hok] at hfails
  cases hfails

end ClawHarder.Mcp
