import Mathlib.Data.List.TakeWhile
import Arqma.UrlCoding

/-!
# Requests on the wire

`format_http_request` writes the request line, the headers and the body one after another. The
storage server and the router read a request the same way: up to the first blank line into a
buffer of fixed size, then line by line, and the body by the length that the headers give.
-/
namespace Arqma.Storage
open List

variable {c : UInt8} {blanks : Bytes} {line : Bytes} {lines : List Bytes} {req : HttpRequest}

def maxHttpHeaderBytes : ℕ := 8192
def maxHttpBodyBytes : ℕ := 1024 * 1024
def maxKvNameBytes : ℕ := 128
def maxKvEntries : ℕ := 4096
def maxKvEntriesPerNamespace : ℕ := 512
def maxSyncResponseBytes : ℕ := 512 * 1024

def asciiBytes (s : String) : Bytes := s.toList.map fun c => c.toNat.toUInt8

/-! ## Numbers in decimal -/

def isSpace (c : UInt8) : Bool := c = 32 || (9 ≤ c && c ≤ 13)

def digitsValue (raw : Bytes) : ℕ :=
  (raw.takeWhile fun c => 48 ≤ c && c ≤ 57).foldl (fun n c => 10 * n + (c - 48).toNat) 0

/-- `strtoul` in base ten. -/
def strtoul (raw : Bytes) : UInt64 :=
  match raw.dropWhile isSpace with
  | 45 :: digits =>
    if 2 ^ 64 ≤ digitsValue digits then -1 else -UInt64.ofNat (digitsValue digits)
  | 43 :: digits =>
    if 2 ^ 64 ≤ digitsValue digits then -1 else UInt64.ofNat (digitsValue digits)
  | digits => if 2 ^ 64 ≤ digitsValue digits then -1 else UInt64.ofNat (digitsValue digits)

/-- `std::to_string` of an unsigned number. -/
def toDecimal (n : ℕ) : Bytes := (Nat.toDigits 10 n).map fun c => c.toNat.toUInt8

section Decimal

theorem toUInt8_digitChar {d : ℕ} (h : d < 10) :
    (Nat.digitChar d).toNat.toUInt8 = 48 + d.toUInt8 := by
  interval_cases d <;> rfl

/-- The last digit stands at the end. -/
theorem toDecimal_eq (n : ℕ) :
    toDecimal n = (if n < 10 then [] else toDecimal (n / 10)) ++ [48 + (n % 10).toUInt8] := by
  grind [toDecimal, Nat.toDigits_eq_if, toUInt8_digitChar]

theorem toNat_digit {d : ℕ} (h : d < 10) :
    48 ≤ (48 + d.toUInt8 : UInt8) ∧ (48 + d.toUInt8 : UInt8) ≤ 57 ∧
      ((48 + d.toUInt8 : UInt8) - 48).toNat = d := by
  interval_cases d <;> decide

theorem digit_of_mem_toDecimal {n : ℕ} (h : c ∈ toDecimal n) : 48 ≤ c ∧ c ≤ 57 := by
  induction n using Nat.strongRecOn with
  | ind n ih =>
    rw [toDecimal_eq, mem_append, mem_singleton] at h
    rcases h with h | rfl
    · split_ifs at h with hn
      · simp at h
      · exact ih (n / 10) (by omega) h
    · have hdigit := toNat_digit (Nat.mod_lt n (by decide : 0 < 10))
      exact ⟨hdigit.1, hdigit.2.1⟩

theorem toDecimal_ne_nil (n : ℕ) : toDecimal n ≠ [] := by
  rw [toDecimal_eq]
  simp

theorem length_toDecimal_le {n k : ℕ} (h : n < 10 ^ (k + 1)) : (toDecimal n).length ≤ k + 1 := by
  induction k generalizing n with
  | zero =>
    rw [toDecimal_eq, if_pos (by simpa using h)]
    simp
  | succ k ih =>
    grind [toDecimal_eq]

theorem foldl_toDecimal (n : ℕ) :
    (toDecimal n).foldl (fun n c => 10 * n + (c - 48).toNat) 0 = n := by
  induction n using Nat.strongRecOn with
  | ind n ih =>
    have hlast := (toNat_digit (Nat.mod_lt n (by decide : 0 < 10))).2.2
    rw [toDecimal_eq, foldl_append, foldl_cons, foldl_nil, hlast]
    split_ifs with hn
    · rw [foldl_nil]
      omega
    · rw [ih (n / 10) (by omega)]
      omega

theorem digitsValue_toDecimal (n : ℕ) : digitsValue (toDecimal n) = n := by
  have hall : ∀ c ∈ toDecimal n, (48 ≤ c && c ≤ 57) = true := by
    intro c hc
    simpa using digit_of_mem_toDecimal hc
  rw [digitsValue, takeWhile_eq_self_iff.mpr hall, foldl_toDecimal]

theorem not_isSpace_of_digit (h : 48 ≤ c ∧ c ≤ 57) : isSpace c = false := by
  grind [isSpace]

theorem strtoul_digits {digits blanks : Bytes} (hdigits : ∀ c ∈ digits, 48 ≤ c ∧ c ≤ 57)
    (hblanks : ∀ c ∈ blanks, isSpace c = true) :
    strtoul (blanks ++ digits) =
      if 2 ^ 64 ≤ digitsValue digits then -1 else UInt64.ofNat (digitsValue digits) := by
  rw [strtoul, dropWhile_append_of_pos hblanks]
  cases digits with
  | nil => rfl
  | cons d digits =>
    grind [dropWhile_cons_of_neg, not_isSpace_of_digit]

/-- What `to_string` writes is read back, also after blanks, up to the largest number. -/
theorem strtoul_toDecimal_eq (n : ℕ) (hblanks : ∀ c ∈ blanks, isSpace c = true) :
    strtoul (blanks ++ toDecimal n) = if 2 ^ 64 ≤ n then -1 else UInt64.ofNat n := by
  rw [strtoul_digits (fun c hc => digit_of_mem_toDecimal hc) hblanks, digitsValue_toDecimal]

theorem strtoul_toDecimal {n : ℕ} (h : n < 2 ^ 64)
    (hblanks : ∀ c ∈ blanks, isSpace c = true) :
    strtoul (blanks ++ toDecimal n) = UInt64.ofNat n := by
  rw [strtoul_toDecimal_eq n hblanks, if_neg (Nat.not_le.mpr h)]

/-- A number above a small bound is read as one, even if it is too large to be read. -/
theorem lt_strtoul_toDecimal {n bound : ℕ} (h : bound < n) (hbound : bound < 2 ^ 64 - 1)
    (hblanks : ∀ c ∈ blanks, isSpace c = true) :
    bound < (strtoul (blanks ++ toDecimal n)).toNat := by
  rw [strtoul_toDecimal_eq n hblanks]
  split_ifs with hn
  · exact hbound
  · rw [UInt64.toNat_ofNat_of_lt' (Nat.not_le.mp hn)]
    exact h

end Decimal

/-! ## Writing a request -/

def crlf : Bytes := [13, 10]

def formatHttpRequest (method path host body : Bytes) : Bytes :=
  method ++ asciiBytes " " ++ path ++ asciiBytes " HTTP/1.1\r\nHost: " ++ host ++
    asciiBytes "\r\nConnection: close\r\n" ++
    (if body = [] then []
      else asciiBytes "Content-Length: " ++ toDecimal body.length ++ asciiBytes "\r\n") ++
    asciiBytes "\r\n" ++ body

def requestLine (method path : Bytes) : Bytes :=
  method ++ asciiBytes " " ++ path ++ asciiBytes " HTTP/1.1"

/-- The header lines of a request, without their ends. -/
def requestHeaders (host body : Bytes) : List Bytes :=
  [asciiBytes "Host: " ++ host, asciiBytes "Connection: close"] ++
    (if body = [] then [] else [asciiBytes "Content-Length: " ++ toDecimal body.length])

def endLines (lines : List Bytes) : Bytes := lines.flatMap (· ++ crlf)

/-- What the receiver has to buffer. -/
def requestHead (method path host body : Bytes) : Bytes :=
  endLines (requestLine method path :: requestHeaders host body) ++ crlf

theorem formatHttpRequest_eq (method path host body : Bytes) :
    formatHttpRequest method path host body = requestHead method path host body ++ body := by
  have hend : asciiBytes "\r\n" = crlf := rfl
  have hhost : asciiBytes " HTTP/1.1\r\nHost: " =
      asciiBytes " HTTP/1.1" ++ crlf ++ asciiBytes "Host: " := rfl
  have hclose : asciiBytes "\r\nConnection: close\r\n" =
      crlf ++ asciiBytes "Connection: close" ++ crlf := rfl
  rw [formatHttpRequest, requestHead, requestHeaders, requestLine, hend, hhost, hclose]
  split_ifs <;> simp [endLines, append_assoc]

/-! ## Reading a request -/

structure HttpRequest where
  method : Bytes
  path : Bytes
  headers : List Bytes
  body : Bytes
deriving DecidableEq

/-- `std::getline`. -/
def getLine (raw : Bytes) : Option (Bytes × Bytes) :=
  if raw = [] then none else some (raw.takeWhile (· ≠ 10), (raw.dropWhile (· ≠ 10)).drop 1)

def stripCr (line : Bytes) : Bytes := if line.getLast? = some 13 then line.dropLast else line

/-- The lines up to the first empty one, and what comes after it. -/
def readHeaders : ℕ → Bytes → List Bytes × Bytes
  | 0, raw => ([], raw)
  | fuel + 1, raw =>
    match getLine raw with
    | none => ([], raw)
    | some (line, rest) =>
      if stripCr line = [] then ([], rest)
      else (stripCr line :: (readHeaders fuel rest).1, (readHeaders fuel rest).2)

/-- `operator>>` for a string: the next word and what comes after it. -/
def nextWord (line : Bytes) : Bytes × Bytes :=
  ((line.dropWhile isSpace).takeWhile fun c => !isSpace c,
    (line.dropWhile isSpace).dropWhile fun c => !isSpace c)

def toLower (c : UInt8) : UInt8 := if 65 ≤ c ∧ c ≤ 90 then c - 65 + 97 else c

/-- The length after a header: a `Content-Length` replaces the one before. -/
def lengthAfter (length : UInt64) (header : Bytes) : UInt64 :=
  if 58 ∈ header ∧ (header.takeWhile (· ≠ 58)).map toLower = asciiBytes "content-length" then
    strtoul ((header.dropWhile (· ≠ 58)).drop 1)
  else length

def contentLength (headers : List Bytes) : UInt64 := headers.foldl lengthAfter 0

/-- `serve` up to the call of the handler, when the first `buffered` bytes have come in with
the head. There is no request if the head does not fit the buffer or the body is too large. -/
def receive (buffered : ℕ) (raw : Bytes) : Option HttpRequest :=
  let buffer := raw.take (min buffered maxHttpHeaderBytes)
  if ¬crlf ++ crlf <:+: buffer then none
  else
    let (line, rest) := (getLine buffer).getD ([], [])
    let (method, afterMethod) := nextWord (stripCr line)
    let (headers, body) := readHeaders rest.length rest
    let length := (contentLength headers).toNat
    let missing := (raw.drop (min buffered maxHttpHeaderBytes)).take (length - body.length)
    if maxHttpBodyBytes < length then none
    else
      some
        { method
          path := (nextWord afterMethod).1
          headers
          -- a body that is cut short is left as it is
          body := if body.length + missing.length = length then body ++ missing else body }

section Receive

theorem getLine_append_cons (h : 10 ∉ line) (rest : Bytes) :
    getLine (line ++ 10 :: rest) = some (line, rest) := by
  rw [getLine, if_neg (by simp), takeWhile_ne_append_cons h, dropWhile_ne_append_cons h,
    drop_one, tail_cons]

theorem stripCr_append_cr (line : Bytes) : stripCr (line ++ [13]) = line := by
  simp [stripCr]

theorem readHeaders_endLines (hplain : ∀ l ∈ lines, 10 ∉ l ∧ l ≠ []) {fuel : ℕ}
    (hfuel : lines.length < fuel) (rest : Bytes) :
    readHeaders fuel (endLines lines ++ crlf ++ rest) = (lines, rest) := by
  induction lines generalizing fuel with
  | nil =>
    obtain ⟨fuel, rfl⟩ := Nat.exists_eq_succ_of_ne_zero hfuel.ne'
    rw [readHeaders, show endLines [] ++ crlf ++ rest = [13] ++ 10 :: rest from rfl,
      getLine_append_cons (by decide)]
    rfl
  | cons l lines ih =>
    obtain ⟨fuel, rfl⟩ := Nat.exists_eq_succ_of_ne_zero (Nat.ne_of_gt (Nat.zero_lt_of_lt hfuel))
    obtain ⟨hl, hne⟩ := hplain l mem_cons_self
    have hraw : endLines (l :: lines) ++ crlf ++ rest =
        (l ++ [13]) ++ 10 :: (endLines lines ++ crlf ++ rest) := by
      simp [endLines, crlf]
    have hrest := ih (fun l' hl' => hplain l' (mem_cons_of_mem _ hl'))
      (Nat.lt_of_succ_lt_succ hfuel)
    rw [readHeaders, hraw, getLine_append_cons (by simp [hl])]
    simp only [stripCr_append_cr, if_neg hne, hrest]

/-- A word is read up to the blank behind it. -/
theorem nextWord_append {blanks word : Bytes} (hblanks : ∀ c ∈ blanks, isSpace c = true)
    (hword : ∀ c ∈ word, isSpace c = false) (hne : word ≠ []) (rest : Bytes)
    (hrest : ∀ c, rest.head? = some c → isSpace c = true) :
    nextWord (blanks ++ word ++ rest) = (word, rest) := by
  obtain ⟨c, word, rfl⟩ := exists_cons_of_ne_nil hne
  have hall : ∀ d ∈ c :: word, (!isSpace d) = true := by
    intro d hd
    rw [hword d hd]
    rfl
  have hdrop : (blanks ++ (c :: word) ++ rest).dropWhile isSpace = (c :: word) ++ rest := by
    simp [dropWhile_append_of_pos hblanks, hword c mem_cons_self]
  rw [nextWord, hdrop, takeWhile_append_of_pos hall, dropWhile_append_of_pos hall]
  cases rest with
  | nil => simp
  | cons d rest => simp [hrest d rfl]

theorem lengthAfter_append_cons {name : Bytes} (hname : 58 ∉ name) (value : Bytes)
    (length : UInt64) :
    lengthAfter length (name ++ 58 :: value) =
      if name.map toLower = asciiBytes "content-length" then strtoul value else length := by
  rw [lengthAfter, takeWhile_ne_append_cons hname, dropWhile_ne_append_cons hname, drop_one,
    tail_cons]
  simp

theorem contentLength_requestHeaders_eq (host body : Bytes) :
    contentLength (requestHeaders host body) =
      if body = [] then 0 else strtoul ([32] ++ toDecimal body.length) := by
  have hhost : lengthAfter 0 (asciiBytes "Host: " ++ host) = 0 := by
    rw [show asciiBytes "Host: " ++ host = asciiBytes "Host" ++ 58 :: (32 :: host) from rfl,
      lengthAfter_append_cons (by decide)]
    exact if_neg (by decide)
  have hclose : lengthAfter 0 (asciiBytes "Connection: close") = 0 := by decide
  rw [contentLength, requestHeaders, foldl_append, foldl_cons, foldl_cons, foldl_nil, hhost, hclose]
  split_ifs with hempty
  · rfl
  · have hheader : asciiBytes "Content-Length: " ++ toDecimal body.length =
        asciiBytes "Content-Length" ++ 58 :: ([32] ++ toDecimal body.length) := rfl
    rw [foldl_cons, foldl_nil, hheader, lengthAfter_append_cons (by decide), if_pos (by decide)]

variable {body host method path : Bytes} {buffered : ℕ}

theorem contentLength_requestHeaders (host : Bytes) (hbody : body.length ≤ maxHttpBodyBytes) :
    (contentLength (requestHeaders host body)).toNat = body.length := by
  rw [contentLength_requestHeaders_eq]
  split_ifs with hempty
  · rw [hempty]
    rfl
  · have hlt : body.length < 2 ^ 64 := lt_of_le_of_lt hbody (by decide)
    rw [strtoul_toDecimal hlt (by decide), UInt64.toNat_ofNat_of_lt' hlt]

theorem lt_contentLength_requestHeaders (host : Bytes) (hbody : maxHttpBodyBytes < body.length) :
    maxHttpBodyBytes < (contentLength (requestHeaders host body)).toNat := by
  have hne : body ≠ [] := ne_nil_of_length_pos (Nat.zero_lt_of_lt hbody)
  rw [contentLength_requestHeaders_eq, if_neg hne]
  exact lt_strtoul_toDecimal hbody (by decide) (by decide)

theorem isSpace_not_mem {word : Bytes} (hword : ∀ c ∈ word, isSpace c = false)
    (hc : isSpace c = true) : c ∉ word := by
  intro h
  rw [hword c h] at hc
  exact Bool.false_ne_true hc

theorem plain_requestHeaders (hhost : 10 ∉ host) (body : Bytes) :
    ∀ l ∈ requestHeaders host body, 10 ∉ l ∧ l ≠ [] := by
  have hlength : 10 ∉ toDecimal body.length :=
    isSpace_not_mem (fun c hc => not_isSpace_of_digit (digit_of_mem_toDecimal hc)) rfl
  intro l hl
  rw [requestHeaders, mem_append, mem_cons, mem_singleton] at hl
  rcases hl with (rfl | rfl) | hl
  · exact ⟨by simpa [hhost] using (by decide : (10 : UInt8) ∉ asciiBytes "Host: "),
      append_ne_nil_of_left_ne_nil (by decide) _⟩
  · decide
  · split_ifs at hl with hempty
    · simp at hl
    · rw [mem_singleton.mp hl]
      exact ⟨by simpa [hlength] using (by decide : (10 : UInt8) ∉ asciiBytes "Content-Length: "),
        append_ne_nil_of_left_ne_nil (by decide) _⟩

theorem length_lt_endLines (lines : List Bytes) :
    lines.length < (endLines lines ++ crlf).length := by
  induction lines <;> grind [crlf, endLines]

theorem eq_of_append_cons_eq {α : Type*} {a : α} {l l' r r' : List α} (h : a ∉ l) (h' : a ∉ l')
    (heq : l ++ a :: r = l' ++ a :: r') : l = l' ∧ r = r' := by
  induction l generalizing l' with
  | nil =>
    cases l' with
    | nil => exact ⟨rfl, (List.cons.inj heq).2⟩
    | cons b l' => exact absurd (List.cons.inj heq).1 fun hb => h' (hb ▸ mem_cons_self)
  | cons b l ih =>
    cases l' with
    | nil => exact absurd (List.cons.inj heq).1 fun hb => h (hb ▸ mem_cons_self)
    | cons c l' =>
      obtain ⟨hb, htail⟩ := List.cons.inj heq
      obtain ⟨hl, hr⟩ := ih (fun hm => h (mem_cons_of_mem _ hm))
        (fun hm => h' (mem_cons_of_mem _ hm)) htail
      exact ⟨by rw [hb, hl], hr⟩

/-- The blank line at the end of a head is its only one. -/
theorem eq_nil_of_endLines_eq (hplain : ∀ l ∈ lines, 10 ∉ l ∧ l ≠ [])
    {before behind : Bytes} (h : endLines lines ++ crlf = before ++ (crlf ++ crlf) ++ behind) :
    behind = [] := by
  induction lines generalizing before with
  | nil =>
    have hlength := congrArg List.length h
    simp only [endLines, flatMap_nil, nil_append, length_append] at hlength
    have hcrlf : crlf.length = 2 := rfl
    omega
  | cons l lines ih =>
    obtain ⟨hl, -⟩ := hplain l mem_cons_self
    have hlines : ∀ l' ∈ lines, 10 ∉ l' ∧ l' ≠ [] := fun l' hl' =>
      hplain l' (mem_cons_of_mem _ hl')
    have hhead : endLines (l :: lines) ++ crlf = (l ++ [13]) ++ 10 :: (endLines lines ++ crlf) := by
      simp [endLines, crlf]
    have hl13 : 10 ∉ l ++ [13] := by simp [hl]
    rw [hhead] at h
    by_cases hbefore : 10 ∈ before
    · -- the blank line comes after the end of the first line
      obtain ⟨first, later, rfl, hfirst⟩ := eq_append_cons_of_mem hbefore
      have hlater : (l ++ [13]) ++ 10 :: (endLines lines ++ crlf) =
          first ++ 10 :: (later ++ (crlf ++ crlf) ++ behind) := by
        simpa using h
      exact ih hlines (eq_of_append_cons_eq hl13 hfirst hlater).2
    · have hb13 : 10 ∉ before ++ [13] := by simp [hbefore]
      have hfirst : (l ++ [13]) ++ 10 :: (endLines lines ++ crlf) =
          (before ++ [13]) ++ 10 :: 13 :: 10 :: behind := by
        simpa [crlf] using h
      have hrest := (eq_of_append_cons_eq hl13 hb13 hfirst).2
      cases lines with
      | nil => exact (List.cons.inj (List.cons.inj hrest).2).2.symm
      | cons l' lines =>
        -- the second line is neither empty nor does it begin with an end
        obtain ⟨hl', hne⟩ := hlines l' mem_cons_self
        obtain ⟨c, l', rfl⟩ := exists_cons_of_ne_nil hne
        have htail := (List.cons.inj hrest).2
        cases l' with
        | nil => exact absurd (List.cons.inj htail).1 (by decide)
        | cons d l' =>
          refine absurd ?_ hl'
          rw [(List.cons.inj htail).1]
          simp

theorem plain_requestLine (hmethod : 10 ∉ method) (hpath : 10 ∉ path) :
    10 ∉ requestLine method path ∧ requestLine method path ≠ [] := by
  constructor
  · simp only [requestLine, mem_append, hmethod, hpath, false_or, or_false]
    decide
  · exact append_ne_nil_of_right_ne_nil _ (by decide)

theorem receive_eq_none_of_short (hmethod : 10 ∉ method) (hpath : 10 ∉ path) (hhost : 10 ∉ host)
    (hshort : min buffered maxHttpHeaderBytes < (requestHead method path host body).length) :
    receive buffered (formatHttpRequest method path host body) = none := by
  have hlines : ∀ l ∈ requestLine method path :: requestHeaders host body, 10 ∉ l ∧ l ≠ [] := by
    grind [plain_requestLine, plain_requestHeaders]
  refine if_pos fun ⟨before, behind, hbuffer⟩ => ?_
  rw [formatHttpRequest_eq, take_append_of_le_length hshort.le] at hbuffer
  have hsplit := take_append_drop (min buffered maxHttpHeaderBytes)
    (requestHead method path host body)
  rw [← hbuffer, append_assoc] at hsplit
  have hrest := eq_nil_of_endLines_eq hlines hsplit.symm
  have hdrop := (append_eq_nil_iff.mp hrest).2
  rw [drop_eq_nil_iff] at hdrop
  omega

/-- A request whose path has no blanks is read as it was written, apart from the body. -/
theorem receive_of_head (hmethod : ∀ c ∈ method, isSpace c = false) (hmethodNe : method ≠ [])
    (hpath : ∀ c ∈ path, isSpace c = false) (hpathNe : path ≠ []) (hhost : 10 ∉ host)
    (hhead : (requestHead method path host body).length ≤ min buffered maxHttpHeaderBytes) :
    receive buffered (formatHttpRequest method path host body) =
      if maxHttpBodyBytes < body.length then none
      else some ⟨method, path, requestHeaders host body, body⟩ := by
  set m := min buffered maxHttpHeaderBytes with hm
  set begun := body.take (m - (requestHead method path host body).length) with hbegun
  have hbuffer : (formatHttpRequest method path host body).take m =
      requestHead method path host body ++ begun := by
    rw [formatHttpRequest_eq, take_append, take_of_length_le hhead]
  have hlater : (formatHttpRequest method path host body).drop m =
      body.drop (m - (requestHead method path host body).length) := by
    rw [formatHttpRequest_eq, drop_append, drop_of_length_le hhead, nil_append]
  have hblank : crlf ++ crlf <:+: requestHead method path host body ++ begun := by
    refine ⟨requestLine method path ++ crlf ++ endLines (requestHeaders host body).dropLast ++
      (requestHeaders host body).getLast (by simp [requestHeaders]), begun, ?_⟩
    have hlast := dropLast_append_getLast
      (show requestHeaders host body ≠ [] by simp [requestHeaders])
    conv_rhs => rw [requestHead, endLines, flatMap_cons, ← hlast, flatMap_append]
    simp [endLines]
  have hspace : ∀ c ∈ asciiBytes " ", isSpace c = true := by decide
  have hline : getLine (requestHead method path host body ++ begun) =
      some (requestLine method path ++ [13],
        endLines (requestHeaders host body) ++ crlf ++ begun) := by
    have hnewline : 10 ∉ requestLine method path ++ [13] := by
      simp [(plain_requestLine (isSpace_not_mem hmethod (c := 10) rfl)
        (isSpace_not_mem hpath (c := 10) rfl)).1]
    rw [← getLine_append_cons hnewline]
    simp [requestHead, endLines, crlf]
  have hmethodWord : nextWord (requestLine method path) =
      (method, asciiBytes " " ++ path ++ asciiBytes " HTTP/1.1") := by
    have hnext := nextWord_append (forall_mem_nil _) hmethod hmethodNe
      (asciiBytes " " ++ path ++ asciiBytes " HTTP/1.1") (by rintro c ⟨⟩; rfl)
    simpa [requestLine] using hnext
  have hpathWord := nextWord_append hspace hpath hpathNe (asciiBytes " HTTP/1.1")
    (by rintro c ⟨⟩; rfl)
  have hheaders : readHeaders (endLines (requestHeaders host body) ++ crlf ++ begun).length
      (endLines (requestHeaders host body) ++ crlf ++ begun) = (requestHeaders host body, begun) :=
    readHeaders_endLines (plain_requestHeaders hhost body)
      (Nat.lt_of_lt_of_le (length_lt_endLines _) (by simp)) begun
  have hwhole : begun ++ (body.drop (m - (requestHead method path host body).length)).take
      (body.length - begun.length) = body := by
    rw [take_of_length_le, hbegun, take_append_drop]
    rw [length_drop, hbegun, length_take]
    omega
  simp only [receive, ← hm, hbuffer, hlater, not_true_eq_false, hblank, if_false, hline,
    Option.getD_some, stripCr_append_cr, hmethodWord, hpathWord, hheaders]
  by_cases hbody : maxHttpBodyBytes < body.length
  · rw [if_pos hbody, if_pos (lt_contentLength_requestHeaders host hbody)]
  · simp only [if_neg hbody, contentLength_requestHeaders host (Nat.not_lt.mp hbody),
      ← length_append, hwhole, if_true]

/-- Nothing else is ever read from what was written. -/
theorem receive_eq_none_or (buffered : ℕ) (body : Bytes) (hmethod : ∀ c ∈ method, isSpace c = false)
    (hmethodNe : method ≠ []) (hpath : ∀ c ∈ path, isSpace c = false) (hpathNe : path ≠ [])
    (hhost : 10 ∉ host) :
    receive buffered (formatHttpRequest method path host body) = none ∨
      receive buffered (formatHttpRequest method path host body) =
        some ⟨method, path, requestHeaders host body, body⟩ := by
  rcases Nat.lt_or_ge (min buffered maxHttpHeaderBytes)
    (requestHead method path host body).length with hshort | hhead
  · exact Or.inl (receive_eq_none_of_short (isSpace_not_mem hmethod (c := 10) rfl)
      (isSpace_not_mem hpath (c := 10) rfl) hhost hshort)
  · rw [receive_of_head hmethod hmethodNe hpath hpathNe hhost hhead]
    split_ifs
    · exact Or.inl rfl
    · exact Or.inr rfl

/-! ## Reading what is not plain -/

theorem not_mem_stripCr (h : c ∉ line) : c ∉ stripCr line := by
  rw [stripCr]
  split_ifs
  · exact fun hc => h (mem_of_mem_dropLast hc)
  · exact h

theorem not_mem_of_mem_readHeaders (fuel : ℕ) (raw : Bytes) :
    ∀ l ∈ (readHeaders fuel raw).1, 10 ∉ l := by
  induction fuel generalizing raw with
  | zero => simp [readHeaders]
  | succ fuel ih =>
    rw [readHeaders, getLine]
    split_ifs with hempty
    · simp
    · dsimp only
      split_ifs
      · simp
      · intro l hl
        rcases mem_cons.mp hl with rfl | hl
        · exact not_mem_stripCr fun hc => by simpa using mem_takeWhile_imp hc
        · exact ih _ l hl

/-- A line whose last byte may have been cut off still has a blank behind its words. -/
theorem stripCr_append (rest : Bytes) (hline : ∀ c ∈ line, c ≠ 13) :
    ∃ rest', stripCr (line ++ rest) = line ++ rest' ∧ rest' <+: rest := by
  rw [stripCr]
  split_ifs with hlast
  · grind
  · exact ⟨rest, rfl, prefix_rfl⟩

theorem exists_blank_after (path rest : Bytes) : ∃ c rest', isSpace c = true ∧
      path ++ 32 :: rest = (path.takeWhile fun c => !isSpace c) ++ c :: rest' := by
  induction path with
  | nil => exact ⟨32, rest, rfl, rfl⟩
  | cons d path ih =>
    cases hd : isSpace d with
    | true => exact ⟨d, path ++ 32 :: rest, hd, by simp [hd]⟩
    | false =>
      obtain ⟨c, rest', hc, heq⟩ := ih
      exact ⟨c, rest', hc, by simp [hd, heq]⟩

theorem takeWhile_of_mem {α : Type*} [DecidableEq α] {a : α} {l l' : List α} (h : l <+: l')
    (ha : a ∈ l) : l.takeWhile (· ≠ a) = l'.takeWhile (· ≠ a) := by
  obtain ⟨rest, rfl⟩ := h
  obtain ⟨first, second, rfl, hfirst⟩ := eq_append_cons_of_mem ha
  rw [append_assoc, cons_append, takeWhile_ne_append_cons hfirst, takeWhile_ne_append_cons hfirst]

/-- What is received was read from the first line and the headers behind it. -/
theorem eq_of_receive {raw : Bytes} (h : receive buffered raw = some req) :
    10 ∈ raw.take (min buffered maxHttpHeaderBytes) ∧
      req.path = (nextWord (nextWord (stripCr (raw.takeWhile (· ≠ 10)))).2).1 ∧
      ∀ l ∈ req.headers, 10 ∉ l := by
  have hblank : crlf ++ crlf <:+: raw.take (min buffered maxHttpHeaderBytes) := by
    by_contra hnot
    rw [receive, if_pos hnot] at h
    cases h
  have hmem : 10 ∈ raw.take (min buffered maxHttpHeaderBytes) := hblank.subset (by decide)
  have hline : getLine (raw.take (min buffered maxHttpHeaderBytes)) = some (raw.takeWhile (· ≠ 10),
        ((raw.take (min buffered maxHttpHeaderBytes)).dropWhile (· ≠ 10)).drop 1) := by
    rw [getLine, if_neg (ne_nil_of_mem hmem), takeWhile_of_mem ( take_prefix _ _) hmem]
  simp only [receive, hblank, not_true_eq_false, if_false, hline, Option.getD_some] at h
  split at h
  · cases h
  · obtain rfl := Option.some.inj h
    exact ⟨hmem, rfl, not_mem_of_mem_readHeaders _ _⟩

/-- The path is read up to the first blank in it. -/
theorem path_of_receive (hmethod : ∀ c ∈ method, isSpace c = false)
    (hmethodNe : method ≠ []) (hpath : path.takeWhile (fun c => !isSpace c) ≠ [])
    (h : receive buffered (formatHttpRequest method path host body) = some req) :
    req.path = path.takeWhile fun c => !isSpace c := by
  obtain ⟨tail, htail⟩ : ∃ tail, formatHttpRequest method path host body =
      method ++ [32] ++ (path ++ 32 :: tail) := by
    refine ⟨asciiBytes "HTTP/1.1\r\nHost: " ++ host ++ asciiBytes "\r\nConnection: close\r\n" ++
      (if body = [] then []
        else asciiBytes "Content-Length: " ++ toDecimal body.length ++ asciiBytes "\r\n") ++
      asciiBytes "\r\n" ++ body, ?_⟩
    simp [formatHttpRequest, show asciiBytes " " = [32] from rfl,
      show asciiBytes " HTTP/1.1\r\nHost: " = 32 :: asciiBytes "HTTP/1.1\r\nHost: " from rfl]
  obtain ⟨c, rest, hc, hblank⟩ := exists_blank_after path tail
  have hwordPlain : ∀ d ∈ path.takeWhile (fun c => !isSpace c), isSpace d = false := fun d hd => by
    simpa using mem_takeWhile_imp hd
  generalize path.takeWhile (fun c => !isSpace c) = word at hpath hblank hwordPlain ⊢
  have hbegun : ∀ d ∈ method ++ [32] ++ word, d ≠ 10 ∧ d ≠ 13 := by
    grind [isSpace]
  have hline : (formatHttpRequest method path host body).takeWhile (· ≠ 10) =
      (method ++ [32] ++ word) ++ (c :: rest).takeWhile (· ≠ 10) := by
    rw [htail, hblank, ← append_assoc,
      takeWhile_append_of_pos fun d hd => decide_eq_true (hbegun d hd).1]
  obtain ⟨rest', hstrip, hrest'⟩ := stripCr_append ((c :: rest).takeWhile (· ≠ 10))
    fun d hd => (hbegun d hd).2
  have hspace : ∀ d, rest'.head? = some d → isSpace d = true := by
    intro d hd
    cases rest' with
    | nil => cases hd
    | cons e rest' =>
      obtain ⟨more, hmore⟩ := hrest'.trans ( takeWhile_prefix _)
      obtain rfl : e = d := Option.some.inj hd
      rwa [(List.cons.inj hmore).1]
  have hfirst : nextWord (method ++ [32] ++ word ++ rest') = (method, [32] ++ word ++ rest') := by
    have hnext := nextWord_append (forall_mem_nil _) hmethod hmethodNe
      ([32] ++ word ++ rest') (by rintro d ⟨⟩; rfl)
    simpa using hnext
  have hsecond : nextWord ([32] ++ word ++ rest') = (word, rest') :=
    nextWord_append (by decide) hwordPlain hpath rest' hspace
  rw [(eq_of_receive h).2.1, hline, hstrip, hfirst, hsecond]

end Receive

end Arqma.Storage
