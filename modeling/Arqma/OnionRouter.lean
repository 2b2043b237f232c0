import Arqma.GossipRound

/-!
# The onion router

A `POST /v1/store` carries a layer of an onion. The router peels it and sends what is inside
either to the next hop, if there is one, or to its storage server. It writes a new path from the
parameters that it has read: the namespace, the key and the token are encoded again, the `ttl` is
appended as it was decoded.
-/
namespace Arqma.Storage

variable {req : HttpRequest} {params : List (Bytes × Bytes)} {p : Bytes × Bytes} {out : Outgoing}
  {buffered : ℕ}

/-! ## Endpoints -/

/-- The part of an endpoint that a connection uses. -/
structure Endpoint where
  tls : Bool := false
  host : Bytes := []
  port : UInt16 := 0
deriving DecidableEq

/-- `operator bool`. -/
def Endpoint.ok (e : Endpoint) : Bool := e.host ≠ [] && e.port ≠ 0

def parsePortDigits (raw : Bytes) : Option UInt16 :=
  if raw = [] ∨ 5 < raw.length then none
  else if raw.any fun c => !(48 ≤ c && c ≤ 57) then none
  else if 65535 < digitsValue raw then none
  else some (UInt16.ofNat (digitsValue raw))

def parseHostPort (hostport : Bytes) (defaultPort : UInt16) (requirePort : Bool) :
    Option (Bytes × UInt16) :=
  if hostport = [] ∨ 32 ∈ hostport then none
  else if hostport.head? = some 91 then
    -- an address in square brackets
    let close := hostport.idxOf 93
    let host := (hostport.take close).drop 1
    if 93 ∉ hostport ∨ close < 2 then none
    else if close + 1 = hostport.length then
      if requirePort then none else some (host, defaultPort)
    else if hostport[close + 1]? ≠ some 58 then none
    else (parsePortDigits (hostport.drop (close + 2))).map fun port => (host, port)
  else if 58 ∉ hostport then
    if requirePort then none else some (hostport, defaultPort)
  else
    let host := (hostport.rdropWhile (· ≠ 58)).dropLast
    if host = [] then none
    else (parsePortDigits (hostport.rtakeWhile (· ≠ 58))).map fun port => (host, port)

/-- The endpoint of a URL, without a host if there is none. -/
def parseEndpoint (url : Bytes) : Endpoint :=
  let scheme : Option (Bool × Bytes) :=
    if asciiBytes "https://" <+: url then some (true, url.drop 8)
    else if asciiBytes "http://" <+: url then some (false, url.drop 7)
    else none
  match scheme with
  | none => {}
  | some (tls, rest) =>
    match parseHostPort (rest.takeWhile (· ≠ 47)) (if tls then 443 else 80) false with
    | none => {}
    | some (host, port) =>
      if host = [] ∨ host = asciiBytes "." ∨ 47 ∈ host then {} else ⟨tls, host, port⟩

def formatHttpAuthority (host : Bytes) (port : UInt16) : Bytes :=
  if 58 ∈ host then asciiBytes "[" ++ host ++ asciiBytes "]:" ++ toDecimal port.toNat
  else host ++ asciiBytes ":" ++ toDecimal port.toNat

/-- A hop is the router's own machine or that of its storage server. -/
def hopHostAllowed (nextUrl storageUrl : Bytes) : Bool :=
  let next := parseEndpoint nextUrl
  let storage := parseEndpoint storageUrl
  next.ok && !next.tls &&
    (next.host = asciiBytes "127.0.0.1" || next.host = asciiBytes "::1" ||
      next.host = asciiBytes "localhost" || (storage.ok && storage.host = next.host))

end Arqma.Storage

namespace Arqma.Onion
open Arqma.Storage

/-! ## The handler -/

def maxForwardUrlBytes : ℕ := 256
def hopCount : ℕ := 3

/-- The address of the next hop and the layer for it. -/
def decodeOnionForward (raw : Bytes) : Option (Bytes × Bytes) :=
  let n := readLe ((raw.drop 4).take 2)
  if raw.length < 8 ∨ raw.take 4 ≠ asciiBytes "ARQH" then none
  else if n = 0 ∨ maxForwardUrlBytes < n ∨ raw.length < 6 + n + 1 then none
  else some ((raw.drop 6).take n, raw.drop (6 + n))

structure Router where
  publicKey : Bytes
  /-- `peel_onion_layer` with the identity of the router. -/
  peelOnionLayer : Bytes → Option Bytes
  storageUrl : Bytes := []
  token : Bytes := []

inductive RouterResponse
  | ok (contentType body : Bytes)
  | noContent
  | badRequest
  | unauthorized
  | notFound
  | badGateway
  | serviceUnavailable
deriving DecidableEq

/-- A request of the router's own. -/
structure Outgoing where
  endpoint : Endpoint
  method : Bytes
  path : Bytes
  body : Bytes
deriving DecidableEq

def Outgoing.host (out : Outgoing) : Bytes :=
  formatHttpAuthority out.endpoint.host out.endpoint.port

/-- What `http_exchange` writes to the connection. -/
def Outgoing.raw (out : Outgoing) : Bytes :=
  formatHttpRequest out.method out.path out.host out.body

def withTtl (path ttl : Bytes) : Bytes :=
  if ttl = [] then path else path ++ asciiBytes "&ttl=" ++ ttl

def fwdPath (ns key ttl : Bytes) (fwd : ℕ) : Bytes :=
  withTtl (asciiBytes "/v1/store?ns=" ++ urlEncode ns ++ asciiBytes "&key=" ++ urlEncode key ++
    asciiBytes "&fwd=" ++ toDecimal (fwd + 1)) ttl

/-- The `fwd` parameter as a number. -/
def fwdOf (query : Bytes) : ℕ :=
  let fwdRaw := queryGet query (asciiBytes "fwd")
  if fwdRaw = [] then 0 else (strtoul fwdRaw).toNat

namespace Router

def peel (r : Router) (body : Bytes) : Option Bytes :=
  if body = [] ∨ r.publicKey.all (· = 0) then none else r.peelOnionLayer body

/-- `/v1/store` up to the exchange. -/
def store (r : Router) (query body : Bytes) : Except RouterResponse Outgoing :=
  let ns := queryGet query (asciiBytes "ns")
  let key := queryGet query (asciiBytes "key")
  let ttl := queryGet query (asciiBytes "ttl")
  if ns = [] ∨ key = [] then .error .badRequest
  else
    match r.peel body with
    | none => .error .badRequest
    | some inner =>
      let fwd := fwdOf query
      if hopCount ≤ fwd then .error .badRequest
      else
        match decodeOnionForward inner with
        | some (nextUrl, rest) =>
          let next := parseEndpoint nextUrl
          if hopCount ≤ fwd + 1 then .error .badRequest
          else if !next.ok || next.tls || !hopHostAllowed nextUrl r.storageUrl then
            .error .badRequest
          else .ok ⟨next, asciiBytes "POST", withToken (fwdPath ns key ttl fwd) r.token, rest⟩
        | none =>
          if r.storageUrl = [] then .error .serviceUnavailable
          else
            .ok ⟨parseEndpoint r.storageUrl, asciiBytes "PUT",
              withToken (withTtl (kvPath ns key) ttl) r.token, inner⟩

def tokenOk (r : Router) (query : Bytes) : Bool :=
  r.token = [] || queryGet query (asciiBytes "token") = r.token

/-- `handle_http`: the response and the request that is sent, if one is. Whether an exchange
succeeds is left to `exchange`. -/
def handleHttp (r : Router) (exchange : Outgoing → Bool) (req : HttpRequest) :
    RouterResponse × Option Outgoing :=
  let route := pathOnly req.path
  let query := pathQuery req.path
  if req.method = asciiBytes "GET" ∧ (route = asciiBytes "/" ∨ route = asciiBytes "/status") then
    (.ok (asciiBytes "text/plain") (asciiBytes "arqma-router"), none)
  else if req.method = asciiBytes "GET" ∧ route = asciiBytes "/v1/pubkey" then
    (.ok (asciiBytes "text/plain") (r.publicKey.flatMap hexByte), none)
  else if !r.tokenOk query then (.unauthorized, none)
  else if req.method = asciiBytes "POST" ∧ route = asciiBytes "/v1/peel" then
    match r.peel req.body with
    | none => (.badRequest, none)
    | some inner => (.ok (asciiBytes "application/octet-stream") inner, none)
  else if req.method = asciiBytes "POST" ∧ route = asciiBytes "/v1/store" then
    match r.store query req.body with
    | .error response => (response, none)
    | .ok out =>
      -- `http_exchange` does not connect without an endpoint or with TLS
      if !out.endpoint.ok || out.endpoint.tls then (.badGateway, none)
      else (if exchange out then .noContent else .badGateway, some out)
  else (.notFound, none)

end Router
/-! ## The parameters that are sent -/

/-- The `ttl` as a parameter, if there is one. -/
def ttlPair (ttl : Bytes) : List (Bytes × Bytes) :=
  if ttl = [] then [] else [(asciiBytes "ttl", ttl)]

/-- A text that stays what it is in a query: it neither ends a parameter nor the path, and
decoding leaves it alone. -/
structure PlainTtl (ttl : Bytes) : Prop where
  no_ampersand : 38 ∉ ttl
  no_blank : ∀ c ∈ ttl, isSpace c = false
  decoded : urlDecode ttl = ttl

section Paths

variable {base : Bytes} {pre : List (Bytes × Bytes)} (ttl token : Bytes)

/-- The query that is sent: encoded parameters around the bare `ttl`. -/
def sentQuery (pre : List (Bytes × Bytes)) (ttl token : Bytes) : List (Bytes × Bytes) :=
  encodeParams pre ++ ttlPair ttl ++ encodeParams (tokenParam token)

theorem withTtl_pathWith (hpre : pre ≠ []) : withTtl (pathWith base pre) ttl =
      base ++ 63 :: joinQuery (encodeParams pre ++ ttlPair ttl) := by
  have hencoded : encodeParams pre ≠ [] := by simpa [encodeParams] using hpre
  rw [withTtl, ttlPair]
  split_ifs
  · rw [List.append_nil, pathWith]
  · rw [joinQuery_append hencoded, pathWith]
    simp [show asciiBytes "&ttl=" = 38 :: (asciiBytes "ttl" ++ [61]) from rfl]

theorem sentPath_eq (hpre : pre ≠ []) : withToken (withTtl (pathWith base pre) ttl) token =
      base ++ 63 :: joinQuery (sentQuery pre ttl token) := by
  have hencoded : encodeParams pre ++ ttlPair ttl ≠ [] := by simp [encodeParams, hpre]
  rw [withTtl_pathWith ttl hpre, withToken, sentQuery, tokenParam]
  split_ifs with htoken hquery
  · simp [encodeParams]
  · have hpair : encodeParams [(asciiBytes "token", token)] =
        [(asciiBytes "token", urlEncode token)] := rfl
    rw [hpair, joinQuery_append hencoded]
    simp [show asciiBytes "&" = [38] from rfl,
      show asciiBytes "token=" = asciiBytes "token" ++ [61] from rfl]
  · simp at hquery

theorem decode_encodeParams
    (hname : ∀ p ∈ params, ∀ c ∈ p.1, asciiUnreserved c = true) :
    (encodeParams params).map (fun p => (urlDecode p.1, urlDecode p.2)) = params := by
  rw [encodeParams, List.map_map]
  refine (List.map_congr_left fun p hp => ?_).trans (List.map_id params)
  simp [urlDecode_of_unreserved (hname p hp), urlDecode_urlEncode]

theorem plain_of_mem_encodeParams
    (hname : ∀ p ∈ params, ∀ c ∈ p.1, asciiUnreserved c = true)
    (hp : p ∈ encodeParams params) : (38 ∉ p.1 ∧ 61 ∉ p.1) ∧ 38 ∉ p.2 := by
  obtain ⟨q, hq, rfl⟩ := List.mem_map.mp hp
  grind [asciiUnreserved, not_mem_urlEncode]

variable {ttl}

theorem eq_of_mem_ttlPair (hp : p ∈ ttlPair ttl) : p = (asciiBytes "ttl", ttl) := by
  rw [ttlPair] at hp
  split_ifs at hp
  · simp at hp
  · exact List.mem_singleton.mp hp

/-- With a plain `ttl` the parameters are read as they were meant. -/
theorem PlainTtl.queryPairs_sentQuery (h : PlainTtl ttl) (hpre : Params pre) :
    queryPairs (joinQuery (sentQuery pre ttl token)) = pre ++ ttlPair ttl ++ tokenParam token := by
  have hne : sentQuery pre ttl token ≠ [] := by simp [sentQuery, encodeParams, hpre.some]
  have hplain : ∀ p ∈ sentQuery pre ttl token, (38 ∉ p.1 ∧ 61 ∉ p.1) ∧ 38 ∉ p.2 := by
    intro p hp
    rw [sentQuery, List.mem_append, List.mem_append] at hp
    rcases hp with (hp | hp) | hp
    · exact plain_of_mem_encodeParams hpre.unreserved hp
    · rw [eq_of_mem_ttlPair hp]
      exact ⟨(by decide : 38 ∉ asciiBytes "ttl" ∧ 61 ∉ asciiBytes "ttl"), h.no_ampersand⟩
    · exact plain_of_mem_encodeParams (unreserved_tokenParam token) hp
  have httl : (ttlPair ttl).map (fun p => (urlDecode p.1, urlDecode p.2)) = ttlPair ttl := by
    refine (List.map_congr_left fun p hp => ?_).trans (List.map_id _)
    rw [eq_of_mem_ttlPair hp]
    exact Prod.ext (by rfl) h.decoded
  rw [queryPairs_joinQuery hne (fun p hp => (hplain p hp).1) (fun p hp => (hplain p hp).2),
    sentQuery, List.map_append, List.map_append, decode_encodeParams hpre.unreserved, httl,
    decode_encodeParams (unreserved_tokenParam token)]

theorem PlainTtl.no_blank_sentQuery (h : PlainTtl ttl) (hpre : Params pre) {c : UInt8}
    (hc : c ∈ joinQuery (sentQuery pre ttl token)) : isSpace c = false := by
  have hencoded : ∀ {params : List (Bytes × Bytes)},
      (∀ p ∈ params, ∀ c ∈ p.1, asciiUnreserved c = true) → ∀ q ∈ encodeParams params,
        c ∈ q.1 ∨ c ∈ q.2 → isSpace c = false := by
    rintro params hname q hq hmem
    obtain ⟨p, hp, rfl⟩ := List.mem_map.mp hq
    rcases hmem with hmem | hmem
    · exact not_isSpace_of_unreserved (hname p hp c hmem)
    · rcases asciiUnreserved_of_mem_urlEncode hmem with hmem | rfl
      · exact not_isSpace_of_unreserved hmem
      · rfl
  rcases mem_joinQuery hc with rfl | rfl | ⟨q, hq, hmem⟩
  · rfl
  · rfl
  · rw [sentQuery, List.mem_append, List.mem_append] at hq
    rcases hq with (hq | hq) | hq
    · exact hencoded hpre.unreserved q hq hmem
    · rw [eq_of_mem_ttlPair hq] at hmem
      rcases hmem with hmem | hmem
      · exact (by decide : ∀ c ∈ asciiBytes "ttl", isSpace c = false) c hmem
      · exact h.no_blank c hmem
    · exact hencoded (unreserved_tokenParam token) q hq hmem

theorem queryPairs_append_cons (query query' : Bytes) :
    queryPairs (query ++ 38 :: query') = queryPairs query ++ queryPairs query' := by
  rw [queryPairs, List.splitOn_append_cons_self, List.map_append]
  rfl

/-- The first parameter of a query. -/
theorem head?_queryPairs {name : Bytes} (hname : 38 ∉ name ∧ 61 ∉ name) (value : Bytes) :
    (queryPairs (name ++ 61 :: value)).head? =
      some (urlDecode name, urlDecode (value.takeWhile (· ≠ 38))) := by
  have hfirst : ∀ first : Bytes, 38 ∉ first → ∀ rest, rest = [] ∨ rest.head? = some 38 →
      (queryPairs (name ++ 61 :: (first ++ rest))).head? =
        some (urlDecode name, urlDecode first) := by
    intro first hfirst rest hrest
    have hpair : 38 ∉ name ++ 61 :: first := by simp [hname.1, hfirst]
    have hsplit : ((name ++ 61 :: (first ++ rest)).splitOn 38).head? =
        some (name ++ 61 :: first) := by
      rcases hrest with rfl | hrest
      · rw [List.append_nil, List.splitOn_eq_singleton hpair]
        rfl
      · obtain ⟨rest', rfl⟩ := List.head?_eq_some_iff.mp hrest
        rw [← List.cons_append, ← List.append_assoc, List.splitOn_append_cons_self_of_not_mem hpair]
        rfl
    rw [queryPairs, List.head?_map, hsplit, Option.map_some,
      takeWhile_ne_append_cons hname.2, dropWhile_ne_append_cons hname.2, List.drop_one,
      List.tail_cons]
  have hvalue := List.takeWhile_append_dropWhile (p := fun c => decide (c ≠ (38 : UInt8)))
    (l := value)
  rw [← hfirst (value.takeWhile (· ≠ 38)) (fun hc => by simpa using List.mem_takeWhile_imp hc)
    (value.dropWhile (· ≠ 38)) ?_, hvalue]
  cases hdrop : value.dropWhile (· ≠ 38) with
  | nil => exact Or.inl rfl
  | cons c rest =>
    have hhead := List.head?_dropWhile_not (fun c => decide (c ≠ (38 : UInt8))) value
    rw [hdrop] at hhead
    right
    simpa using hhead

/-- If the parameters are read as they were meant, the `ttl` is plain. -/
theorem plainTtl_of_queryPairs (hpre : Params pre) (hbase : ∀ c ∈ base, isSpace c = false)
    (hquery : 63 ∉ base)
    (h : queryPairs (pathQuery ((withToken (withTtl (pathWith base pre) ttl) token).takeWhile
      fun c => !isSpace c)) = pre ++ ttlPair ttl ++ tokenParam token) :
    PlainTtl ttl := by
  by_cases hempty : ttl = []
  · subst hempty
    exact ⟨by simp, by simp, rfl⟩
  -- behind the first parameters comes the `ttl` and then, if at all, an ampersand
  obtain ⟨rest, hrest, hpath⟩ : ∃ rest : Bytes, (rest = [] ∨ rest.head? = some 38) ∧
      withToken (withTtl (pathWith base pre) ttl) token =
        pathWith base pre ++ 38 :: asciiBytes "ttl" ++ [61] ++ (ttl ++ rest) := by
    rw [withTtl, if_neg hempty, withToken]
    split_ifs with htoken hmark
    · exact ⟨[], Or.inl rfl, by simp [show asciiBytes "&ttl=" =
        38 :: (asciiBytes "ttl" ++ [61]) from rfl]⟩
    · exact ⟨38 :: (asciiBytes "token=" ++ urlEncode token), Or.inr rfl, by
        simp [show asciiBytes "&ttl=" = 38 :: (asciiBytes "ttl" ++ [61]) from rfl,
          show asciiBytes "&" = [38] from rfl]⟩
    · simp [pathWith] at hmark
  have hbegun : ∀ c ∈ pathWith base pre ++ 38 :: asciiBytes "ttl" ++ [61], (!isSpace c) = true := by
    intro c hc
    rw [List.append_assoc, List.mem_append] at hc
    rcases hc with hc | hc
    · rw [not_isSpace_of_mem_pathWith hbase hpre.unreserved hc]
      rfl
    · exact (by decide : ∀ c ∈ 38 :: asciiBytes "ttl" ++ [61], (!isSpace c) = true) c hc
  set read := (ttl ++ rest).takeWhile fun c => !isSpace c with hread
  have hqueryRead : pathQuery (pathWith base pre ++ 38 :: asciiBytes "ttl" ++ [61] ++ read) =
      joinQuery (encodeParams pre) ++ 38 :: (asciiBytes "ttl" ++ 61 :: read) := by
    rw [pathQuery, pathWith, List.append_assoc, List.append_assoc, List.append_assoc,
      List.cons_append, dropWhile_ne_append_cons hquery]
    simp
  rw [hpath, List.takeWhile_append_of_pos hbegun, ← hread, hqueryRead, queryPairs_append_cons,
    queryPairs_encodeParams hpre.some hpre.unreserved, List.append_assoc,
    List.append_cancel_left_eq, ttlPair, if_neg hempty] at h
  have hhead := congrArg List.head? h
  rw [head?_queryPairs (by decide)] at hhead
  have hvalue : urlDecode (read.takeWhile (· ≠ 38)) = ttl := (Prod.mk.inj (Option.some.inj hhead)).2
  -- what is read as the `ttl` begins like it and is not shorter
  have hno : 38 ∉ read.takeWhile (· ≠ 38) := fun hc => by simpa using List.mem_takeWhile_imp hc
  have hbegins : read.takeWhile (· ≠ 38) <+: ttl ++ rest :=
    (List.takeWhile_prefix _).trans (List.takeWhile_prefix _)
  have hlength := length_urlDecode_le (read.takeWhile (· ≠ 38))
  rw [hvalue] at hlength
  have hwithin : ttl <+: read.takeWhile (· ≠ 38) :=
    List.prefix_of_prefix_length_le (List.prefix_append ttl rest) hbegins hlength
  have heq : read.takeWhile (· ≠ 38) = ttl := by
    obtain ⟨more, hmore⟩ := hwithin
    cases more with
    | nil => rw [← hmore, List.append_nil]
    | cons c more =>
      rw [← hmore] at hbegins hno
      have hc := (List.prefix_append_right_inj ttl).mp hbegins
      obtain ⟨further, rfl⟩ := hc
      rcases hrest with hrest | hrest
      · cases hrest
      · obtain rfl : c = 38 := Option.some.inj hrest
        exact absurd (by simp) hno
  refine ⟨heq ▸ hno, fun c hc => ?_, ?_⟩ <;> grind [List.mem_takeWhile_imp]

end Paths

/-! ## Faithful forwarding -/

/-- The parameters apart from the `ttl` and the token. -/
def leadingParams (query : Bytes) (hop : Bool) : List (Bytes × Bytes) :=
  [(asciiBytes "ns", queryGet query (asciiBytes "ns")),
    (asciiBytes "key", queryGet query (asciiBytes "key"))] ++
  (if hop then [(asciiBytes "fwd", toDecimal (fwdOf query + 1))] else [])

/-- The parameters that a request to `/v1/store` stands for: those of the request itself, the
`fwd` increased for the next hop, and the token of the router. -/
def meantParams (query token : Bytes) (hop : Bool) : List (Bytes × Bytes) :=
  leadingParams query hop ++ ttlPair (queryGet query (asciiBytes "ttl")) ++ tokenParam token

/-- The request goes to the next hop. -/
def Outgoing.toHop (out : Outgoing) : Bool := out.method = asciiBytes "POST"

/-- The receiver reads what was meant, with no other parameter or header. -/
structure ReadAsMeant (token query : Bytes) (out : Outgoing) (req : HttpRequest) : Prop where
  method : req.method = out.method
  route : pathOnly req.path = asciiBytes (if out.toHop then "/v1/store" else "/v1/kv")
  params : queryPairs (pathQuery req.path) = meantParams query token out.toHop
  headers : req.headers = requestHeaders out.host out.body
  body : req.body = out.body

/-- What the router sends. -/
structure Sent (token query : Bytes) (out : Outgoing) : Prop where
  method : out.method = asciiBytes "POST" ∨ out.method = asciiBytes "PUT"
  path : out.path = withToken (withTtl
    (pathWith (asciiBytes (if out.toHop then "/v1/store" else "/v1/kv"))
      (leadingParams query out.toHop)) (queryGet query (asciiBytes "ttl"))) token

theorem params_leading (query : Bytes) (hop : Bool) : Params (leadingParams query hop) where
  some := List.cons_ne_nil _ _
  unreserved := by
    intro p hp
    have hnames : p.1 = asciiBytes "ns" ∨ p.1 = asciiBytes "key" ∨ p.1 = asciiBytes "fwd" := by
      grind [leadingParams]
    rcases hnames with hname | hname | hname
    · rw [hname]
      exact (by decide : ∀ c ∈ asciiBytes "ns", asciiUnreserved c = true)
    · rw [hname]
      exact (by decide : ∀ c ∈ asciiBytes "key", asciiUnreserved c = true)
    · rw [hname]
      exact (by decide : ∀ c ∈ asciiBytes "fwd", asciiUnreserved c = true)
  no_token := by cases hop <;> rfl

theorem fwdPath_eq (query ttl : Bytes) :
    fwdPath (queryGet query (asciiBytes "ns")) (queryGet query (asciiBytes "key")) ttl
      (fwdOf query) =
        withTtl (pathWith (asciiBytes "/v1/store") (leadingParams query true)) ttl := by
  have hleading : leadingParams query true = [(asciiBytes "ns", queryGet query (asciiBytes "ns")),
      (asciiBytes "key", queryGet query (asciiBytes "key"))] ++
      [(asciiBytes "fwd", toDecimal (fwdOf query + 1))] := rfl
  rw [fwdPath, hleading, pathWith_append (by simp),
    urlEncode_of_unreserved fun c hc => asciiUnreserved_of_mem_toDecimal hc]
  simp [pathWith, encodeParams, joinQuery, List.intercalate,
    show asciiBytes "/v1/store?ns=" = asciiBytes "/v1/store" ++ 63 :: (asciiBytes "ns" ++ [61])
      from rfl,
    show asciiBytes "&key=" = 38 :: (asciiBytes "key" ++ [61]) from rfl,
    show asciiBytes "&fwd=" = 38 :: (asciiBytes "fwd" ++ [61]) from rfl]

theorem sent_of_store {r : Router} {query body : Bytes}
    (h : r.store query body = .ok out) : Sent r.token query out := by
  unfold Router.store at h
  dsimp only at h
  split at h
  · cases h
  split at h
  · cases h
  split at h
  · cases h
  split at h
  · split at h
    · cases h
    split at h
    · cases h
    obtain rfl := Except.ok.inj h
    refine ⟨Or.inl rfl, ?_⟩
    rw [fwdPath_eq]
    rfl
  · split at h
    · cases h
    obtain rfl := Except.ok.inj h
    refine ⟨Or.inr rfl, ?_⟩
    rw [kvPath_eq]
    rfl

theorem sent_of_handleHttp {r : Router} {exchange : Outgoing → Bool}
    (h : (r.handleHttp exchange req).2 = some out) :
    Sent r.token (pathQuery req.path) out := by
  unfold Router.handleHttp at h
  grind [sent_of_store]

section Receivers

variable {token query : Bytes} {out : Outgoing}

theorem Sent.method_plain (h : Sent token query out) :
    (∀ c ∈ out.method, isSpace c = false) ∧ out.method ≠ [] := by
  rcases h.method with hmethod | hmethod <;> rw [hmethod] <;> decide

theorem base_plain (hop : Bool) :
    (∀ c ∈ asciiBytes (if hop then "/v1/store" else "/v1/kv"), isSpace c = false) ∧
      63 ∉ asciiBytes (if hop then "/v1/store" else "/v1/kv") := by
  cases hop <;> decide

/-- With a plain `ttl` and host, whoever receives the request reads what was meant. -/
theorem Sent.readAsMeant (h : Sent token query out)
    (httl : PlainTtl (queryGet query (asciiBytes "ttl"))) (hhost : 10 ∉ out.host)
    (hreceive : receive buffered out.raw = some req) :
    ReadAsMeant token query out req := by
  have hpre := params_leading query out.toHop
  obtain ⟨hbase, hmark⟩ := base_plain out.toHop
  have hpath := h.path.trans (sentPath_eq _ _ hpre.some)
  have hplain : ∀ c ∈ out.path, isSpace c = false := by
    intro c hc
    rw [hpath, List.mem_append, List.mem_cons] at hc
    rcases hc with hc | rfl | hc
    · exact hbase c hc
    · rfl
    · exact httl.no_blank_sentQuery token hpre hc
  rcases receive_eq_none_or buffered out.body h.method_plain.1 h.method_plain.2 hplain
    (by simp [hpath]) hhost with hnone | hsome
  · rw [Outgoing.raw, hnone] at hreceive
    cases hreceive
  · rw [Outgoing.raw, hsome] at hreceive
    obtain rfl := Option.some.inj hreceive
    refine ⟨rfl, ?_, ?_, rfl, rfl⟩
    · rw [hpath]
      exact takeWhile_ne_append_cons hmark _
    · rw [hpath, pathQuery, dropWhile_ne_append_cons hmark, List.drop_one, List.tail_cons,
        httl.queryPairs_sentQuery token hpre]
      rfl

/-- Whoever reads what was meant has received a plain `ttl` and host. -/
theorem Sent.plain_of_readAsMeant (h : Sent token query out)
    (hreceive : receive buffered out.raw = some req) (hread : ReadAsMeant token query out req) :
    PlainTtl (queryGet query (asciiBytes "ttl")) ∧ 10 ∉ out.host := by
  have hpre := params_leading query out.toHop
  obtain ⟨hbase, hmark⟩ := base_plain out.toHop
  constructor
  · have hbegins : out.path.takeWhile (fun c => !isSpace c) ≠ [] := by
      rw [h.path, sentPath_eq _ _ hpre.some]
      cases out.toHop <;> simp [asciiBytes, isSpace]
    have hpath := path_of_receive h.method_plain.1 h.method_plain.2 hbegins hreceive
    have hparams := hread.params
    rw [hpath, h.path] at hparams
    exact plainTtl_of_queryPairs token hpre hbase hmark hparams
  · have hline := (eq_of_receive hreceive).2.2 (asciiBytes "Host: " ++ out.host)
      (by rw [hread.headers]; simp [requestHeaders])
    exact fun hmem => hline (List.mem_append_right _ hmem)

end Receivers

/-- What the router sends is always read as it was meant, exactly if the `ttl` that it has read
and its own host header are plain, unless nobody ever receives the request. -/
theorem forwarding_faithful_iff (r : Router) (exchange : Outgoing → Bool) (req : HttpRequest)
    (out : Outgoing) (h : (r.handleHttp exchange req).2 = some out) :
    (∀ buffered received, receive buffered out.raw = some received →
      ReadAsMeant r.token (pathQuery req.path) out received) ↔
    ((∃ buffered received, receive buffered out.raw = some received) →
      PlainTtl (queryGet (pathQuery req.path) (asciiBytes "ttl")) ∧ 10 ∉ out.host) := by
  have hsent := sent_of_handleHttp h
  constructor
  · rintro hread ⟨buffered, received, hreceive⟩
    exact hsent.plain_of_readAsMeant hreceive (hread buffered received hreceive)
  · intro hplain buffered received hreceive
    obtain ⟨httl, hhost⟩ := hplain ⟨buffered, received, hreceive⟩
    exact hsent.readAsMeant httl hhost hreceive

section Sample

def sampleRouter : Router where
  publicKey := [1]
  peelOnionLayer body := some body
  storageUrl := asciiBytes "http://127.0.0.1:22021"
  token := asciiBytes "secret"

def storeRequest (ttl : String) : HttpRequest where
  method := asciiBytes "POST"
  path := asciiBytes "/v1/store?ns=n&key=k&token=secret&ttl=" ++ asciiBytes ttl
  headers := []
  body := [7]

def samplePut (path : String) : Outgoing :=
  ⟨⟨false, asciiBytes "127.0.0.1", 22021⟩, asciiBytes "PUT", asciiBytes path, [7]⟩

theorem plain_ttl_forwarded :
    (sampleRouter.handleHttp (fun _ => true) (storeRequest "60")).2 =
      some (samplePut "/v1/kv?ns=n&key=k&ttl=60&token=secret") ∧
    ∀ buffered received,
      receive buffered (samplePut "/v1/kv?ns=n&key=k&ttl=60&token=secret").raw = some received →
      ReadAsMeant sampleRouter.token (pathQuery (storeRequest "60").path)
        (samplePut "/v1/kv?ns=n&key=k&ttl=60&token=secret") received := by
  have hsent : (sampleRouter.handleHttp (fun _ => true) (storeRequest "60")).2 =
      some (samplePut "/v1/kv?ns=n&key=k&ttl=60&token=secret") := by
    decide
  refine ⟨hsent, (forwarding_faithful_iff sampleRouter (fun _ => true) (storeRequest "60") _
    hsent).mpr fun _ => ⟨⟨by decide, by decide, by decide⟩,
      by decide⟩⟩

/-- What the receiver reads when the router has taken a request. -/
def readByReceiver (req : HttpRequest) : Option HttpRequest :=
  (sampleRouter.handleHttp (fun _ => true) req).2.bind fun out => receive out.raw.length out.raw

/-- A `ttl` with an encoded ampersand adds a parameter, one with an encoded line end a header. -/
theorem ttl_injects :
    (queryGet (pathQuery (storeRequest "60%26replicate%3D0").path) (asciiBytes "replicate") = [] ∧
      (readByReceiver (storeRequest "60%26replicate%3D0")).map
        (fun received => queryGet (pathQuery received.path) (asciiBytes "replicate")) =
          some (asciiBytes "0")) ∧
    (readByReceiver (storeRequest "60%20HTTP/1.1%0D%0AX-Added:%20yes%0D%0A")).map
      (fun received => received.headers.head?) = some (some (asciiBytes "X-Added: yes")) := by
  refine ⟨⟨?_, ?_⟩, ?_⟩
  · decide
  · decide +kernel
  · decide +kernel

end Sample
end Arqma.Onion
