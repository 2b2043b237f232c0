import Mathlib.Data.List.DropRight
import Arqma.AssocMap
import Arqma.StorageServer

/-!
# Gossip between storage servers

A server asks a peer for the digests of a namespace, asks for the values whose digests differ
from its own and takes them over, and sends the values that the peer did not list. Digests,
wishes and values travel in bodies made of lines, with keys written as they are. A reply to
the wishes ends when it has reached half a megabyte.
-/
namespace Arqma.Storage
open Arqma.Cryptonote List

variable {entries : List (Name × Stored)}

/-! ## Digests -/

def fnv1a64 (raw : Bytes) (seed : UInt64) : UInt64 :=
  raw.foldl (fun seed c => (seed ^^^ c.toUInt64) * 1099511628211) seed

def hexByte (v : UInt8) : Bytes := [hexNibble (v >>> 4), hexNibble (v &&& 15)]

/-- Sixteen hexadecimal digits. -/
def entryDigestHex (key value : Bytes) (expiry : UInt64) : Bytes :=
  let h := fnv1a64 (key ++ [0] ++ value ++ wordBytes expiry) 14695981039346656037
  (List.range 8).flatMap fun i => hexByte (h >>> (8 * (7 - i)).toUInt64).toUInt8

def digestOf (entry : Name × Stored) : Bytes :=
  entryDigestHex entry.1 entry.2.value entry.2.expiry

def bodyLines (body : Bytes) : List Bytes := (body.splitOn 10).filter fun line => line ≠ []

/-- A line with a key and its digest behind the last blank. -/
def parseDigestLine (line : Bytes) : Option (Name × Bytes) :=
  if 32 ∈ line ∧ (line.rtakeWhile (· ≠ 32)).length = 16 then
    some ((line.rdropWhile (· ≠ 32)).dropLast, line.rtakeWhile (· ≠ 32))
  else none

def parseDigestBody (body : Bytes) : List (Name × Bytes) :=
  orderedPairs (emplaceAll ((bodyLines body).filterMap parseDigestLine))

theorem not_mem_of_mem_bodyLines {body line : Bytes} (h : line ∈ bodyLines body) : 10 ∉ line := by
  have hsplit : ∀ n (body : Bytes), body.length ≤ n → ∀ line ∈ body.splitOn 10, 10 ∉ line := by
    intro n
    induction n with
    | zero =>
      intro body hlength line hline
      rw [length_eq_zero_iff.mp (Nat.le_zero.mp hlength)] at hline
      simp_all
    | succ n ih =>
      intro body hlength line hline
      by_cases hmem : 10 ∈ body
      · obtain ⟨first, rest, rfl, hfirst⟩ := eq_append_cons_of_mem hmem
        rw [splitOn_append_cons_self_of_not_mem hfirst] at hline
        grind
      · rw [splitOn_eq_singleton hmem] at hline
        rwa [mem_singleton.mp hline]
  exact hsplit body.length body le_rfl line (mem_filter.mp h).1

/-! ## Frames -/

/-- An entry in a reply to `/v1/sync`. -/
def syncFrame (entry : Name × Stored) : Bytes :=
  asciiBytes "K " ++ entry.1 ++ [10] ++
    (asciiBytes "E " ++ toDecimal entry.2.expiry.toNat ++ [10]) ++
    (asciiBytes "L " ++ toDecimal entry.2.value.length ++ [10]) ++ entry.2.value

/-- A line of a frame has to be ended. -/
def readLine (raw : Bytes) : Option (Bytes × Bytes) := if 10 ∈ raw then getLine raw else none

/-- `apply_sync_frame`: the entry at the front and what comes after it. -/
def readFrame (raw : Bytes) : Option ((Name × Stored) × Bytes) := do
  let (k, raw) ← readLine raw
  let (e, raw) ← readLine raw
  let (l, raw) ← readLine raw
  if ¬(asciiBytes "K " <+: k ∧ asciiBytes "E " <+: e ∧ asciiBytes "L " <+: l) then none
  else
    let len := (strtoul (l.drop 2)).toNat
    if maxHttpBodyBytes < len ∨ raw.length < len then none
    else some ((k.drop 2, ⟨raw.take len, strtoul (e.drop 2)⟩), raw.drop len)

/-- The entries up to the first one that cannot be read. -/
def readFrames : ℕ → Bytes → List (Name × Stored)
  | 0, _ => []
  | fuel + 1, raw =>
    if raw = [] then []
    else
      match readFrame raw with
      | none => []
      | some (entry, rest) => entry :: readFrames fuel rest

theorem readLine_append_cons {line : Bytes} (h : 10 ∉ line) (rest : Bytes) :
    readLine (line ++ 10 :: rest) = some (line, rest) := by
  rw [readLine, if_pos (by simp), getLine_append_cons h]

theorem readFrame_syncFrame_eq {entry : Name × Stored} (hkey : 10 ∉ entry.1) (rest : Bytes) :
    readFrame (syncFrame entry ++ rest) =
      if maxHttpBodyBytes < entry.2.value.length then none else some (entry, rest) := by
  obtain ⟨key, value, expiry⟩ := entry
  have hdecimal : ∀ n, 10 ∉ toDecimal n := fun n =>
    isSpace_not_mem (fun c hc => not_isSpace_of_digit (digit_of_mem_toDecimal hc)) rfl
  have hk : 10 ∉ asciiBytes "K " ++ key := by
    simpa [hkey] using (by decide : (10 : UInt8) ∉ asciiBytes "K ")
  have he : 10 ∉ asciiBytes "E " ++ toDecimal expiry.toNat := by
    simpa [hdecimal] using (by decide : (10 : UInt8) ∉ asciiBytes "E ")
  have hl : 10 ∉ asciiBytes "L " ++ toDecimal value.length := by
    simpa [hdecimal] using (by decide : (10 : UInt8) ∉ asciiBytes "L ")
  have hraw : syncFrame (key, ⟨value, expiry⟩) ++ rest =
      (asciiBytes "K " ++ key) ++ 10 :: ((asciiBytes "E " ++ toDecimal expiry.toNat) ++
        10 :: ((asciiBytes "L " ++ toDecimal value.length) ++ 10 :: (value ++ rest))) := by
    simp [syncFrame]
  have hexpiry : strtoul (toDecimal expiry.toNat) = expiry := by
    rw [← nil_append (toDecimal _), strtoul_toDecimal expiry.toNat_lt (forall_mem_nil _),
      UInt64.ofNat_toNat]
  have hkdrop : (asciiBytes "K " ++ key).drop 2 = key := rfl
  have hedrop : (asciiBytes "E " ++ toDecimal expiry.toNat).drop 2 = toDecimal expiry.toNat := rfl
  have hldrop : (asciiBytes "L " ++ toDecimal value.length).drop 2 = toDecimal value.length := rfl
  rw [hraw, readFrame, readLine_append_cons hk]
  simp only [Option.bind_eq_bind, Option.bind_some, readLine_append_cons he,
    readLine_append_cons hl, prefix_append, and_self, not_true_eq_false, if_false, hkdrop,
    hedrop, hldrop, hexpiry]
  by_cases hvalue : maxHttpBodyBytes < value.length
  · have hlen := lt_strtoul_toDecimal hvalue (by decide) (forall_mem_nil _)
    rw [nil_append] at hlen
    rw [if_pos (Or.inl hlen), if_pos hvalue]
  · have hlength : value.length < 2 ^ 64 := lt_of_le_of_lt (Nat.not_lt.mp hvalue) (by decide)
    have hlen : (strtoul (toDecimal value.length)).toNat = value.length := by
      rw [← nil_append (toDecimal _), strtoul_toDecimal hlength (forall_mem_nil _),
        UInt64.toNat_ofNat_of_lt' hlength]
    simp [hlen]

/-- Nothing but the entries that were written is read. -/
theorem readFrames_within (fuel : ℕ) (h : ∀ e ∈ entries, 10 ∉ e.1) :
    readFrames fuel (entries.flatMap syncFrame) <+: entries := by
  induction fuel generalizing entries with
  | zero => exact nil_prefix
  | succ fuel ih =>
    cases entries with
    | nil => exact nil_prefix
    | cons e entries =>
      grind [readFrames, readFrame_syncFrame_eq]

/-! ## Paths -/

def kvPath (ns key : Name) : Bytes :=
  asciiBytes "/v1/kv?ns=" ++ urlEncode ns ++ asciiBytes "&key=" ++ urlEncode key

def withToken (path token : Bytes) : Bytes :=
  if token = [] then path
  else path ++ asciiBytes (if 63 ∈ path then "&" else "?") ++ asciiBytes "token=" ++ urlEncode token

def digestPath (ns : Name) : Bytes := asciiBytes "/v1/digest?ns=" ++ urlEncode ns
def syncPath (ns : Name) : Bytes := asciiBytes "/v1/sync?ns=" ++ urlEncode ns

/-- The path under which an entry is sent to a peer. -/
def pushPath (now : UInt64) (ns : Name) (entry : Name × Stored) : Bytes :=
  kvPath ns entry.1 ++ asciiBytes "&replicate=0" ++
    (if entry.2.expiry = 0 then []
      else asciiBytes "&ttl=" ++ toDecimal (entry.2.expiry - now).toNat)

def pathOnly (path : Bytes) : Bytes := path.takeWhile (· ≠ 63)
def pathQuery (path : Bytes) : Bytes := (path.dropWhile (· ≠ 63)).drop 1

namespace StorageServer

/-! ## The side that is asked -/

/-- The unexpired entries of a namespace in the order of the map. -/
def liveEntries (s : StorageServer) (now : UInt64) (ns : Name) : List (Name × Stored) :=
  inKeyOrder ((s.values.entries.filter fun e => e.1.1 = ns && !e.2.expired now).map
    fun e => (e.1.2, e.2))

def digestBody (s : StorageServer) (now : UInt64) (ns : Name) : Bytes :=
  (s.liveEntries now ns).flatMap fun entry => entry.1 ++ [32] ++ digestOf entry ++ [10]

def handleDigest (s : StorageServer) (r : KvRequest) : StorageServer × Response :=
  if !properName (namespaceOf r) then (s, .badRequest)
  else
    (((s.values.entries.filter fun e => e.1.1 = namespaceOf r && e.2.expired r.now).map
      Sigma.fst).foldl dropEntry s, .ok (s.digestBody r.now (namespaceOf r)))

/-- The loop over the keys that are asked for. -/
def syncLoop (now : UInt64) (ns : Name) :
    List Name → StorageServer → Bytes → StorageServer × Bytes
  | [], s, payload => (s, payload)
  | key :: keys, s, payload =>
    if maxSyncResponseBytes ≤ payload.length then (s, payload)
    else
      match s.values.lookup (ns, key) with
      | none => syncLoop now ns keys s payload
      | some stored =>
        if stored.expired now then syncLoop now ns keys (s.dropEntry (ns, key)) payload
        else if maxSyncResponseBytes <
            payload.length + key.length + stored.value.length + 64 ∧ payload ≠ [] then
          (s, payload)
        else syncLoop now ns keys s (payload ++ syncFrame (key, stored))

def handleSync (s : StorageServer) (r : KvRequest) : StorageServer × Response :=
  if !properName (namespaceOf r) then (s, .badRequest)
  else
    let keys := (bodyLines r.body).filter fun line => line.length ≤ maxKvNameBytes
    let (s', payload) := syncLoop r.now (namespaceOf r) keys s []
    (s', .ok payload)

def methodOf (method : Bytes) : Method :=
  if method = asciiBytes "PUT" then .put else if method = asciiBytes "GET" then .get else .other

/-- `handle` for `/v1/kv`, `/v1/digest` and `/v1/sync`. The other paths, which answer from
other data, are left out. -/
def handleHttp (s : StorageServer) (now : UInt64) (r : HttpRequest) :
    Option (StorageServer × Response) :=
  let kv : KvRequest := ⟨now, methodOf r.method, pathQuery r.path, r.body⟩
  if pathOnly r.path = asciiBytes "/v1/kv" then some (s.handle kv)
  else if pathOnly r.path = asciiBytes "/v1/digest" ∧ r.method = asciiBytes "GET" then
    if !s.tokenOk kv then some (s, .unauthorized) else some ((s.dropExpired now).handleDigest kv)
  else if pathOnly r.path = asciiBytes "/v1/sync" ∧ r.method = asciiBytes "POST" then
    if !s.tokenOk kv then some (s, .unauthorized) else some ((s.dropExpired now).handleSync kv)
  else none

end StorageServer

/-- The body that `http_exchange` hands on: that of a successful reply of bounded length. -/
def Response.answer : Response → Option Bytes
  | .noContent => some []
  | .ok body => if maxHttpBodyBytes < body.length then none else some body
  | _ => none

/-- `http_exchange` with a server that is reached under some authority. -/
def exchange (host : Bytes) (s : StorageServer) (now : UInt64) (method path body : Bytes) :
    StorageServer × Option Bytes :=
  let raw := formatHttpRequest method path host body
  match (receive raw.length raw).bind (s.handleHttp now) with
  | none => (s, none)
  | some (s', response) => (s', response.answer)

namespace StorageServer

/-! ## The side that asks -/

def localPut (s : StorageServer) (now : UInt64) (ns key : Name) (stored : Stored) :
    StorageServer :=
  if stored.expired now then s
  else if s.kvQuotaExceeded ns key then s
  else s.store ns key stored

/-- The keys whose digests differ from those of the own entries. -/
def wantedKeys (remote : List (Name × Bytes)) (own : List (Name × Stored)) : List Name :=
  (remote.filter fun item => (own.lookup item.1).map (fun stored => digestOf (item.1, stored)) ≠
    some item.2).map Prod.fst

def wantBody (keys : List Name) : Bytes := keys.flatMap fun key => key ++ [10]

/-- Take over the entries of a reply. -/
def applySync (s : StorageServer) (now : UInt64) (ns : Name) (body : Bytes) : StorageServer :=
  (readFrames body.length body).foldl (fun s entry => s.localPut now ns entry.1 entry.2) s

/-- The own entries that the peer did not list. -/
def unlisted (remote : List (Name × Bytes)) (own : List (Name × Stored)) :
    List (Name × Stored) :=
  own.filter fun entry => (remote.lookup entry.1).isNone

/-- Ask the peer for the values under some keys. -/
def pull (host token : Bytes) (now : UInt64) (ns : Name) (keys : List Name)
    (pair : StorageServer × StorageServer) : StorageServer × StorageServer :=
  if keys = [] then pair
  else
    match exchange host pair.2 now (asciiBytes "POST") (withToken (syncPath ns) token)
      (wantBody keys) with
    | (peer, none) => (pair.1, peer)
    | (peer, some body) => (pair.1.applySync now ns body, peer)

/-- Send an entry to the peer, unless it has expired. -/
def push (host token : Bytes) (now : UInt64) (ns : Name) (peer : StorageServer)
    (entry : Name × Stored) : StorageServer :=
  if entry.2.expiry ≠ 0 ∧ entry.2.expiry ≤ now then peer
  else
    (exchange host peer now (asciiBytes "PUT") (withToken (pushPath now ns entry) token)
      entry.2.value).1

/-- `gossip_with_peer`: a server and the peer that it reaches under `host`. -/
def gossipWithPeer (host : Bytes) (now : UInt64) (ns : Name)
    (pair : StorageServer × StorageServer) : StorageServer × StorageServer :=
  let token := pair.1.token
  match exchange host pair.2 now (asciiBytes "GET") (withToken (digestPath ns) token) [] with
  | (peer, none) => (pair.1, peer)
  | (peer, some body) =>
    let remote := parseDigestBody body
    let own := pair.1.liveEntries now ns
    let pulled := pull host token now ns (wantedKeys remote own) (pair.1, peer)
    (pulled.1, (unlisted remote own).foldl (push host token now ns) pulled.2)

end StorageServer
end Arqma.Storage
