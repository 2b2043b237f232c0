import Arqma.GossipRuns

/-!
# Requests for values

The text of a request for a value is read back by the server whatever bytes its names and its
token have. A lifetime in such a request becomes the expiry of the entry, which pulls take over
as it is.
-/
namespace Arqma.Storage
open StorageServer List

/-! ## Paths -/

/-- What may follow the path of a value. -/
inductive KvSuffix
  | noReplicate
  | ttl (digits : Bytes) (plain : ∀ c ∈ digits, 48 ≤ c ∧ c ≤ 57)

namespace KvSuffix

def text : KvSuffix → Bytes
  | noReplicate => asciiBytes "&replicate=0"
  | ttl digits _ => asciiBytes "&ttl=" ++ digits

def param : KvSuffix → Bytes × Bytes
  | noReplicate => (asciiBytes "replicate", asciiBytes "0")
  | ttl digits _ => (asciiBytes "ttl", digits)

theorem text_eq (suffix : KvSuffix) :
    suffix.text = 38 :: (suffix.param.1 ++ 61 :: urlEncode suffix.param.2) := by
  cases suffix with
  | noReplicate => rfl
  | ttl digits plain =>
    have hdigits : ∀ c ∈ digits, asciiUnreserved c = true := fun c hc => by
      simp [asciiUnreserved, plain c hc]
    simp only [text, param, urlEncode_of_unreserved hdigits]
    rfl

theorem pathWith_flatMap {base : Bytes} (suffix : List KvSuffix) {params : List (Bytes × Bytes)}
    (h : params ≠ []) : pathWith base params ++ suffix.flatMap text =
      pathWith base (params ++ suffix.map param) := by
  induction suffix generalizing params with
  | nil => simp
  | cons part suffix ih =>
    rw [flatMap_cons, text_eq, ← append_assoc, ← pathWith_append h, ih (by simp), append_assoc]
    rfl

theorem params (ns key : Name) (suffix : List KvSuffix) :
    Params ([(asciiBytes "ns", ns), (asciiBytes "key", key)] ++ suffix.map param) where
  some := by simp
  unreserved := by
    have hname : ∀ part : KvSuffix, ∀ c ∈ part.param.1, asciiUnreserved c = true := by
      rintro (_ | _)
      · exact (by decide : ∀ c ∈ asciiBytes "replicate", asciiUnreserved c = true)
      · exact (by decide : ∀ c ∈ asciiBytes "ttl", asciiUnreserved c = true)
    simp only [cons_append, nil_append, forall_mem_cons, forall_mem_map]
    exact ⟨by decide, by decide, fun part _ => hname part⟩
  no_token := by
    refine lookup_eq_none_iff.mpr ?_
    simp only [cons_append, nil_append, forall_mem_cons, forall_mem_map]
    refine ⟨by decide, by decide, ?_⟩
    rintro (_ | _) _
    · rfl
    · rfl

end KvSuffix

/-- `tokens_equal`: every byte is looked at. -/
def tokensEqual (a b : Bytes) : Bool :=
  a.length = b.length && (zipWith (· ^^^ ·) a b).foldl (· ||| ·) 0 = 0

/-- `request_token_ok`. -/
def requestTokenOk (path expected : Bytes) : Bool :=
  expected = [] || tokensEqual (queryGet (pathQuery path) (asciiBytes "token")) expected

theorem tokensEqual_iff {a b : Bytes} : tokensEqual a b = true ↔ a = b := by
  have hfold : ∀ (a b : Bytes) (acc : UInt8), a.length = b.length →
      ((zipWith (· ^^^ ·) a b).foldl (· ||| ·) acc = 0 ↔ acc = 0 ∧ a = b) := by
    intro a
    induction a with
    | nil => intro b acc hlen; simp [length_eq_zero_iff.mp hlen.symm]
    | cons x a ih =>
      rintro (_ | ⟨y, b⟩) acc hlen
      · cases hlen
      · rw [zipWith_cons_cons, foldl_cons, ih b _ (Nat.succ.inj hlen), UInt8.or_eq_zero_iff,
          UInt8.xor_eq_zero_iff, cons.injEq, and_assoc]
  grind [tokensEqual]

/-- Whatever bytes the names and the token have, a request is read as it was meant, and passes for
its token only. -/
theorem kv_request_read_back (ns key : Name) (token : { token : Bytes // token ≠ [] })
    (suffix : List KvSuffix) :
    let path := withToken (kvPath ns key ++ suffix.flatMap KvSuffix.text) token
    let get := fun name => queryGet (pathQuery path) (asciiBytes name)
    let value := fun name => ((suffix.map KvSuffix.param).lookup (asciiBytes name)).getD []
    (get "ns" = ns ∧ get "key" = key ∧ get "replicate" = value "replicate" ∧
        get "ttl" = value "ttl") ∧
      (∀ expected ≠ [], requestTokenOk path expected = true ↔ expected = token) ∧
      ∀ raw, urlDecode (urlEncode raw) = raw := by
  intro path get value
  have hbase : 63 ∉ asciiBytes "/v1/kv" := by decide
  have hparams := KvSuffix.params ns key suffix
  have hpath : path = pathWith (asciiBytes "/v1/kv")
      ([(asciiBytes "ns", ns), (asciiBytes "key", key)] ++ suffix.map KvSuffix.param ++
        tokenParam token) := by
    rw [← withToken_pathWith hparams.some, ← KvSuffix.pathWith_flatMap suffix (by simp),
      ← kvPath_eq]
  have hget : ∀ name, asciiBytes name ≠ asciiBytes "token" → get name =
      (([(asciiBytes "ns", ns), (asciiBytes "key", key)] ++
        suffix.map KvSuffix.param).lookup (asciiBytes name)).getD [] := by
    intro name hname
    simp only [get, hpath]
    exact hparams.queryGet hbase token _ hname
  have htoken : queryGet (pathQuery path) (asciiBytes "token") = token := by
    rw [hpath, queryGet_pathWith hbase (by simp) (hparams.unreserved_append token), lookup_append,
      hparams.no_token, tokenParam, if_neg token.2]
    rfl
  refine ⟨⟨hget "ns" (by decide), hget "key" (by decide), hget "replicate" (by decide),
    hget "ttl" (by decide)⟩, fun expected hne => ?_, urlDecode_urlEncode⟩
  rw [requestTokenOk, htoken, Bool.or_eq_true, tokensEqual_iff, decide_eq_true_eq,
    or_iff_right hne, eq_comm]
/-! ## Lifetimes -/

/-- The part of `gossip_with_peer` that asks for values, with whatever keys are wanted. -/
structure PullCall (ι : Type*) where
  server : ι
  peer : ι
  now : UInt64
  ns : Name
  keys : List Name

section Lifetimes

variable {ι : Type*} [DecidableEq ι] {host : ι → Bytes} {servers : ι → StorageServer}

def pullStep (host : ι → Bytes) (servers : ι → StorageServer) (call : PullCall ι) :
    ι → StorageServer :=
  let result := pull (host call.peer) (servers call.server).token call.now call.ns call.keys
    (servers call.server, servers call.peer)
  Function.update (Function.update servers call.server result.1) call.peer result.2

def pulled (host : ι → Bytes) (servers : ι → StorageServer) (calls : List (PullCall ι)) :
    ι → StorageServer :=
  calls.foldl (pullStep host) servers

/-- The entry, where there is one, expires at some time up to `limit`, and is dropped then. -/
def ExpiresBy (limit : ℕ) (ns key : Name) (s : StorageServer) : Prop :=
  (∀ stored, s.values.lookup (ns, key) = some stored →
    stored.expiry ≠ 0 ∧ stored.expiry.toNat ≤ limit) ∧
  ∀ now : UInt64, limit ≤ now.toNat → (s.dropExpired now).values.lookup (ns, key) = none

variable {ns key : Name} {expiry : UInt64}

/-- Every entry under the name has the expiry. -/
def AllExpire (ns key : Name) (expiry : UInt64) (s : StorageServer) : Prop :=
  ∀ stored, s.values.lookup (ns, key) = some stored → stored.expiry = expiry

theorem AllExpire.applySync {s : StorageServer} {now : UInt64} {ns' : Name} {body : Bytes}
    (h : AllExpire ns key expiry s)
    (hframes : ∀ e ∈ readFrames body.length body, (ns', e.1) = (ns, key) → e.2.expiry = expiry) :
    AllExpire ns key expiry (s.applySync now ns' body) := by
  rw [StorageServer.applySync]
  generalize readFrames body.length body = frames at hframes
  induction frames generalizing s with
  | nil => exact h
  | cons e frames ih =>
    refine ih (fun stored hlookup => ?_) fun e' he' => hframes e' (mem_cons_of_mem _ he')
    rcases lookup_localPut hlookup with hbefore | ⟨hname, rfl⟩
    · exact h stored hbefore
    · exact hframes e mem_cons_self hname.symm

theorem AllExpire.pull {a b : StorageServer} (ha : AllExpire ns key expiry a)
    (hb : AllExpire ns key expiry b) {name : Bytes} (hname : 10 ∉ name) (token : Bytes)
    (now : UInt64) (ns' : Name) (keys : List Name) :
    AllExpire ns key expiry (pull name token now ns' keys (a, b)).1 ∧
      AllExpire ns key expiry (pull name token now ns' keys (a, b)).2 := by
  rw [StorageServer.pull]
  split_ifs
  · exact ⟨ha, hb⟩
  · generalize hresult : exchange name b now (asciiBytes "POST")
      (withToken (syncPath ns') token) (wantBody keys) = result
    obtain ⟨peer, reply⟩ := result
    obtain ⟨hshrinks, hheld⟩ := exchange_sync_held token b ns' now hname (wantBody keys) hresult
    have hpeer : AllExpire ns key expiry peer := fun stored hlookup =>
      hb stored (hshrinks _ _ hlookup)
    cases reply with
    | none => exact ⟨ha, hpeer⟩
    | some body =>
      refine ⟨ha.applySync fun e he heq => hb e.2 ?_, hpeer⟩
      rw [← heq]
      exact hheld body rfl e he

theorem AllExpire.pulled (h : ∀ i, AllExpire ns key expiry (servers i)) (hhost : ∀ i, 10 ∉ host i)
    (calls : List (PullCall ι)) (i : ι) :
    AllExpire ns key expiry (pulled host servers calls i) := by
  induction calls generalizing servers with
  | nil => exact h i
  | cons call calls ih =>
    refine ih fun j => ?_
    obtain ⟨hserver, hpeer⟩ := (h call.server).pull (h call.peer) (hhost call.peer)
      (servers call.server).token call.now call.ns call.keys
    rw [pullStep]
    grind

/-- The text of a lifetime is read into 64 bits, the largest number for one that does not fit,
and cut to 32 bits before it is bounded. -/
theorem expiryOf_digits {now : UInt64} {digits : Bytes} (hnow : now.toNat < 2 ^ 63)
    (hne : digits ≠ []) (hdigits : ∀ c ∈ digits, 48 ≤ c ∧ c ≤ 57) :
    (expiryOf now digits ≠ 0 ↔ 2 ^ 64 ≤ digitsValue digits ∨ digitsValue digits % 2 ^ 32 ≠ 0) ∧
      (expiryOf now digits).toNat ≤ now.toNat + maxTtl.toNat := by
  have hread := strtoul_digits hdigits (forall_mem_nil (fun c => isSpace c = true))
  rw [nil_append] at hread
  have hmax : maxTtl.toNat = 1209600 := rfl
  have hcast : (strtoul digits).toUInt32.toNat = 0 ↔
      ¬(2 ^ 64 ≤ digitsValue digits ∨ digitsValue digits % 2 ^ 32 ≠ 0) := by
    rw [hread, UInt64.toNat_toUInt32]
    split_ifs with hlarge
    · exact iff_of_false (by decide) (not_not.mpr (.inl hlarge))
    · rw [UInt64.toNat_ofNat_of_lt' (Nat.not_le.mp hlarge)]
      omega
  rw [expiryOf, if_neg hne]
  dsimp only
  set kept := min (strtoul digits).toUInt32 maxTtl
  have hmin : kept.toNat = min (strtoul digits).toUInt32.toNat maxTtl.toNat := by
    change (if _ then _ else _ : UInt32).toNat = _
    grind [UInt32.le_iff_toNat_le.mp, UInt32.le_iff_toNat_le.mpr]
  have hadd : (now + kept.toUInt64).toNat = now.toNat + kept.toNat := by
    rw [UInt64.toNat_add, UInt32.toNat_toUInt64]
    omega
  have hzero : kept = 0 ↔ (strtoul digits).toUInt32.toNat = 0 := by
    rw [← UInt32.toNat_inj, hmin, UInt32.toNat_zero]
    omega
  split_ifs with hkept
  · exact ⟨iff_of_false (not_not.mpr rfl) (hcast.mp (hzero.mp hkept)), Nat.zero_le _⟩
  · have hread := mt hzero.mpr hkept
    have hpos : (now + kept.toUInt64).toNat ≠ 0 := by
      rw [hadd, hmin]
      omega
    exact ⟨iff_of_true (fun h => hpos (by rw [h]; rfl))
      (not_not.mp fun h => hkept (hzero.mpr (hcast.mpr h))), by omega⟩

/-- After a request with a lifetime, however the entry spreads by pulls: its copies expire within
the bound exactly when the number is not a multiple of `2 ^ 32`, or does not fit 64 bits. -/
theorem lifetime_kept_iff (hhost : ∀ i, 10 ∉ host i) (servers : ι → StorageServer) (server : ι)
    (r : KvRequest) (hput : r.method = .put) (hanswer : ((servers server).handle r).2 = .noContent)
    (hclock : r.now.toNat < 2 ^ 63) (digits : Bytes)
    (hquery : queryGet r.query (asciiBytes "ttl") = digits)
    (hdigits : ∀ c ∈ digits, 48 ≤ c ∧ c ≤ 57) (hpos : 0 < digitsValue digits)
    (hfirst : ∀ i, i ≠ server → (servers i).values.lookup (namespaceOf r, keyOf r) = none) :
    (∀ calls i, ExpiresBy (r.now.toNat + maxTtl.toNat) (namespaceOf r) (keyOf r)
      (pulled host (Function.update servers server ((servers server).handle r).1) calls i)) ↔
      2 ^ 64 ≤ digitsValue digits ∨ digitsValue digits % 2 ^ 32 ≠ 0 := by
  have hne : digits ≠ [] := by
    rintro rfl
    exact absurd hpos (by decide)
  obtain ⟨hnonzero, hbound⟩ := expiryOf_digits hclock hne hdigits
  have hlookup := lookup_handle_of_noContent hput hanswer
  rw [hquery] at hlookup
  rw [← hnonzero]
  constructor
  · intro h
    have hserver := (h [] server).1
    simp only [pulled, foldl_nil, Function.update_self] at hserver
    exact (hserver _ hlookup).1
  · intro hexpires calls i
    have hall : ∀ i, AllExpire (namespaceOf r) (keyOf r) (expiryOf r.now digits)
        (Function.update servers server ((servers server).handle r).1 i) := by
      intro i stored hstored
      by_cases hi : i = server
      · rw [hi, Function.update_self, hlookup] at hstored
        rw [← Option.some.inj hstored]
      · rw [Function.update_of_ne hi, hfirst i hi] at hstored
        cases hstored
    have hkept := AllExpire.pulled hall hhost calls i
    refine ⟨fun stored hstored => hkept stored hstored ▸ ⟨hexpires, hbound⟩, fun now hnow => ?_⟩
    rw [lookup_dropExpired, Option.eq_none_iff_forall_ne_some]
    intro stored hlive
    obtain ⟨hstored, hfresh⟩ := live_eq_some.mp hlive
    grind [Stored.expired, hkept stored hstored, UInt64.le_iff_toNat_le.mpr]

end Lifetimes

section Sample

def lifetimeRequest (ttl : String) : KvRequest := setRequest 90 ("a&ttl=" ++ ttl) [1]

theorem one_minute_expires :
    ExpiresBy (90 + 1209600) sampleSpace (asciiBytes "a")
      (pulled hostOf (Function.update (fun _ => serverAfter []) true
        ((serverAfter []).handle (lifetimeRequest "60")).1)
        [⟨false, true, 91, sampleSpace, [asciiBytes "a"]⟩] false) := by
  have hns : namespaceOf (lifetimeRequest "60") = sampleSpace := by decide
  have hkey : keyOf (lifetimeRequest "60") = asciiBytes "a" := by decide
  have h := (lifetime_kept_iff (by decide : ∀ i, 10 ∉ hostOf i) (fun _ => serverAfter []) true
    (lifetimeRequest "60") rfl (by decide) (by decide) (asciiBytes "60") (by decide)
    (by decide) (by decide) (fun _ _ => rfl)).mpr (by decide)
  rw [hns, hkey] at h
  exact h _ _

/-- A lifetime of `2 ^ 32` seconds is cut to zero, which stands for none. -/
theorem large_lifetime_lost :
    ((serverAfter []).handle (lifetimeRequest "4294967296")).2 = .noContent ∧
    ((serverAfter []).handle (lifetimeRequest "4294967296")).1.values.lookup
      (sampleSpace, asciiBytes "a") = some ⟨[1], 0⟩ := by
  decide

end Sample
end Arqma.Storage
