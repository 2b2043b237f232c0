import Arqma.Gossip

/-!
# The requests of a round of gossip

What the handlers of the three requests do to a server, in terms of its unexpired entries. Every
path is made of percent-encoded parameters, so that the peer reads the parameters that were meant.
-/
namespace Arqma.Storage
open List StorageServer AList

variable {r : KvRequest} {entry : Name × Stored} {params : List (Bytes × Bytes)} {c : UInt8}
  {response : Response} {keys : List Name} {base : Bytes}
namespace StorageServer

/-! ## Unexpired entries -/

/-- The unexpired entry under a name. -/
def live (s : StorageServer) (now : UInt64) (ns key : Name) : Option Stored :=
  (s.values.lookup (ns, key)).filter fun stored => !stored.expired now

section Live

variable {s : StorageServer} {now : UInt64} {ns key : Name} {stored : Stored}

theorem live_eq_some : s.live now ns key = some stored ↔
    s.values.lookup (ns, key) = some stored ∧ stored.expired now = false := by
  rw [live, Option.filter_eq_some_iff]
  simp

theorem mem_liveEntries :
    (key, stored) ∈ s.liveEntries now ns ↔ s.live now ns key = some stored := by
  rw [liveEntries, mem_inKeyOrder, mem_map, live_eq_some]
  change _ ↔ stored ∈ s.values.lookup (ns, key) ∧ _
  rw [mem_lookup_iff]
  constructor
  · grind
  · rintro ⟨hmem, hexpired⟩
    exact ⟨⟨(ns, key), stored⟩, mem_filter.mpr ⟨hmem, by simp [hexpired]⟩, rfl⟩

theorem lookup_foldl_dropEntry (s : StorageServer) (entries : List (Name × Name))
    (name : Name × Name) :
    (entries.foldl dropEntry s).values.lookup name =
      if name ∈ entries then none else s.values.lookup name := by
  induction entries generalizing s <;> grind [dropEntry, lookup_erase, lookup_erase_ne]

theorem token_foldl_dropEntry (s : StorageServer) (entries : List (Name × Name)) :
    (entries.foldl dropEntry s).token = s.token := by
  induction entries generalizing s with
  | nil => rfl
  | cons entry entries ih => exact ih (s.dropEntry entry)

/-- What is left when the expired entries have been dropped. -/
theorem lookup_dropExpired (s : StorageServer) (now : UInt64) (ns key : Name) :
    (s.dropExpired now).values.lookup (ns, key) = s.live now ns key := by
  have hmem : ((ns, key) ∈ (s.values.entries.filter fun e => e.2.expired now).map Sigma.fst) ↔
      ∃ stored, s.values.lookup (ns, key) = some stored ∧ stored.expired now = true := by
    rw [mem_map]
    constructor
    · rintro ⟨⟨name, stored⟩, he, rfl⟩
      obtain ⟨hentry, hexpired⟩ := mem_filter.mp he
      exact ⟨stored, mem_lookup_iff.mpr hentry, hexpired⟩
    · rintro ⟨stored, hlookup, hexpired⟩
      exact ⟨⟨(ns, key), stored⟩, mem_filter.mpr ⟨mem_lookup_iff.mp hlookup, hexpired⟩, rfl⟩
  rw [dropExpired, lookup_foldl_dropEntry, live]
  simp only [hmem]
  cases hlookup : s.values.lookup (ns, key) with
  | none => simp
  | some stored => cases hexpired : stored.expired now <;> simp [Option.filter, hexpired]

@[simp] theorem token_dropExpired (s : StorageServer) (now : UInt64) :
    (s.dropExpired now).token = s.token := token_foldl_dropEntry s _

/-- A request leaves what was there and what it sets itself. -/
theorem lookup_handle {name : Name × Name} (h : (s.handle r).1.values.lookup name = some stored) :
    s.values.lookup name = some stored ∨
      r.method = .put ∧ properName (keyOf r) = true ∧ name = (namespaceOf r, keyOf r) ∧
        stored = ⟨r.body, expiryOf r.now (queryGet r.query (asciiBytes "ttl"))⟩ := by
  have hcurrent : (s.dropExpired r.now).values.lookup name = some stored →
      s.values.lookup name = some stored := by
    intro hlookup
    rw [lookup_dropExpired] at hlookup
    exact (live_eq_some.mp hlookup).1
  unfold handle at h
  dsimp only at h
  split_ifs at h with htoken hproper
  · exact Or.inl h
  · exact Or.inl (hcurrent h)
  · simp only [Bool.not_eq_true', Bool.not_eq_false, Bool.and_eq_true] at hproper
    split at h
    · rename_i hmethod
      unfold handlePut at h
      grind [store, lookup_insert, lookup_insert_ne]
    · unfold handleGet at h
      grind [dropEntry, lookup_erase, lookup_erase_ne]
    · exact Or.inl (hcurrent h)

/-- A value whose request is answered 204 is there. -/
theorem lookup_handle_of_noContent (hput : r.method = .put) (h : (s.handle r).2 = .noContent) :
    (s.handle r).1.values.lookup (namespaceOf r, keyOf r) =
      some ⟨r.body, expiryOf r.now (queryGet r.query (asciiBytes "ttl"))⟩ := by
  unfold handle at h ⊢
  dsimp only at h ⊢
  split_ifs at h ⊢
  rw [hput] at h ⊢
  dsimp only at h ⊢
  unfold handlePut at h ⊢
  split_ifs at h ⊢
  exact lookup_insert _

end Live
end StorageServer

/-! ## Paths -/

/-- The token as a parameter, if there is one. -/
def tokenParam (token : Bytes) : List (Bytes × Bytes) :=
  if token = [] then [] else [(asciiBytes "token", token)]

/-- A path with encoded parameters. -/
def pathWith (base : Bytes) (params : List (Bytes × Bytes)) : Bytes :=
  base ++ 63 :: joinQuery (encodeParams params)

section Paths

variable {base : Bytes} {params : List (Bytes × Bytes)}

theorem pathWith_append (h : params ≠ []) (name value : Bytes) :
    pathWith base (params ++ [(name, value)]) =
      pathWith base params ++ 38 :: (name ++ 61 :: urlEncode value) := by
  have hencoded : encodeParams params ≠ [] := by simpa [encodeParams] using h
  have happend : encodeParams (params ++ [(name, value)]) =
      encodeParams params ++ [(name, urlEncode value)] := by
    simp [encodeParams]
  rw [pathWith, happend, joinQuery_append hencoded, pathWith]
  simp

theorem withToken_pathWith (h : params ≠ []) (token : Bytes) :
    withToken (pathWith base params) token = pathWith base (params ++ tokenParam token) := by
  rw [withToken, tokenParam]
  split_ifs with htoken hquery
  · rw [append_nil]
  · rw [pathWith_append h]
    simp [show asciiBytes "&" = [38] from rfl,
      show asciiBytes "token=" = asciiBytes "token" ++ [61] from rfl]
  · simp [pathWith] at hquery

theorem pathOnly_pathWith (hbase : 63 ∉ base) : pathOnly (pathWith base params) = base :=
  takeWhile_ne_append_cons hbase _

theorem pathQuery_pathWith (hbase : 63 ∉ base) :
    pathQuery (pathWith base params) = joinQuery (encodeParams params) := by
  rw [pathQuery, pathWith, dropWhile_ne_append_cons hbase, drop_one, tail_cons]

theorem not_isSpace_of_unreserved (h : asciiUnreserved c = true) : isSpace c = false := by
  grind [asciiUnreserved, isSpace]

theorem not_isSpace_of_mem_pathWith (hbase : ∀ c ∈ base, isSpace c = false)
    (hname : ∀ p ∈ params, ∀ c ∈ p.1, asciiUnreserved c = true)
    (h : c ∈ pathWith base params) : isSpace c = false := by
  rw [pathWith, mem_append, mem_cons] at h
  rcases h with h | rfl | h
  · exact hbase c h
  · rfl
  · rcases mem_joinQuery h with rfl | rfl | ⟨q, hq, h⟩
    · rfl
    · rfl
    · obtain ⟨p, hp, rfl⟩ := mem_map.mp hq
      rcases h with h | h
      · exact not_isSpace_of_unreserved (hname p hp c h)
      · rcases asciiUnreserved_of_mem_urlEncode h with h | rfl
        · exact not_isSpace_of_unreserved h
        · rfl

theorem queryGet_pathWith (hbase : 63 ∉ base) (h : params ≠ [])
    (hname : ∀ p ∈ params, ∀ c ∈ p.1, asciiUnreserved c = true) (name : Bytes) :
    queryGet (pathQuery (pathWith base params)) name = (params.lookup name).getD [] := by
  rw [pathQuery_pathWith hbase, queryGet_eq_lookup, queryPairs_encodeParams h hname]

end Paths

/-! ## Exchanges -/

namespace StorageServer

/-- Nothing in memory has expired. -/
def Swept (s : StorageServer) (now : UInt64) : Prop :=
  ∀ name stored, s.values.lookup name = some stored → stored.expired now = false

theorem swept_dropExpired (s : StorageServer) (now : UInt64) : (s.dropExpired now).Swept now := by
  rintro ⟨ns, key⟩ stored h
  rw [lookup_dropExpired] at h
  exact (live_eq_some.mp h).2

section Handlers

variable {s : StorageServer} {now : UInt64}

/-- The entries that are asked for and there. -/
def found (s : StorageServer) (ns : Name) (keys : List Name) : List (Name × Stored) :=
  keys.filterMap fun key => (s.values.lookup (ns, key)).map fun stored => (key, stored)

theorem mem_found {ns : Name} : entry ∈ s.found ns keys ↔
      entry.1 ∈ keys ∧ s.values.lookup (ns, entry.1) = some entry.2 := by
  rw [found, mem_filterMap]
  constructor
  · rintro ⟨key, hkey, hentry⟩
    obtain ⟨stored, hstored, rfl⟩ := Option.map_eq_some_iff.mp hentry
    exact ⟨hkey, hstored⟩
  · rintro ⟨hkey, hstored⟩
    exact ⟨entry.1, hkey, by rw [hstored]; rfl⟩

theorem length_syncFrame_le (entry : Name × Stored) : (syncFrame entry).length ≤
      entry.1.length + entry.2.value.length + (toDecimal entry.2.value.length).length + 29 := by
  have hexpiry : (toDecimal entry.2.expiry.toNat).length ≤ 20 :=
    length_toDecimal_le (lt_trans entry.2.expiry.toNat_lt (by decide))
  have h1 : (asciiBytes "K ").length = 2 := rfl
  have h2 : (asciiBytes "E ").length = 2 := rfl
  have h3 : (asciiBytes "L ").length = 2 := rfl
  simp only [syncFrame, length_append, h1, h2, h3, length_singleton]
  omega

/-- A reply has the frames of the first entries. It has at least one if there is an entry, and
only a reply of one entry can be longer than the bound. -/
theorem syncLoop_of_swept (h : s.Swept now) (ns : Name) (keys : List Name) (payload : Bytes) :
    ∃ sent, sent <+: s.found ns keys ∧
      syncLoop now ns keys s payload = (s, payload ++ sent.flatMap syncFrame) ∧
      (payload = [] → s.found ns keys ≠ [] → sent ≠ []) ∧
      (sent ≠ [] → payload ≠ [] ∨ 2 ≤ sent.length →
        (payload ++ sent.flatMap syncFrame).length ≤ maxSyncResponseBytes) := by
  induction keys generalizing payload with
  | nil => exact ⟨[], prefix_rfl, by simp [syncLoop], by simp [found], by simp⟩
  | cons key keys ih =>
    rw [syncLoop]
    by_cases hfull : maxSyncResponseBytes ≤ payload.length
    · have hne : payload ≠ [] := by
        rintro rfl
        exact absurd hfull (by decide)
      exact ⟨[], nil_prefix, by simp [hfull], fun hp => absurd hp hne, by simp⟩
    · rw [if_neg hfull]
      cases hlookup : s.values.lookup (ns, key) with
      | none => simpa [found, hlookup] using ih payload
      | some stored =>
        have hfound : s.found ns (key :: keys) = (key, stored) :: s.found ns keys := by
          simp [found, hlookup]
        simp only [h _ _ hlookup, Bool.false_eq_true, if_false, hfound]
        split_ifs with hstop
        · exact ⟨[], nil_prefix, by simp, fun hp => absurd hp hstop.2, by simp⟩
        · obtain ⟨sent, hsent, hloop, -, hbound⟩ := ih (payload ++ syncFrame (key, stored))
          have hframe : payload ++ syncFrame (key, stored) ≠ [] := by simp [syncFrame]
          refine ⟨(key, stored) :: sent, (prefix_cons_inj _).mpr hsent, ?_, by simp, ?_⟩
          · rw [hloop]
            simp
          · intro _ hlong
            rw [flatMap_cons, ← append_assoc]
            by_cases hlast : sent = []
            · have hne : payload ≠ [] := hlong.resolve_right (by simp [hlast])
              have hlength := length_syncFrame_le (key, stored)
              have hvalue : (toDecimal stored.value.length).length ≤ 20 := by
                refine length_toDecimal_le ?_
                have hsmall : stored.value.length ≤ maxSyncResponseBytes := by
                  simp only [not_and_or, not_not, hne, or_false] at hstop
                  omega
                exact lt_of_le_of_lt hsmall (by decide)
              grind
            · exact hbound hlast (Or.inl hframe)

end Handlers
end StorageServer

/-! ## The three requests -/

theorem digestPath_eq (ns : Name) :
    digestPath ns = pathWith (asciiBytes "/v1/digest") [(asciiBytes "ns", ns)] := by
  simp [digestPath, pathWith, encodeParams, joinQuery, List.intercalate,
    show asciiBytes "/v1/digest?ns=" = asciiBytes "/v1/digest" ++ 63 :: (asciiBytes "ns" ++ [61])
      from rfl]

theorem syncPath_eq (ns : Name) :
    syncPath ns = pathWith (asciiBytes "/v1/sync") [(asciiBytes "ns", ns)] := by
  simp [syncPath, pathWith, encodeParams, joinQuery, List.intercalate,
    show asciiBytes "/v1/sync?ns=" = asciiBytes "/v1/sync" ++ 63 :: (asciiBytes "ns" ++ [61])
      from rfl]

theorem kvPath_eq (ns key : Name) : kvPath ns key =
      pathWith (asciiBytes "/v1/kv") [(asciiBytes "ns", ns), (asciiBytes "key", key)] := by
  simp [kvPath, pathWith, encodeParams, joinQuery, List.intercalate,
    show asciiBytes "/v1/kv?ns=" = asciiBytes "/v1/kv" ++ 63 :: (asciiBytes "ns" ++ [61]) from rfl,
    show asciiBytes "&key=" = 38 :: (asciiBytes "key" ++ [61]) from rfl]

/-- The lifetime that is left to an entry as a parameter, if it expires. -/
def ttlParam (now : UInt64) (stored : Stored) : List (Bytes × Bytes) :=
  if stored.expiry = 0 then []
  else [(asciiBytes "ttl", toDecimal (stored.expiry - now).toNat)]

theorem asciiUnreserved_of_mem_toDecimal {n : ℕ} (h : c ∈ toDecimal n) :
    asciiUnreserved c = true := by
  simp [asciiUnreserved, digit_of_mem_toDecimal h]

theorem pushPath_eq (now : UInt64) (ns : Name) (entry : Name × Stored) : pushPath now ns entry =
      pathWith (asciiBytes "/v1/kv") ([(asciiBytes "ns", ns), (asciiBytes "key", entry.1),
        (asciiBytes "replicate", asciiBytes "0")] ++ ttlParam now entry.2) := by
  have hreplicate : pathWith (asciiBytes "/v1/kv") ([(asciiBytes "ns", ns),
      (asciiBytes "key", entry.1)] ++ [(asciiBytes "replicate", asciiBytes "0")]) =
      kvPath ns entry.1 ++ asciiBytes "&replicate=0" := by
    rw [pathWith_append (by simp), kvPath_eq]
    rfl
  rw [pushPath, ← hreplicate, ttlParam]
  split_ifs
  · simp
  · conv_rhs => rw [pathWith_append (cons_ne_nil _ _),
      urlEncode_of_unreserved fun c hc => asciiUnreserved_of_mem_toDecimal hc]
    rfl

section Requests

variable {host token : Bytes} {s : StorageServer} {ns : Name} {now : UInt64}

theorem unreserved_tokenParam (token : Bytes) :
    ∀ p ∈ tokenParam token, ∀ c ∈ p.1, asciiUnreserved c = true := by
  rw [tokenParam]
  split_ifs
  · simp
  · intro p hp
    rw [mem_singleton.mp hp]
    exact (by decide : ∀ c ∈ asciiBytes "token", asciiUnreserved c = true)

/-- The parameters of a request, apart from the token. -/
structure Params (pre : List (Bytes × Bytes)) : Prop where
  some : pre ≠ []
  unreserved : ∀ p ∈ pre, ∀ c ∈ p.1, asciiUnreserved c = true
  no_token : pre.lookup (asciiBytes "token") = none

variable {base method body : Bytes} {pre : List (Bytes × Bytes)}

theorem Params.unreserved_append (h : Params pre) (token : Bytes) :
    ∀ p ∈ pre ++ tokenParam token, ∀ c ∈ p.1, asciiUnreserved c = true := by
  intro p hp
  rcases mem_append.mp hp with hp | hp
  · exact h.unreserved p hp
  · exact unreserved_tokenParam token p hp

theorem Params.queryGet (h : Params pre) (hbase : 63 ∉ base) (token name : Bytes)
    (hname : name ≠ asciiBytes "token") :
    queryGet (pathQuery (pathWith base (pre ++ tokenParam token))) name =
      (pre.lookup name).getD [] := by
  have htoken : (tokenParam token).lookup name = none := by
    rw [tokenParam]
    split_ifs
    · rfl
    · simp [lookup_cons, beq_eq_false_iff_ne.mpr hname]
  rw [queryGet_pathWith hbase (by simp [h.some]) (h.unreserved_append token), lookup_append,
    htoken, Option.or_none]

theorem params_ns (ns : Name) : Params [(asciiBytes "ns", ns)] where
  some := cons_ne_nil _ _
  unreserved := by
    intro p hp
    rw [mem_singleton.mp hp]
    exact (by decide : ∀ c ∈ asciiBytes "ns", asciiUnreserved c = true)
  no_token := by
    rw [lookup_cons]
    rfl

/-- The parameters of an entry that is sent. -/
def pushParams (now : UInt64) (ns : Name) (entry : Name × Stored) : List (Bytes × Bytes) :=
  [(asciiBytes "ns", ns), (asciiBytes "key", entry.1),
    (asciiBytes "replicate", asciiBytes "0")] ++ ttlParam now entry.2

theorem params_push (now : UInt64) (ns : Name) (entry : Name × Stored) :
    Params (pushParams now ns entry) where
  some := cons_ne_nil _ _
  unreserved := by
    intro p hp
    rw [pushParams, mem_append, ttlParam] at hp
    rcases hp with hp | hp
    · simp only [mem_cons, not_mem_nil, or_false] at hp
      rcases hp with rfl | rfl | rfl
      · exact (by decide : ∀ c ∈ asciiBytes "ns", asciiUnreserved c = true)
      · exact (by decide : ∀ c ∈ asciiBytes "key", asciiUnreserved c = true)
      · exact (by decide : ∀ c ∈ asciiBytes "replicate", asciiUnreserved c = true)
    · split_ifs at hp
      · simp at hp
      · rw [mem_singleton.mp hp]
        exact (by decide : ∀ c ∈ asciiBytes "ttl", asciiUnreserved c = true)
  no_token := by
    rw [pushParams, ttlParam]
    split_ifs <;> rfl

theorem lookup_pushParams (now : UInt64) (ns : Name) (entry : Name × Stored) :
    (pushParams now ns entry).lookup (asciiBytes "ns") = some ns ∧
      (pushParams now ns entry).lookup (asciiBytes "key") = some entry.1 ∧
      ((pushParams now ns entry).lookup (asciiBytes "ttl")).getD [] =
        if entry.2.expiry = 0 then [] else toDecimal (entry.2.expiry - now).toNat := by
  refine ⟨rfl, rfl, ?_⟩
  rw [pushParams, ttlParam]
  split_ifs <;> rfl

end Requests
end Arqma.Storage
