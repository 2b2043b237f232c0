import Arqma.GossipRound

/-!
# Runs of several storage servers

Any number of servers take requests, replicate the values that they accept and gossip. Every
exchange of a round is a step of its own, so that rounds, replication and requests interleave,
and each exchange can lose its request or its reply. A round takes over whatever differs from
its own entries: nothing tells an older value from a newer one.
-/
namespace Arqma.Storage
open StorageServer List

variable {entries entries' : List (Name × Stored)} {now : UInt64} {pre : List (Bytes × Bytes)}
  {name : Name × Name} {s : StorageServer}

/-! ## What an exchange can do -/

namespace StorageServer

/-- Nothing is added and nothing is changed. -/
def Shrinks (s s' : StorageServer) : Prop :=
  ∀ name stored, s'.values.lookup name = some stored → s.values.lookup name = some stored

theorem Shrinks.refl (s : StorageServer) : Shrinks s s := fun _ _ h => h

theorem shrinks_foldl_dropEntry (s : StorageServer) (entries : List (Name × Name)) :
    Shrinks s (entries.foldl dropEntry s) := by
  intro name stored h
  rw [lookup_foldl_dropEntry] at h
  split_ifs at h
  exact h

theorem shrinks_dropExpired (s : StorageServer) (now : UInt64) : Shrinks s (s.dropExpired now) :=
  shrinks_foldl_dropEntry s _

theorem shrinks_handleDigest (s : StorageServer) (r : KvRequest) :
    Shrinks s (s.handleDigest r).1 := by
  rw [handleDigest]
  split_ifs
  · exact Shrinks.refl s
  · exact shrinks_foldl_dropEntry s _

/-- A reply to `/v1/sync` has entries of the server. -/
theorem handleSync_held {s s' : StorageServer} {r : KvRequest} {response : Response}
    (hswept : s.Swept r.now) (h : s.handleSync r = (s', response)) :
    s' = s ∧ ∀ body, response.answer = some body → ∀ fuel, ∀ e ∈ readFrames fuel body,
      s.values.lookup (namespaceOf r, e.1) = some e.2 := by
  unfold handleSync at h
  split_ifs at h
  · obtain ⟨rfl, rfl⟩ := Prod.mk.inj h
    exact ⟨rfl, fun body hbody => by cases hbody⟩
  · obtain ⟨sent, hsent, hloop, -, -⟩ := syncLoop_of_swept hswept (namespaceOf r)
      ((bodyLines r.body).filter fun line => line.length ≤ maxKvNameBytes) []
    simp only [hloop, nil_append] at h
    obtain ⟨rfl, rfl⟩ := Prod.mk.inj h
    refine ⟨rfl, fun body hbody fuel e he => ?_⟩
    have hfound : ∀ e ∈ sent, e.1 ∈ bodyLines r.body ∧
        s.values.lookup (namespaceOf r, e.1) = some e.2 := by
      intro e he
      obtain ⟨hkey, hlookup⟩ := mem_found.mp (hsent.subset he)
      exact ⟨(mem_filter.mp hkey).1, hlookup⟩
    have hbody' : body = sent.flatMap syncFrame := by
      simp only [Response.answer] at hbody
      split_ifs at hbody
      exact (Option.some.inj hbody).symm
    rw [hbody'] at he
    have hwithin := readFrames_within fuel fun e he => not_mem_of_mem_bodyLines (hfound e he).1
    exact (hfound e (hwithin.subset he)).2

theorem lookup_localPut {ns key : Name} {entry stored : Stored}
    (h : (s.localPut now ns key entry).values.lookup name = some stored) :
    s.values.lookup name = some stored ∨ name = (ns, key) ∧ stored = entry := by
  unfold localPut at h
  grind [store, AList.lookup_insert, AList.lookup_insert_ne]

end StorageServer

section Exchanges

variable {host : Bytes} (token : Bytes) (s : StorageServer) (ns : Name) (now : UInt64)

/-- An exchange with plain parameters fails without effect or reaches the handler. -/
theorem exchange_cases {method : Bytes} (base body : Bytes)
    (hhost : 10 ∉ host) (hpre : Params pre) (hmethod : ∀ c ∈ method, isSpace c = false)
    (hmethodNe : method ≠ []) (hbase : ∀ c ∈ base, isSpace c = false) :
    exchange host s now method (withToken (pathWith base pre) token) body = (s, none) ∨
      ∃ s' response, s.handleHttp now ⟨method, pathWith base (pre ++ tokenParam token),
        requestHeaders host body, body⟩ = some (s', response) ∧
        exchange host s now method (withToken (pathWith base pre) token) body =
          (s', response.answer) := by
  rw [withToken_pathWith hpre.some]
  have hpath : ∀ c ∈ pathWith base (pre ++ tokenParam token), isSpace c = false := fun c hc =>
    not_isSpace_of_mem_pathWith hbase (hpre.unreserved_append token) hc
  rw [exchange]
  rcases receive_eq_none_or
    (formatHttpRequest method (pathWith base (pre ++ tokenParam token)) host body).length body
    hmethod hmethodNe hpath (by simp [pathWith]) hhost with hreceive | hreceive
  · left
    simp only [hreceive, Option.bind_none]
  · grind

theorem shrinks_exchange_digest (hhost : 10 ∉ host) :
    Shrinks s (exchange host s now (asciiBytes "GET") (withToken (digestPath ns) token) []).1 := by
  have hbase : 63 ∉ asciiBytes "/v1/digest" := by decide
  rw [digestPath_eq]
  rcases exchange_cases token s now (asciiBytes "/v1/digest") [] hhost (params_ns ns)
    (by decide : ∀ c ∈ asciiBytes "GET", isSpace c = false) (by decide) (by decide)
    with hnone | ⟨s', response, hhandle, hexchange⟩
  · rw [hnone]
    exact Shrinks.refl s
  · rw [hexchange]
    rw [handleHttp] at hhandle
    simp only [pathOnly_pathWith hbase] at hhandle
    rw [if_neg (by decide), if_pos ⟨trivial, trivial⟩] at hhandle
    grind [Shrinks, shrinks_dropExpired, shrinks_handleDigest]

theorem exchange_sync_held (hhost : 10 ∉ host) (wants : Bytes) {s' : StorageServer}
    {reply : Option Bytes}
    (h : exchange host s now (asciiBytes "POST") (withToken (syncPath ns) token) wants =
      (s', reply)) :
    Shrinks s s' ∧ ∀ body ∈ reply, ∀ e ∈ readFrames body.length body,
      s.values.lookup (ns, e.1) = some e.2 := by
  have hbase : 63 ∉ asciiBytes "/v1/sync" := by decide
  rw [syncPath_eq] at h
  rcases exchange_cases token s now (asciiBytes "/v1/sync") wants hhost (params_ns ns)
    (by decide : ∀ c ∈ asciiBytes "POST", isSpace c = false) (by decide) (by decide)
    with hnone | ⟨s'', response, hhandle, hexchange⟩
  · obtain ⟨rfl, rfl⟩ := Prod.mk.inj (hnone.symm.trans h)
    exact ⟨Shrinks.refl s, fun body hbody => by cases hbody⟩
  · obtain ⟨rfl, rfl⟩ := Prod.mk.inj (hexchange.symm.trans h)
    rw [handleHttp] at hhandle
    simp only [pathOnly_pathWith hbase] at hhandle
    rw [if_neg (by decide), if_neg (by decide), if_pos ⟨trivial, trivial⟩] at hhandle
    split_ifs at hhandle
    · cases hhandle
      exact ⟨Shrinks.refl s, fun body hbody => by cases hbody⟩
    · obtain ⟨rfl, hheld⟩ := handleSync_held (swept_dropExpired s now) (Option.some.inj hhandle)
      refine ⟨shrinks_dropExpired s now, fun body hbody e he => ?_⟩
      have hns : namespaceOf ⟨now, .other, pathQuery (pathWith (asciiBytes "/v1/sync")
          ([(asciiBytes "ns", ns)] ++ tokenParam token)), wants⟩ = ns := by
        rw [namespaceOf, (params_ns ns).queryGet hbase token _ (by decide)]
        simp
      have hlookup := hheld body hbody body.length e he
      exact shrinks_dropExpired s now _ _ (hns ▸ hlookup)

/-- A `PUT` through an exchange sets nothing but the entry that it names. -/
theorem lookup_exchange_put (hhost : 10 ∉ host) (hpre : Params pre)
    {key : Name} (hns : pre.lookup (asciiBytes "ns") = some ns)
    (hkey : pre.lookup (asciiBytes "key") = some key) {value : Bytes}
    {stored : Stored}
    (h : (exchange host s now (asciiBytes "PUT")
      (withToken (pathWith (asciiBytes "/v1/kv") pre) token) value).1.values.lookup name =
        some stored) :
    s.values.lookup name = some stored ∨ name = (ns, key) ∧ stored.value = value := by
  have hbase : 63 ∉ asciiBytes "/v1/kv" := by decide
  rcases exchange_cases token s now (asciiBytes "/v1/kv") value hhost hpre
    (by decide : ∀ c ∈ asciiBytes "PUT", isSpace c = false) (by decide) (by decide)
    with hnone | ⟨s', response, hhandle, hexchange⟩
  · rw [hnone] at h
    exact Or.inl h
  · rw [hexchange] at h
    rw [handleHttp] at hhandle
    simp only [pathOnly_pathWith hbase, if_true] at hhandle
    rw [← congrArg Prod.fst (Option.some.inj hhandle)] at h
    rcases lookup_handle h with hbefore | ⟨-, -, hname, rfl⟩
    · exact Or.inl hbefore
    · refine Or.inr ⟨?_, rfl⟩
      rw [hname, namespaceOf, keyOf, hpre.queryGet hbase token _ (by decide),
        hpre.queryGet hbase token _ (by decide), hns, hkey]
      rfl

end Exchanges

/-! ## Runs -/

/-- The request that brings a value to another server, on its way. -/
structure Replica (ι : Type*) where
  target : ι
  token : Bytes
  ns : Name
  key : Name
  ttl : UInt32
  value : Bytes

/-- Where a call of `gossip_with_peer` stands. -/
inductive Phase
  | listing
  | listed (remote : List (Name × Bytes))
  | asking (remote : List (Name × Bytes)) (own : List (Name × Stored))
  | taking (frames unsent : List (Name × Stored))
  | sending (unsent : List (Name × Stored))

structure GossipCall (ι : Type*) where
  server : ι
  peer : ι
  ns : Name
  phase : Phase := .listing

structure World (ι : Type*) where
  servers : ι → StorageServer
  calls : List (GossipCall ι) := []
  replicas : List (Replica ι) := []

/-- What becomes of an exchange. -/
inductive Delivery
  | done
  | requestLost
  | replyLost
deriving DecidableEq

inductive Event (ι : Type*)
  | request (server : ι) (r : KvRequest) (targets : List ι)
  | replicate (index : ℕ) (now : UInt64) (delivery : Delivery)
  | gossip (server peer : ι) (ns : Name)
  | advance (index : ℕ) (now : UInt64) (delivery : Delivery)

/-- The `ttl` of a replica, zero for none. -/
def ttlOf (ttlRaw : Bytes) : UInt32 :=
  if ttlRaw = [] then 0 else min (strtoul ttlRaw).toUInt32 maxTtl

def replicaPath (ns key : Name) (ttl : UInt32) : Bytes :=
  kvPath ns key ++ asciiBytes "&replicate=0" ++
    (if ttl = 0 then [] else asciiBytes "&ttl=" ++ toDecimal ttl.toNat)

section Steps

variable {ι : Type*} [DecidableEq ι] (host : ι → Bytes)

/-- An exchange with a server of the system. -/
def ask (servers : ι → StorageServer) (delivery : Delivery) (peer : ι) (now : UInt64)
    (method path body : Bytes) : (ι → StorageServer) × Option Bytes :=
  let result := exchange (host peer) (servers peer) now method path body
  match delivery with
  | .done => (Function.update servers peer result.1, result.2)
  | .requestLost => (servers, none)
  | .replyLost => (Function.update servers peer result.1, none)

/-- One step of a call. There is no phase left when it returns. -/
def GossipCall.advance (call : GossipCall ι) (servers : ι → StorageServer) (now : UInt64)
    (delivery : Delivery) : (ι → StorageServer) × Option Phase :=
  let token := (servers call.server).token
  match call.phase with
  | .listing =>
    let (servers, reply) := ask host servers delivery call.peer now (asciiBytes "GET")
      (withToken (digestPath call.ns) token) []
    (servers, reply.map fun body => .listed (parseDigestBody body))
  | .listed remote =>
    (servers, some (.asking remote ((servers call.server).liveEntries now call.ns)))
  | .asking remote own =>
    let keys := wantedKeys remote own
    if keys = [] then (servers, some (.sending (unlisted remote own)))
    else
      let (servers, reply) := ask host servers delivery call.peer now (asciiBytes "POST")
        (withToken (syncPath call.ns) token) (wantBody keys)
      (servers, some (reply.elim (.sending (unlisted remote own)) fun body =>
        .taking (readFrames body.length body) (unlisted remote own)))
  | .taking [] unsent => (servers, some (.sending unsent))
  | .taking (entry :: frames) unsent =>
    (Function.update servers call.server
      ((servers call.server).localPut now call.ns entry.1 entry.2), some (.taking frames unsent))
  | .sending [] => (servers, none)
  | .sending (entry :: unsent) =>
    if entry.2.expiry ≠ 0 ∧ entry.2.expiry ≤ now then (servers, some (.sending unsent))
    else
      ((ask host servers delivery call.peer now (asciiBytes "PUT")
        (withToken (pushPath now call.ns entry) token) entry.2.value).1,
        some (.sending unsent))

/-- The replicas that a request gives rise to. -/
def replicasOf (server : StorageServer) (r : KvRequest) (targets : List ι) : List (Replica ι) :=
  if r.method = .put ∧ (server.handle r).2 = .noContent ∧
      queryGet r.query (asciiBytes "replicate") ≠ asciiBytes "0" then
    targets.map fun target =>
      ⟨target, server.token, namespaceOf r, keyOf r, ttlOf (queryGet r.query (asciiBytes "ttl")),
        r.body⟩
  else []

def World.step (w : World ι) : Event ι → World ι
  | .request server r targets =>
    { w with
      servers := Function.update w.servers server ((w.servers server).handle r).1
      replicas := w.replicas ++ replicasOf (w.servers server) r targets }
  | .replicate index now delivery =>
    match w.replicas[index]? with
    | none => w
    | some replica =>
      { w with
        servers := (ask host w.servers delivery replica.target now (asciiBytes "PUT")
          (withToken (replicaPath replica.ns replica.key replica.ttl) replica.token)
          replica.value).1
        replicas := w.replicas.eraseIdx index }
  | .gossip server peer ns => { w with calls := w.calls ++ [⟨server, peer, ns, .listing⟩] }
  | .advance index now delivery =>
    match w.calls[index]? with
    | none => w
    | some call =>
      let (servers, phase) := call.advance host w.servers now delivery
      { w with
        servers
        calls := phase.elim (w.calls.eraseIdx index) fun phase =>
          w.calls.set index { call with phase } }

def World.after (w : World ι) (events : List (Event ι)) : World ι :=
  events.foldl (World.step host) w

end Steps

/-! ## A call without interruption -/

section Uninterrupted

variable {ι : Type*} [DecidableEq ι] (host : ι → Bytes)

/-- Steps of a call at one time, with no other step in between and nothing lost. -/
def GossipCall.advances (server peer : ι) (ns : Name) (now : UInt64) :
    ℕ → (ι → StorageServer) → Phase → (ι → StorageServer) × Option Phase
  | 0, servers, phase => (servers, some phase)
  | n + 1, servers, phase =>
    match GossipCall.advance host ⟨server, peer, ns, phase⟩ servers now .done with
    | (servers, none) => (servers, none)
    | (servers, some phase) => GossipCall.advances server peer ns now n servers phase

variable {host} {server peer : ι} (hne : server ≠ peer) (ns : Name) (now : UInt64)

theorem GossipCall.advances_taking (frames unsent : List (Name × Stored)) (n : ℕ)
    (servers : ι → StorageServer) :
    advances host server peer ns now (frames.length + 1 + n) servers (.taking frames unsent) =
      advances host server peer ns now n (Function.update servers server
        (frames.foldl (fun s entry => s.localPut now ns entry.1 entry.2) (servers server)))
        (.sending unsent) := by
  induction frames generalizing servers with
  | nil =>
    rw [List.length_nil, Nat.zero_add, Nat.add_comm, advances, List.foldl_nil,
      Function.update_eq_self]
    rfl
  | cons entry frames ih =>
    have hnext := ih (Function.update servers server
      ((servers server).localPut now ns entry.1 entry.2))
    rw [Function.update_self, Function.update_idem] at hnext
    rw [List.foldl_cons, ← hnext, List.length_cons, Nat.add_right_comm frames.length 1 1,
      Nat.add_right_comm _ 1 n, advances]
    rfl

include hne in
theorem GossipCall.advances_sending (unsent : List (Name × Stored))
    (servers : ι → StorageServer) :
    advances host server peer ns now (unsent.length + 1) servers (.sending unsent) =
      (Function.update servers peer
        (unsent.foldl (push (host peer) (servers server).token now ns) (servers peer)), none) := by
  induction unsent generalizing servers with
  | nil =>
    rw [List.foldl_nil, Function.update_eq_self]
    rfl
  | cons entry unsent ih =>
    have hstep : advances host server peer ns now ((entry :: unsent).length + 1) servers
        (.sending (entry :: unsent)) = advances host server peer ns now (unsent.length + 1)
          (Function.update servers peer
            (push (host peer) (servers server).token now ns (servers peer) entry))
          (.sending unsent) := by
      rw [List.length_cons, advances]
      simp only [GossipCall.advance, push]
      split_ifs
      · rw [Function.update_eq_self]
      · rfl
    rw [hstep, ih, Function.update_self, Function.update_idem, Function.update_of_ne hne,
      List.foldl_cons]

theorem token_localPut (s : StorageServer) (key : Name) (stored : Stored) :
    (s.localPut now ns key stored).token = s.token := by
  rw [localPut]
  split_ifs <;> rfl

theorem token_foldl_localPut (s : StorageServer) (frames : List (Name × Stored)) :
    (frames.foldl (fun s entry => s.localPut now ns entry.1 entry.2) s).token = s.token := by
  induction frames generalizing s with
  | nil => rfl
  | cons entry frames ih => rw [List.foldl_cons, ih, token_localPut]

include hne in
/-- Without interruption a call does what `gossipWithPeer` does to the two servers. -/
theorem GossipCall.exists_advances_eq (servers : ι → StorageServer) :
    ∃ n, advances host server peer ns now n servers .listing =
      (Function.update (Function.update servers server
        (gossipWithPeer (host peer) now ns (servers server, servers peer)).1) peer
        (gossipWithPeer (host peer) now ns (servers server, servers peer)).2, none) := by
  generalize htoken : (servers server).token = token
  generalize hlist : exchange (host peer) (servers peer) now (asciiBytes "GET")
    (withToken (digestPath ns) token) [] = listing
  obtain ⟨peer₁, reply⟩ := listing
  cases reply with
  | none =>
    refine ⟨1, ?_⟩
    simp only [advances, GossipCall.advance, ask, htoken, hlist, gossipWithPeer, Option.map_none,
      Function.update_eq_self]
  | some body =>
    set remote := parseDigestBody body with hremote
    set own := (servers server).liveEntries now ns with hown
    set servers₁ := Function.update servers peer peer₁ with hservers₁
    have hserver₁ : servers₁ server = servers server := Function.update_of_ne hne _ _
    have hlisted : ∀ n, advances host server peer ns now (n + 2) servers .listing =
        advances host server peer ns now n servers₁ (.asking remote own) := by
      intro n
      simp only [advances, GossipCall.advance, ask, htoken, hlist, Option.map_some, ← hremote,
        ← hservers₁, hserver₁, ← hown]
    by_cases hkeys : wantedKeys remote own = []
    · refine ⟨(unlisted remote own).length + 1 + 1 + 2, ?_⟩
      rw [hlisted, advances]
      simp only [GossipCall.advance, hkeys, if_true, advances_sending hne, htoken,
        gossipWithPeer, hlist, ← hremote, ← hown, pull, Function.update_eq_self, hservers₁,
        Function.update_self, Function.update_of_ne hne, Function.update_idem]
    · generalize hsync : exchange (host peer) peer₁ now (asciiBytes "POST")
        (withToken (syncPath ns) token) (wantBody (wantedKeys remote own)) = sync
      obtain ⟨peer₂, reply⟩ := sync
      cases reply with
      | none =>
        refine ⟨(unlisted remote own).length + 1 + 1 + 2, ?_⟩
        rw [hlisted, advances]
        simp only [GossipCall.advance, hkeys, if_false, ask, htoken, hsync,
          Option.elim_none, advances_sending hne, Function.update_of_ne hne, gossipWithPeer, hlist,
          ← hremote, ← hown, pull, Function.update_eq_self, hservers₁, Function.update_self,
          Function.update_idem]
      | some frames =>
        refine ⟨(readFrames frames.length frames).length + 1 +
          ((unlisted remote own).length + 1) + 1 + 2, ?_⟩
        rw [hlisted, advances]
        simp only [GossipCall.advance, hkeys, if_false, ask, htoken, hsync,
          Option.elim_some, advances_taking, advances_sending hne, Function.update_of_ne hne,
          Function.update_of_ne hne.symm, gossipWithPeer, hlist, ← hremote, ← hown, pull,
          applySync, hservers₁, Function.update_self, Function.update_idem, token_foldl_localPut]
        rw [Function.update_comm hne, Function.update_idem, Function.update_comm hne.symm]

end Uninterrupted

/-! ## One value under a name -/

section Copies

variable {ι : Type*}

/-- The entries that a call carries with it. -/
def Phase.copies : Phase → List (Name × Stored)
  | .listing => []
  | .listed _ => []
  | .asking _ own => own
  | .taking frames unsent => frames ++ unsent
  | .sending unsent => unsent

/-- Every entry of the list under the key has the value. -/
def ListsOnly (key : Name) (value : Bytes) (entries : List (Name × Stored)) : Prop :=
  ∀ stored, (key, stored) ∈ entries → stored.value = value

/-- Every server that has an entry under the name has the value. -/
def HoldOnly (ns key : Name) (value : Bytes) (servers : ι → StorageServer) : Prop :=
  ∀ i stored, (servers i).values.lookup (ns, key) = some stored → stored.value = value

/-- Wherever there is an entry of a name, in a server, a call or on the way, it has the value. -/
structure OnlyValue (ns key : Name) (value : Bytes) (w : World ι) : Prop where
  servers : HoldOnly ns key value w.servers
  calls : ∀ call ∈ w.calls, call.ns = ns → ListsOnly key value call.phase.copies
  replicas : ∀ r ∈ w.replicas, r.ns = ns → r.key = key → r.value = value

def Event.SetsOther (ns key : Name) (value : Bytes) : Event ι → Prop
  | .request _ r _ => r.method = .put ∧ namespaceOf r = ns ∧ keyOf r = key ∧ r.body ≠ value
  | _ => False

variable [DecidableEq ι] {host : ι → Bytes} {ns key : Name} {value : Bytes}
  {servers : ι → StorageServer}

theorem HoldOnly.update (h : HoldOnly ns key value servers) {i : ι}
    (hs : ∀ stored, s.values.lookup (ns, key) = some stored → stored.value = value) :
    HoldOnly ns key value (Function.update servers i s) := by
  grind [HoldOnly]

theorem HoldOnly.of_ask (h : HoldOnly ns key value servers) (delivery : Delivery) {peer : ι}
    {method path body : Bytes}
    (hs : ∀ stored, (exchange (host peer) (servers peer) now method path body).1.values.lookup
      (ns, key) = some stored → stored.value = value) :
    HoldOnly ns key value (ask host servers delivery peer now method path body).1 := by
  cases delivery with
  | done => exact h.update hs
  | requestLost => exact h
  | replyLost => exact h.update hs

theorem ask_reply {delivery : Delivery} {peer : ι} {method path body reply : Bytes}
    (h : (ask host servers delivery peer now method path body).2 = some reply) :
    (exchange (host peer) (servers peer) now method path body).2 = some reply := by
  cases delivery with
  | done => simpa only [ask] using h
  | requestLost => cases h
  | replyLost => cases h

/-- A `PUT` that goes out changes at most the entry that it names. -/
theorem HoldOnly.put (h : HoldOnly ns key value servers) (hhost : ∀ i, 10 ∉ host i)
    (delivery : Delivery) (peer : ι) (now time : UInt64) (token : Bytes) (ns' : Name)
    (entry : Name × Stored) (hentry : ns' = ns → entry.1 = key → entry.2.value = value) :
    HoldOnly ns key value (ask host servers delivery peer now (asciiBytes "PUT")
      (withToken (pathWith (asciiBytes "/v1/kv") (pushParams time ns' entry)) token)
      entry.2.value).1 := by
  obtain ⟨hns, hkey, -⟩ := lookup_pushParams time ns' entry
  refine h.of_ask delivery fun stored hlookup => ?_
  rcases lookup_exchange_put token (servers peer) ns' now (hhost peer) (params_push time ns' entry)
    hns hkey hlookup with hbefore | ⟨hname, hvalue⟩
  · exact h peer stored hbefore
  · obtain ⟨rfl, rfl⟩ := Prod.mk.inj hname
    rw [hvalue, hentry rfl rfl]

theorem HoldOnly.digest (h : HoldOnly ns key value servers) (hhost : ∀ i, 10 ∉ host i)
    (delivery : Delivery) (peer : ι) (now : UInt64) (token : Bytes) (ns' : Name) :
    HoldOnly ns key value (ask host servers delivery peer now (asciiBytes "GET")
      (withToken (digestPath ns') token) []).1 :=
  h.of_ask delivery fun stored hlookup => h peer stored
    (shrinks_exchange_digest token (servers peer) ns' now (hhost peer) (ns, key) stored hlookup)

/-- A request for values changes nothing, and its reply has entries of the peer. -/
theorem HoldOnly.sync (h : HoldOnly ns key value servers) (hhost : ∀ i, 10 ∉ host i)
    (delivery : Delivery) (peer : ι) (now : UInt64) (token : Bytes) (ns' : Name) (wants : Bytes) :
    HoldOnly ns key value (ask host servers delivery peer now (asciiBytes "POST")
      (withToken (syncPath ns') token) wants).1 ∧
    ∀ body, (ask host servers delivery peer now (asciiBytes "POST")
      (withToken (syncPath ns') token) wants).2 = some body → ns' = ns →
      ListsOnly key value (readFrames body.length body) := by
  generalize hresult : exchange (host peer) (servers peer) now (asciiBytes "POST")
    (withToken (syncPath ns') token) wants = result
  obtain ⟨hshrinks, hheld⟩ := exchange_sync_held token (servers peer) ns' now (hhost peer) wants
    hresult
  constructor
  · refine h.of_ask delivery fun stored hlookup => ?_
    rw [hresult] at hlookup
    exact h peer stored (hshrinks _ _ hlookup)
  · rintro body hbody rfl stored he
    have hreply := ask_reply hbody
    rw [hresult] at hreply
    exact h peer stored (hheld body hreply _ he)

theorem ListsOnly.append : ListsOnly key value (entries ++ entries') ↔
      ListsOnly key value entries ∧ ListsOnly key value entries' := by
  grind [ListsOnly]

theorem ListsOnly.of_subset
    (h : ListsOnly key value entries) (hsubset : ∀ e ∈ entries', e ∈ entries) :
    ListsOnly key value entries' := fun stored he => h stored (hsubset _ he)

/-- A step of a call spreads only what there is. -/
theorem GossipCall.advance_only (call : GossipCall ι) (hhost : ∀ i, 10 ∉ host i)
    (h : HoldOnly ns key value servers)
    (hcopies : call.ns = ns → ListsOnly key value call.phase.copies) (now : UInt64)
    (delivery : Delivery) :
    HoldOnly ns key value (call.advance host servers now delivery).1 ∧
      ∀ phase ∈ (call.advance host servers now delivery).2, call.ns = ns →
        ListsOnly key value phase.copies := by
  obtain ⟨server, peer, ns', phase⟩ := call
  match phase with
  | .listing =>
    refine ⟨h.digest hhost delivery peer now (servers server).token ns',
      fun phase hphase _ stored he => ?_⟩
    obtain ⟨body, -, rfl⟩ := Option.map_eq_some_iff.mp hphase
    cases he
  | .listed remote =>
    refine ⟨h, fun phase hphase hns stored he => ?_⟩
    cases hphase
    obtain rfl : ns' = ns := hns
    exact h server stored (live_eq_some.mp (mem_liveEntries.mp he)).1
  | .asking remote own =>
    have hunsent : ns' = ns → ListsOnly key value (unlisted remote own) := fun hns =>
      (hcopies hns).of_subset fun e he => (mem_filter.mp he).1
    simp only [GossipCall.advance]
    split_ifs with hkeys
    · exact ⟨h, fun phase hphase hns => by cases hphase; exact hunsent hns⟩
    · obtain ⟨hservers, hreply⟩ := h.sync hhost delivery peer now (servers server).token ns'
        (wantBody (wantedKeys remote own))
      generalize ask host servers delivery peer now (asciiBytes "POST")
        (withToken (syncPath ns') (servers server).token) (wantBody (wantedKeys remote own)) =
          result at hservers hreply
      refine ⟨hservers, fun phase hphase hns => ?_⟩
      cases hphase
      cases hbody : result.2 with
      | none => exact hunsent hns
      | some body => exact ListsOnly.append.mpr ⟨hreply body hbody hns, hunsent hns⟩
  | .taking [] unsent =>
    exact ⟨h, fun phase hphase hns => by cases hphase; exact hcopies hns⟩
  | .taking (entry :: frames) unsent =>
    refine ⟨h.update fun stored hlookup => ?_, fun phase hphase hns => ?_⟩
    · rcases lookup_localPut hlookup with hbefore | ⟨hname, rfl⟩
      · exact h server stored hbefore
      · obtain ⟨rfl, rfl⟩ := Prod.mk.inj hname
        exact hcopies rfl entry.2 mem_cons_self
    · cases hphase
      exact (hcopies hns).of_subset fun e he => mem_cons_of_mem _ he
  | .sending [] => exact ⟨h, fun phase hphase => by cases hphase⟩
  | .sending (entry :: unsent) =>
    have hunsent : ns' = ns → ListsOnly key value unsent := fun hns =>
      (hcopies hns).of_subset fun e he => mem_cons_of_mem _ he
    simp only [GossipCall.advance]
    split_ifs
    · exact ⟨h, fun phase hphase hns => by cases hphase; exact hunsent hns⟩
    · have hpath : pushPath now ns' entry = pathWith (asciiBytes "/v1/kv")
          (pushParams now ns' entry) := pushPath_eq now ns' entry
      rw [hpath]
      refine ⟨h.put hhost delivery peer now now _ ns' entry fun hns hkey => ?_,
        fun phase hphase hns => by cases hphase; exact hunsent hns⟩
      exact hcopies hns entry.2 (hkey ▸ mem_cons_self)

theorem replicaPath_eq (ns key : Name) (ttl : UInt32) (value : Bytes) : replicaPath ns key ttl =
      pathWith (asciiBytes "/v1/kv") (pushParams 0 ns (key, ⟨value, ttl.toUInt64⟩)) := by
  have hzero : ttl.toUInt64 = 0 ↔ ttl = 0 := by
    rw [← UInt64.toNat_inj, ← UInt32.toNat_inj, UInt32.toNat_toUInt64]
    rfl
  rw [pushParams, ← pushPath_eq]
  simp [replicaPath, pushPath, hzero]

theorem OnlyValue.step {w : World ι} (h : OnlyValue ns key value w) (hhost : ∀ i, 10 ∉ host i)
    {event : Event ι} (hevent : ¬event.SetsOther ns key value) :
    OnlyValue ns key value (w.step host event) := by
  cases event with
  | request server r targets =>
    have hbody : r.method = .put → namespaceOf r = ns → keyOf r = key → r.body = value :=
      fun hput hns hkey => by_contra fun hne => hevent ⟨hput, hns, hkey, hne⟩
    refine ⟨h.servers.update fun stored hlookup => ?_, h.calls, fun replica hreplica hns hkey => ?_⟩
    · rcases lookup_handle hlookup with hbefore | ⟨hput, -, hname, rfl⟩
      · exact h.servers server stored hbefore
      · obtain ⟨hns, hkey⟩ := Prod.mk.inj hname
        exact hbody hput hns.symm hkey.symm
    · grind [World.step, replicasOf, h.replicas]
  | replicate index now delivery =>
    rw [World.step]
    cases hreplica : w.replicas[index]? with
    | none => exact h
    | some replica =>
      refine ⟨?_, h.calls, fun r hr => h.replicas r (mem_of_mem_eraseIdx hr)⟩
      have hmem := mem_of_getElem? hreplica
      dsimp only
      rw [replicaPath_eq _ _ _ replica.value]
      exact h.servers.put hhost delivery _ now 0 _ replica.ns
        (replica.key, ⟨replica.value, replica.ttl.toUInt64⟩) (h.replicas replica hmem)
  | gossip server peer ns' =>
    refine ⟨h.servers, fun call hcall => ?_, h.replicas⟩
    grind [World.step, ListsOnly, Phase.copies, h.calls]
  | advance index now delivery =>
    rw [World.step]
    cases hcall : w.calls[index]? with
    | none => exact h
    | some call =>
      obtain ⟨hservers, hphase⟩ := call.advance_only hhost h.servers
        (h.calls call (mem_of_getElem? hcall)) now delivery
      refine ⟨hservers, fun call' hcall' => ?_, h.replicas⟩
      dsimp only at hcall'
      cases hnext : (call.advance host w.servers now delivery).2 with
      | none =>
        rw [hnext] at hcall'
        exact h.calls call' (mem_of_mem_eraseIdx hcall')
      | some phase =>
        grind [h.calls]

theorem OnlyValue.after {w : World ι} (h : OnlyValue ns key value w) (hhost : ∀ i, 10 ∉ host i)
    {events : List (Event ι)} (hevents : ∀ e ∈ events, ¬e.SetsOther ns key value) :
    OnlyValue ns key value (w.after host events) := by
  induction events generalizing w with
  | nil => exact h
  | cons event events ih =>
    exact ih (h.step hhost (hevents event mem_cons_self))
      fun e he => hevents e (mem_cons_of_mem _ he)

/-- When a server has answered 204 and the value is then the only one left under the name, it
stays so until another request sets the name to another value. -/
theorem acknowledged_value_kept (hhost : ∀ i, 10 ∉ host i) (w : World ι) (server : ι)
    (r : KvRequest) (targets : List ι) (hput : r.method = .put)
    (hanswer : ((w.servers server).handle r).2 = .noContent)
    (honly : OnlyValue (namespaceOf r) (keyOf r) r.body (w.step host (.request server r targets)))
    (later : List (Event ι))
    (hlater : ∀ e ∈ later, ¬e.SetsOther (namespaceOf r) (keyOf r) r.body) :
    (∃ stored, ((w.step host (.request server r targets)).servers server).values.lookup
      (namespaceOf r, keyOf r) = some stored ∧ stored.value = r.body) ∧
    ∀ i stored, ((w.after host (.request server r targets :: later)).servers i).values.lookup
      (namespaceOf r, keyOf r) = some stored → stored.value = r.body := by
  refine ⟨⟨⟨r.body, expiryOf r.now (queryGet r.query (asciiBytes "ttl"))⟩, ?_, rfl⟩,
    (honly.after hhost hlater).servers⟩
  simp only [World.step, Function.update_self]
  exact lookup_handle_of_noContent hput hanswer

end Copies

section Sample

/-- A request for an entry of the namespace `n`. -/
def setRequest (now : UInt64) (params : String) (body : Bytes) : KvRequest :=
  ⟨now, .put, asciiBytes "ns=n&key=" ++ asciiBytes params, body⟩

def sampleSpace : Name := asciiBytes "n"
def sampleHost : Bytes := asciiBytes "127.0.0.1:22021"

def serverAfter (requests : List KvRequest) : StorageServer :=
  StorageServer.after ⟨none, [], .empty, ∅⟩ requests

def emptyWorld : World Bool := { servers := fun _ => serverAfter [] }

def hostOf (_ : Bool) : Bytes := sampleHost

def firstRequest : KvRequest := setRequest 90 "a" [1]
def secondRequest : KvRequest := setRequest 91 "a" [2]

/-- A whole round of the first server, in a system without other calls. -/
def oneRound : List (Event Bool) :=
  .gossip true false sampleSpace :: List.replicate 6 (.advance 0 92 .done)

theorem onlyValue_emptyWorld (ns key : Name) (value : Bytes) :
    OnlyValue ns key value emptyWorld where
  servers i stored h := by cases h
  calls call h := by cases h
  replicas r h := by cases h

theorem firstRequest_kept :
    ((emptyWorld.servers true).handle firstRequest).2 = .noContent ∧
    ∀ i stored, ((emptyWorld.after hostOf (.request true firstRequest [false] ::
      .replicate 0 90 .requestLost :: oneRound)).servers i).values.lookup
        (sampleSpace, asciiBytes "a") = some stored → stored.value = [1] := by
  have hns : namespaceOf firstRequest = sampleSpace := by decide
  have hkey : keyOf firstRequest = asciiBytes "a" := by decide
  have hhost : ∀ i, 10 ∉ hostOf i := by decide
  have hkept := (acknowledged_value_kept hhost emptyWorld true firstRequest [false] rfl
    (by decide) ((onlyValue_emptyWorld _ _ _).step hhost ?_)
    (.replicate 0 90 .requestLost :: oneRound) ?_).2
  · rw [hns, hkey] at hkept
    exact ⟨by decide, hkept⟩
  · simp [Event.SetsOther]
  · simp [oneRound, Event.SetsOther]

def bothReached : World Bool :=
  emptyWorld.after hostOf [.request true firstRequest [false], .replicate 0 90 .done]

/-- The second value is accepted, its replica is lost, and the round that follows brings the
first one back. -/
theorem older_value_returns :
    ((bothReached.servers true).handle secondRequest).2 = .noContent ∧
    ((bothReached.step hostOf (.request true secondRequest [false])).servers
      true).values.lookup (sampleSpace, asciiBytes "a") = some ⟨[2], 0⟩ ∧
    ((bothReached.after hostOf (.request true secondRequest [false] ::
      .replicate 0 91 .requestLost :: oneRound)).servers
      true).values.lookup (sampleSpace, asciiBytes "a") = some ⟨[1], 0⟩ := by
  refine ⟨?_, ?_, ?_⟩
  · decide
  · decide
  · decide +kernel

end Sample
end Arqma.Storage
