import Arqma.Blink
import Arqma.ConnMatrix
import Arqma.ServiceNodeState

/-!
# Relaying votes within a quorum

A node that relays a vote looks up its position in the quorum, takes the members it is
connected to from the connection matrices and adds those whose address is known to its
peers. Pulse quorums have up to 11 members, Blink and obligations quorums up to 10; the
matrices start at 7 and leave 11 out.
-/
namespace Arqma.Arqnet
open Arqma.Cryptonote List

abbrev X25519PublicKey := BitVec 256

structure PeerInfo where
  remotes : PublicKey → Option (X25519PublicKey × String)
  peers : AList (fun _ : X25519PublicKey => String) := ∅
  strongPeers : ℕ := 0
  myPosition : List (Option ℕ)

namespace PeerInfo

def myPositionCount (info : PeerInfo) : ℕ := info.myPosition.countP Option.isSome

/-- A peer without an address is only written to if it is connected already; a strong one
gets its address. The flag says that the peer is new or has become strong. -/
def addPeer (info : PeerInfo) (pubkey : PublicKey) (strong : Bool) : PeerInfo × Bool :=
  match info.remotes pubkey with
  | none => (info, false)
  | some (x25519, address) =>
    match info.peers.lookup x25519 with
    | none =>
      ({ info with
          peers := info.peers.insert x25519 (if strong then address else "")
          strongPeers := if strong then info.strongPeers + 1 else info.strongPeers },
        true)
    | some held =>
      if strong && held = "" then
        ({ info with
            peers := info.peers.insert x25519 address
            strongPeers := info.strongPeers + 1 },
          true)
      else (info, false)

def addPeers (info : PeerInfo) (validators : List PublicKey) (strong : Bool) (indices : List ℕ) :
    Except RelayError PeerInfo :=
  indices.foldlM (fun info j =>
    match validators[j]? with
    | none => .error .outOfRange
    | some key => .ok (info.addPeer key strong).1) info

/-- A member that is not in the next quorum is the link to it, if it is in the upper half. -/
def linkToNext (info : PeerInfo) (validators next : List PublicKey) (position : ℕ) :
    Except RelayError PeerInfo :=
  let half := min validators.length next.length / 2
  if half ≤ position ∧ position < half * 2 then
    info.addPeers validators true [position - half]
  else .ok info

/-- And to the quorum before, if it is in the lower half. -/
def linkToPrevious (info : PeerInfo) (validators previous : List PublicKey) (position : ℕ) :
    Except RelayError PeerInfo :=
  let half := min validators.length previous.length / 2
  if position < half then info.addPeers previous true [half + position] else .ok info

/-- The part of one quorum. -/
def computeQuorumPeers (quorums : List (List PublicKey)) (info : PeerInfo) (i : ℕ) :
    Except RelayError PeerInfo :=
  match info.myPosition[i]?, quorums[i]? with
  | some (some position), some validators => do
    let outgoing ← quorumOutgoingConns position validators.length
    let info ← info.addPeers validators true outgoing
    let incoming ← quorumIncomingConns position validators.length
    let info ← info.addPeers validators false incoming
    let info ← match quorums[i + 1]?, info.myPosition[i + 1]? with
      | some next, some none => info.linkToNext validators next position
      | _, _ => .ok info
    match i with
    | 0 => .ok info
    | j + 1 =>
      match quorums[j]?, info.myPosition[j]? with
      | some previous, some none => info.linkToPrevious validators previous position
      | _, _ => .ok info
  | _, _ => .ok info

def computePeers (info : PeerInfo) (quorums : List (List PublicKey)) :
    Except RelayError PeerInfo :=
  (List.range quorums.length).foldlM (computeQuorumPeers quorums) { info with strongPeers := 0 }

end PeerInfo

/-- The last place of a key in the quorum. -/
def positionOf (pub : PublicKey) (validators : List PublicKey) : Option ℕ :=
  validators.zipIdx.foldl (fun position v => if v.1 = pub then some v.2 else position) none

/-- The constructor of `peer_info`. `proofs` is what the service node list knows of a node's
keys and address, if it is active. -/
def peerInfo (proofs : PublicKey → Option (X25519PublicKey × String)) (pub : PublicKey)
    (quorums : List (List PublicKey)) : Except RelayError PeerInfo :=
  let needRemotes := quorums.flatten.filter fun key => key ≠ pub
  PeerInfo.computePeers
    { remotes := fun key => if key ∈ needRemotes then proofs key else none
      myPosition := quorums.map (positionOf pub) } quorums

section Relay

variable (proofs : PublicKey → Option (X25519PublicKey × String)) (pub : PublicKey)

/-- The peers a vote is sent to, none if it is not sent. -/
def relayToQuorum (validators : List PublicKey) : Except RelayError (Option PeerInfo) :=
  if validators = [] then .ok none
  else do
    let info ← peerInfo proofs pub [validators]
    return if info.myPositionCount = 0 then none else some info

def relayPulseVote (crypto : Crypto) (active : List PublicKey) (vote : Pulse.RelayVote) :
    Except RelayError (Option PeerInfo) :=
  relayToQuorum proofs pub (Pulse.quorumPubkeys crypto vote.height active vote.round)

def blinkQuorum (crypto : Crypto) (height : ℕ) (active : List PublicKey) : List PublicKey :=
  (Blink.quorumIndices crypto height active.length Blink.kQuorumSize).filterMap fun i => active[i]?

def relayBlinkVote (crypto : Crypto) (active : List PublicKey) (vote : Blink.RelayVote) :
    Except RelayError (Option PeerInfo) :=
  relayToQuorum proofs pub (blinkQuorum crypto vote.height active)

end Relay

section Defined

variable {proofs : PublicKey → Option (X25519PublicKey × String)} {pub : PublicKey}
  {validators : List PublicKey}

/-- The peers of a member can be computed: both walks over the matrix end without an error
at members of the quorum. -/
def RelayDefined (proofs : PublicKey → Option (X25519PublicKey × String)) (pub : PublicKey)
    (validators : List PublicKey) : Prop :=
  (∃ info, peerInfo proofs pub [validators] = .ok info) ∧
    ∀ position ∈ positionOf pub validators, ∃ outgoing incoming,
      quorumOutgoingConns position validators.length = .ok outgoing ∧
        quorumIncomingConns position validators.length = .ok incoming ∧
        (∀ j ∈ outgoing, j < validators.length) ∧ ∀ j ∈ incoming, j < validators.length

theorem positionOf_append (validators : List PublicKey) (key : PublicKey) :
    positionOf pub (validators ++ [key]) =
      if key = pub then some validators.length else positionOf pub validators := by
  simp [positionOf, zipIdx_append]

theorem positionOf_lt {position : ℕ} (h : positionOf pub validators = some position) :
    position < validators.length := by
  induction validators using List.reverseRecOn with
  | nil => simp [positionOf] at h
  | append_singleton validators key ih =>
    grind [positionOf_append]

theorem isSome_positionOf (h : pub ∈ validators) : (positionOf pub validators).isSome = true := by
  induction validators using List.reverseRecOn with
  | nil => cases h
  | append_singleton validators key ih =>
    grind [positionOf_append]

theorem addPeers_ok (info : PeerInfo) (strong : Bool) {indices : List ℕ}
    (h : ∀ j ∈ indices, j < validators.length) :
    ∃ info', info.addPeers validators strong indices = .ok info' := by
  induction indices generalizing info with
  | nil => exact ⟨info, rfl⟩
  | cons j indices ih =>
    have hlt := h j mem_cons_self
    obtain ⟨info', hinfo⟩ := ih (info.addPeer validators[j] strong).1
      fun k hk => h k (mem_cons_of_mem j hk)
    refine ⟨info', ?_⟩
    rw [PeerInfo.addPeers, foldlM_cons, getElem?_eq_getElem hlt]
    exact hinfo

/-- The only quorum has no neighbours to be linked to. -/
theorem computePeers_ok {info : PeerInfo} {position : ℕ} {outgoing incoming : List ℕ}
    (hposition : info.myPosition = [some position])
    (houtgoing : quorumOutgoingConns position validators.length = .ok outgoing)
    (hincoming : quorumIncomingConns position validators.length = .ok incoming)
    (hbelow : ∀ j ∈ outgoing, j < validators.length)
    (hbelow' : ∀ j ∈ incoming, j < validators.length) :
    ∃ info', info.computePeers [validators] = .ok info' := by
  obtain ⟨strong, hstrong⟩ := addPeers_ok { info with strongPeers := 0 } true hbelow
  obtain ⟨weak, hweak⟩ := addPeers_ok strong false hbelow'
  refine ⟨weak, ?_⟩
  rw [hposition] at hstrong
  simp [PeerInfo.computePeers, PeerInfo.computeQuorumPeers, hposition, houtgoing, hincoming,
    hstrong, hweak, bind, Except.bind, pure, Except.pure]

/-- Within one quorum only the matrix decides. -/
theorem relayDefined_iff (hmember : pub ∈ validators) :
    RelayDefined proofs pub validators ↔ (getMatrix validators.length).isSome = true := by
  obtain ⟨position, hposition⟩ := Option.isSome_iff_exists.mp (isSome_positionOf hmember)
  have hlt := positionOf_lt hposition
  constructor
  · rintro ⟨-, hconns⟩
    obtain ⟨outgoing, -, houtgoing, -⟩ := hconns position hposition
    cases hmatrix : getMatrix validators.length with
    | none =>
      rw [quorumOutgoingConns_of_unsupported hmatrix (by omega)] at houtgoing
      cases houtgoing
    | some flags => rfl
  · intro hmatrix
    obtain ⟨f, g, houtgoing, hincoming⟩ := quorumConns_of_supported hmatrix hlt
    have hbelow : ∀ f : ℕ → Bool, ∀ j ∈ (List.range validators.length).filter f,
        j < validators.length :=
      fun f j hj => mem_range.mp (mem_of_mem_filter hj)
    refine ⟨?_, fun p hp => ?_⟩
    · exact computePeers_ok (by simp [hposition]) houtgoing hincoming (hbelow f) (hbelow g)
    · rw [hposition, Option.mem_def, Option.some.injEq] at hp
      subst hp
      exact ⟨_, _, houtgoing, hincoming, hbelow f, hbelow g⟩

theorem blinkQuorum_length (crypto : Crypto) (height : ℕ) (active : List PublicKey) :
    (blinkQuorum crypto height active).length = min active.length Blink.kQuorumSize := by
  grind [Blink.quorumIndices_eq_pulse, Pulse.quorumIndices_lt, blinkQuorum,
    length_filterMap_eq_countP, countP_eq_length.mpr, Blink.quorumIndices]

end Defined

/-- For which numbers of active nodes a member of a quorum can relay within it: with 7 to 10
in Pulse rounds, from 7 on in Blink and obligations quorums. -/
theorem relay_defined_iff (proofs : PublicKey → Option (X25519PublicKey × String))
    (pub : PublicKey) (crypto : Crypto) (rng : RandomEngine) :
    (∀ (active : List PublicKey) (height round : ℕ),
      pub ∈ Pulse.quorumPubkeys crypto height active round →
        (RelayDefined proofs pub (Pulse.quorumPubkeys crypto height active round) ↔
          7 ≤ active.length ∧ active.length ≤ 10)) ∧
    (∀ (active : List PublicKey) (height : ℕ), pub ∈ blinkQuorum crypto height active →
      (RelayDefined proofs pub (blinkQuorum crypto height active) ↔ 7 ≤ active.length)) ∧
    ∀ s : ServiceNodes.State, pub ∈ (ServiceNodes.obligationsQuorum rng s).validators →
      (RelayDefined proofs pub (ServiceNodes.obligationsQuorum rng s).validators ↔
        7 ≤ s.activeServiceNodesInfos.length) := by
  refine ⟨fun active height round hmember => ?_, fun active height hmember => ?_,
    fun s hmember => ?_⟩
  · rw [relayDefined_iff hmember, isSome_getMatrix_iff, Pulse.quorumPubkeys_length,
      Pulse.kQuorumSize]
    omega
  · rw [relayDefined_iff hmember, isSome_getMatrix_iff, blinkQuorum_length, Blink.kQuorumSize]
    omega
  · rw [relayDefined_iff hmember, isSome_getMatrix_iff,
      ServiceNodes.obligationsQuorum_validators_length, ServiceNodes.stateChangeQuorumSize]
    omega

section Sample

def keysUpTo (n : ℕ) : List PublicKey := (List.range n).map (BitVec.ofNat 256)

def eightNodes : ServiceNodes.State where
  serviceNodesInfos := ((keysUpTo 8).map fun key => ⟨key, {}⟩).toAList

theorem eight_nodes_relay :
    RelayDefined (fun _ => none) 3 (Pulse.quorumPubkeys Pulse.sampleCrypto 10 (keysUpTo 8) 0) ∧
      RelayDefined (fun _ => none) 3 (blinkQuorum Pulse.sampleCrypto 10 (keysUpTo 8)) ∧
      ∃ pub ∈ (ServiceNodes.obligationsQuorum RandomEngine.zero eightNodes).validators,
        RelayDefined (fun _ => none) pub
          (ServiceNodes.obligationsQuorum RandomEngine.zero eightNodes).validators := by
  have hactive : eightNodes.activeServiceNodesInfos.length = 8 := by
    decide
  have hpos :
      0 < (ServiceNodes.obligationsQuorum RandomEngine.zero eightNodes).validators.length := by
    rw [ServiceNodes.obligationsQuorum_validators_length, hactive]
    decide
  obtain ⟨pub, hmember⟩ := List.exists_mem_of_length_pos hpos
  have hrelay := relay_defined_iff (fun _ => none) pub Pulse.sampleCrypto RandomEngine.zero
  have hrelay3 := relay_defined_iff (fun _ => none) 3 Pulse.sampleCrypto RandomEngine.zero
  refine ⟨(hrelay3.1 (keysUpTo 8) 10 0 (by decide)).mpr (by simp [keysUpTo]),
    (hrelay3.2.1 (keysUpTo 8) 10 (by decide)).mpr (by simp [keysUpTo]),
    pub, hmember, (hrelay.2.2 eightNodes hmember).mpr ?_⟩
  rw [hactive]
  decide

/-- With eleven active nodes all are in the Pulse quorum and there is no matrix for it: the
constructor throws for the first member and reads through null for another. -/
theorem eleven_nodes_relay :
    Pulse.quorumPubkeys Pulse.sampleCrypto 10 (keysUpTo 11) 0 = keysUpTo 11 ∧
      (relayPulseVote (fun _ => none) 0 Pulse.sampleCrypto (keysUpTo 11)
        { height := 10 }).map (fun _ => ()) = .error (.domainError 11) ∧
      (relayPulseVote (fun _ => none) 3 Pulse.sampleCrypto (keysUpTo 11)
        { height := 10 }).map (fun _ => ()) = .error .nullRead := by
  decide

end Sample

end Arqma.Arqnet
