import Arqma.AssocMap
import Arqma.ServiceNodeList

/-!
# Uptime proofs

For every node the list keeps what its last uptime proof said, and it keeps a map from
x25519 keys to the nodes that proved them. The map is written where a proof is recorded and
when the list is loaded. The stored proofs change in more places: a registration resets the
proof of its node, a state change touches it, votes and reachability reports are noted in
it, and the clean-up drops what belongs to no node.
-/
namespace Arqma.ServiceNodes
open Arqma.Cryptonote

abbrev Ed25519PublicKey := BitVec 256
abbrev X25519PublicKey := BitVec 256
abbrev Ed25519Signature := BitVec 512

def uptimeProofBufferInSeconds : UInt64 := 300
def uptimeProofFrequencyInSeconds : UInt64 := 3600
def x25519MapPruningInterval : UInt64 := 3000
def x25519MapPruningLag : UInt64 := 86400

/-- The least version of a node that proves its uptime, from a hard fork on. -/
def minUptimeProofVersions : List (ℕ × List ℕ) :=
  [(18, [9, 0, 0]), (17, [8, 0, 0]), (16, [7, 2, 0])]

/-- `NOTIFY_UPTIME_PROOF::request`. -/
structure UptimeProof where
  arqmaSnodeVersion : List ℕ
  timestamp : UInt64
  publicIp : UInt32
  storagePort : UInt16
  arqnetPort : UInt16
  pubkey : PublicKey
  sig : Signature
  pubkeyEd25519 : Ed25519PublicKey
  sigEd25519 : Ed25519Signature
deriving DecidableEq

structure CheckpointVoteRecord where
  height : ℕ := 2 ^ 64 - 1
  voted : Bool := true
deriving DecidableEq

/-- `votes.fill({})`. -/
def freshVotes : List CheckpointVoteRecord := List.replicate 8 {}

structure ProofInfo where
  timestamp : UInt64 := 0
  effectiveTimestamp : UInt64 := 0
  votes : List CheckpointVoteRecord := freshVotes
  voteIndex : ℕ := 0
  /-- The last two addresses, each with the time it was last seen. -/
  publicIps : (UInt32 × UInt64) × (UInt32 × UInt64) := ((0, 0), (0, 0))
  storageServerReachable : Bool := true
  storageServerReachableTimestamp : UInt64 := 0
  publicIp : UInt32 := 0
  storagePort : UInt16 := 0
  arqnetPort : UInt16 := 0
  version : List ℕ := [0, 0, 0]
  pubkeyEd25519 : Ed25519PublicKey := 0
  pubkeyX25519 : X25519PublicKey := 0
deriving DecidableEq

/-- The addresses after one was seen: its own slot, else the one seen longer ago. -/
def seenIp (ips : (UInt32 × UInt64) × (UInt32 × UInt64)) (ip : UInt32) (clock : UInt64) :
    (UInt32 × UInt64) × (UInt32 × UInt64) :=
  if ips.1.1 ≠ 0 ∧ ips.1.1 = ip then ((ips.1.1, clock), ips.2)
  else if ips.2.1 ≠ 0 ∧ ips.2.1 = ip then (ips.1, (ips.2.1, clock))
  else if ips.2.2 < ips.1.2 then (ips.1, (ip, clock))
  else ((ip, clock), ips.2)

/-- `proof_info::update`, which reads the clock once more. The flag it returns decides
whether the database gets a copy, which is not modelled. -/
def ProofInfo.update (p : ProofInfo) (ts clock : UInt64) (proof : UptimeProof)
    (x25519 : X25519PublicKey) : ProofInfo :=
  { p with
    timestamp := ts
    publicIp := proof.publicIp
    storagePort := proof.storagePort
    arqnetPort := proof.arqnetPort
    version := proof.arqmaSnodeVersion
    pubkeyEd25519 := proof.pubkeyEd25519
    effectiveTimestamp := ts
    pubkeyX25519 := x25519
    publicIps := seenIp p.publicIps proof.publicIp clock }

/-- What proofs are checked with, besides what blocks are. -/
structure UptimeEnv extends Env where
  /-- The key of this node, if it is a service node. -/
  serviceNodeKey : Option PublicKey
  isIpPublic : UInt32 → Bool
  hashUptimeProof : UptimeProof → ℕ → Hash
  /-- `crypto_sign_verify_detached`. -/
  verifyDetached : Ed25519Signature → Hash → Ed25519PublicKey → Bool
  /-- `crypto_sign_ed25519_pk_to_curve25519`. -/
  ed25519PkToCurve25519 : Ed25519PublicKey → Option X25519PublicKey

/-- The reasons of `REJECT_PROOF`. -/
inductive ProofRejection
  | timestampTooFar
  | versionTooOld
  | ipNotPublic
  | badSignature
  | noEd25519
  | badEd25519Signature
  | noX25519
  | noArqnetPort
  | notRegistered
  | tooRecent
deriving DecidableEq, Repr

abbrev Proofs := AList (fun _ : PublicKey => ProofInfo)

/-- `proofs[key]`, changed in place: the operator puts a new proof where there is none. -/
def Proofs.touch (proofs : Proofs) (key : PublicKey) (f : ProofInfo → ProofInfo) : Proofs :=
  proofs.insert key (f ((proofs.lookup key).getD {}))

/-- The service node list with its proofs and its directory of x25519 keys. -/
structure UptimeList where
  list : ServiceNodeList := {}
  proofs : Proofs := ∅
  x25519ToPub : AList (fun _ : X25519PublicKey => PublicKey × Int64) := ∅
  x25519MapLastPruned : Int64 := 0

namespace UptimeList

section HandleUptimeProof

variable (env : UptimeEnv) (hardForkVersion : ℕ) (now clock : UInt64)

/-- What a proof is checked for before the list is looked at. The result is the x25519 key
derived from its ed25519 key. -/
def checkUptimeProof (proof : UptimeProof) : Except ProofRejection X25519PublicKey :=
  let hash := env.hashUptimeProof proof hardForkVersion
  if proof.timestamp < now - uptimeProofBufferInSeconds ∨
      now + uptimeProofBufferInSeconds < proof.timestamp then .error .timestampTooFar
  else if minUptimeProofVersions.any fun least =>
      least.1 ≤ hardForkVersion && proof.arqmaSnodeVersion < least.2 then .error .versionTooOld
  else if !env.isIpPublic proof.publicIp then .error .ipNotPublic
  else if !env.crypto.checkSignature hash proof.pubkey proof.sig then .error .badSignature
  else if proof.pubkeyEd25519 = 0 then .error .noEd25519
  else if !env.verifyDetached proof.sigEd25519 hash proof.pubkeyEd25519 then
    .error .badEd25519Signature
  else
    match env.ed25519PkToCurve25519 proof.pubkeyEd25519 with
    | none => .error .noX25519
    | some derived =>
      if derived = 0 then .error .noX25519
      else if 17 ≤ hardForkVersion ∧ proof.arqnetPort = 0 then .error .noArqnetPort
      else .ok derived

def isRegistered (l : UptimeList) (key : PublicKey) : Bool :=
  (l.list.state.serviceNodesInfos.lookup key).isSome

/-- An entry of the directory that pruning at some time removes. -/
def expired (seen : Int64) : Bool := seen < (now - x25519MapPruningLag).toInt64

/-- The directory is pruned when its interval has passed since the last time. -/
def prunesX25519Map (l : UptimeList) : Bool :=
  l.x25519MapLastPruned.toUInt64 + x25519MapPruningInterval ≤ now

def prunedX25519Map (l : UptimeList) : AList (fun _ : X25519PublicKey => PublicKey × Int64) :=
  if l.prunesX25519Map now then keepEntries (fun _ e => !expired now e.2) l.x25519ToPub
  else l.x25519ToPub

/-- The last part of `handle_uptime_proof`, for a proof that is accepted. -/
def recordProof (l : UptimeList) (proof : UptimeProof) (derived : X25519PublicKey) :
    UptimeList :=
  let iproof := (l.proofs.lookup proof.pubkey).getD {}
  let oldX25519 := iproof.pubkeyX25519
  let pruned := l.prunedX25519Map now
  let released :=
    if oldX25519 ≠ 0 ∧ oldX25519 ≠ derived then pruned.erase oldX25519 else pruned
  { l with
    proofs := l.proofs.insert proof.pubkey (iproof.update now clock proof derived)
    x25519MapLastPruned := if l.prunesX25519Map now then now.toInt64 else l.x25519MapLastPruned
    x25519ToPub :=
      if derived ≠ 0 then released.insert derived (proof.pubkey, now.toInt64) else released }

/-- An accepted proof comes with the flag that says whether it is this node's own. -/
def handleUptimeProof (l : UptimeList) (proof : UptimeProof) :
    UptimeList × Except ProofRejection Bool :=
  match checkUptimeProof env hardForkVersion now proof with
  | .error reason => (l, .error reason)
  | .ok derived =>
    if !l.isRegistered proof.pubkey then (l, .error .notRegistered)
    else if now - uptimeProofFrequencyInSeconds / 2 ≤
        ((l.proofs.lookup proof.pubkey).getD {}).timestamp then
      ({ l with proofs := l.proofs.touch proof.pubkey id }, .error .tooRecent)
    else (l.recordProof now clock proof derived, .ok (env.serviceNodeKey = some proof.pubkey))

/-- Drop the old proofs of nodes that are not registered. -/
def cleanupProofs (l : UptimeList) : UptimeList :=
  { l with
    proofs := keepEntries
      (fun key proof => l.isRegistered key || !decide (proof.timestamp + 21600 < now)) l.proofs }

def getPubkeyFromX25519 (l : UptimeList) (x25519 : X25519PublicKey) : PublicKey :=
  ((l.x25519ToPub.lookup x25519).map Prod.fst).getD 0

/-- Enter a registered node under the key of its proof. -/
def enterNode (l : UptimeList) (map : AList (fun _ : X25519PublicKey => PublicKey × Int64))
    (key : PublicKey) : AList (fun _ : X25519PublicKey => PublicKey × Int64) :=
  match l.proofs.lookup key with
  | none => map
  | some proof =>
    if proof.pubkeyX25519 ≠ 0 then emplaceEntry map proof.pubkeyX25519 (key, now.toInt64)
    else map

def initializeX25519Map (l : UptimeList) : UptimeList :=
  { l with
    x25519ToPub := l.list.state.serviceNodesInfos.keys.foldl (l.enterNode now) l.x25519ToPub }

end HandleUptimeProof

/-- The end of `load`, for a new list: the proofs come from the database. -/
def loaded (env : UptimeEnv) (now : UInt64) (list : ServiceNodeList) (proofs : Proofs) :
    UptimeList :=
  let mine :=
    match env.serviceNodeKey with
    | none => proofs
    | some key => proofs.touch key fun proof =>
        { proof with timestamp := 0, effectiveTimestamp := 0 }
  initializeX25519Map now { list, proofs := mine }

def recordCheckpointVote (l : UptimeList) (key : PublicKey) (height : ℕ) (voted : Bool) :
    UptimeList :=
  if !l.isRegistered key then l
  else
    { l with
      proofs := l.proofs.touch key fun info =>
        { info with
          votes := info.votes.set info.voteIndex ⟨height, voted⟩
          voteIndex := (info.voteIndex + 1) % info.votes.length } }

def setStorageServerPeerReachable (l : UptimeList) (clock : UInt64) (key : PublicKey)
    (value : Bool) : UptimeList :=
  if !l.isRegistered key then l
  else
    { l with
      proofs := l.proofs.touch key fun info =>
        { info with
          storageServerReachable := value
          storageServerReachableTimestamp := clock } }

end UptimeList

/-! ## What a block does to the proofs -/

section Blocks

variable (env : Env) (rescanning : Bool)

/-- The proof of a node that a transaction registers is a new one, except in a rescan. -/
def registrationProofs (s : State) (block : Block) (tx : Transaction) (index : ℕ)
    (proofs : Proofs) : Proofs :=
  match isRegistrationTx env.crypto env.nettype block.majorVersion tx block.timestamp
      (getBlockHeight block) index {} with
  | none => proofs
  | some (key, _) =>
    if (s.serviceNodesInfos.lookup key).isSome || rescanning then proofs
    else proofs.insert key {}

/-- A decommission resets the times of a proof, except in a rescan; a recommission counts as
a proof at the time of its block. -/
def applyStateChangeProofs (block : Block) (key : PublicKey) (info : ServiceNodeInfo)
    (proofs : Proofs) : NewState → Proofs
  | .decommission =>
    if info.isDecommissioned || rescanning then proofs
    else proofs.touch key fun proof => { proof with timestamp := 0, effectiveTimestamp := 0 }
  | .recommission =>
    if !info.isDecommissioned then proofs
    else proofs.touch key fun proof =>
      { proof with effectiveTimestamp := block.timestamp, votes := freshVotes }
  | .deregister => proofs
  | .ipChangePenalty => proofs

def stateChangeNode (history : StateSet) (altStates : AltStates) (s : State) (block : Block)
    (tx : Transaction) : Option (PublicKey × ServiceNodeInfo × NewState) := do
  let stateChange ← getServiceNodeStateChangeFromTxExtra tx.extra
  let quorums ← stateChangeQuorums env history altStates block stateChange
  let quorum ← quorums.obligations
  let key ← quorum.workers[stateChange.serviceNodeIndex]?
  let info ← s.serviceNodesInfos.lookup key
  return (key, info, stateChange.state)

/-- A state change is applied to the node `stateChangeNode` finds. -/
theorem processStateChangeTx_eq_bind (history : StateSet) (altStates : AltStates) (s : State)
    (block : Block) (tx : Transaction) :
    processStateChangeTx env history altStates s block tx =
      (stateChangeNode env history altStates s block tx).bind fun found =>
        applyStateChange env s block found.1 found.2.1 found.2.2 := by
  simp [processStateChangeTx, stateChangeNode, Option.bind_assoc]

def processTxProofs (history : StateSet) (altStates : AltStates) (block : Block) (s : State)
    (entry : Transaction × ℕ) (proofs : Proofs) : Proofs :=
  let tx := entry.1
  if tx.isTransfer then registrationProofs env rescanning s block tx entry.2 proofs
  else if tx.txType = .stateChange then
    match stateChangeNode env history altStates s block tx with
    | none => proofs
    | some (key, info, state) =>
      applyStateChangeProofs rescanning block key info proofs state
  else proofs

/-- The transactions of `update_from_block` with the proofs, each on the state before it. -/
def processTxsWithProofs (history : StateSet) (altStates : AltStates) (s : State)
    (block : Block) (txs : List Transaction) (proofs : Proofs) : (State × Bool) × Proofs :=
  txs.zipIdx.foldl (fun acc entry =>
    (processTx env history altStates block acc.1 entry,
      processTxProofs env rescanning history altStates block acc.1.1 entry acc.2))
    (processTxs env history altStates s block [], proofs)

def updateProofsFromBlock (history : StateSet) (altStates : AltStates) (s : State)
    (block : Block) (txs : List Transaction) (proofs : Proofs) : Proofs :=
  (processTxsWithProofs env rescanning history altStates s block txs proofs).2

end Blocks

namespace UptimeList

/-- A block of the main chain. A rescan processes its blocks the same way. -/
def processBlock (env : UptimeEnv) (chain : Chain) (rescanning : Bool) (l : UptimeList)
    (b : ChainBlock) : UptimeList :=
  { l with
    list := l.list.processBlock env.toEnv chain b
    proofs :=
      if chain.hardForkVersion (getBlockHeight b.block) < 16 then l.proofs
      else updateProofsFromBlock env.toEnv rescanning (l.list.view.historyFor b) [] l.list.state
        b.block b.txs l.proofs }

/-- The state an alternative block continues: of the history, else of another alternative
block. The height before it is computed on 64 bits. -/
def altStartingState (l : ServiceNodeList) (block : Block) : Option State :=
  (((l.stateHistory.find? ((getBlockHeight block + (2 ^ 64 - 1)) % 2 ^ 64)).filter fun s =>
      block.prevId = s.blockHash).or
    ((l.altState.find? fun e => e.1 = block.prevId).map Prod.snd)).filter fun s =>
      s.blockHash = block.prevId

/-- `alt_block_added` up to the check of the block's checkpoint, which changes nothing. The
copied state still refers to the list, so that its proofs change too. -/
def altBlockAdded (env : UptimeEnv) (l : UptimeList) (b : ChainBlock) : UptimeList :=
  if b.block.majorVersion < 16 ∨ l.list.altState.any fun e => e.1 = b.block.hash then l
  else
    match altStartingState l.list b.block with
    | none => l
    | some s =>
      { l with
        list := { l.list with
          altState := l.list.altState ++
            [(b.block.hash, updateFromBlock env.toEnv l.list.stateHistory l.list.altState s
              b.block b.txs)] }
        proofs := updateProofsFromBlock env.toEnv false l.list.stateHistory l.list.altState s
          b.block b.txs l.proofs }

end UptimeList
end Arqma.ServiceNodes
