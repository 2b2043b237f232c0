import Arqma.ServiceNodeState

/-!
# Registration and contribution transactions

`getContribution` reads the staked outputs off a transaction, `isRegistrationTx`
builds the record of a new node and `contribute` credits a stake to one. All
cryptography, and so every decoded amount, is arbitrary.
-/
namespace Arqma.ServiceNodes
open Arqma.Cryptonote

structure ParsedTxContribution where
  address : AccountPublicAddress
  transferred : UInt64 := 0
  txKey : SecretKey
  lockedContributions : List Contribution := []
deriving DecidableEq, Repr

section Contribution

variable (crypto : Crypto)

/-- The amount of output `i`, zero if it does not decode. -/
def getRegTxStakingOutputContribution (tx : Transaction) (i : ℕ) (derivation : KeyDerivation) :
    UInt64 :=
  match tx.vout[i]? with
  | some ⟨_, .toKey _⟩ =>
    let scalar := crypto.derivationToScalar derivation i
    match tx.rctSignatures.type with
    | .simple | .bulletproof | .bulletproof2 | .clsag =>
      (crypto.decodeRctSimple tx.rctSignatures scalar i).getD 0
    | .full => (crypto.decodeRct tx.rctSignatures scalar i).getD 0
    | _ => 0
  | _ => 0

/-- One output of the loop of `get_contribution`: an output whose stealth address
belongs to the contributor uses up the first key image proof that fits it. -/
def contributionStep (tx : Transaction) (derivation : KeyDerivation)
    (acc : List KeyImageProof × ParsedTxContribution) (outputIndex : ℕ) :
    List KeyImageProof × ParsedTxContribution :=
  let transferred := getRegTxStakingOutputContribution crypto tx outputIndex derivation
  if transferred = 0 then acc
  else
    match crypto.derivePublicKey derivation outputIndex acc.2.address.spendPublicKey,
      tx.vout[outputIndex]? with
    | some ephemeralPubKey, some ⟨_, .toKey key⟩ =>
      if key ≠ ephemeralPubKey then acc
      else
        let fits := fun proof : KeyImageProof =>
          crypto.checkRingSignature proof.keyImage proof.keyImage [ephemeralPubKey]
            [proof.signature]
        match acc.1.find? fits with
        | none => acc
        | some proof =>
          (acc.1.eraseP fits,
            { acc.2 with
              lockedContributions := acc.2.lockedContributions ++
                [⟨ephemeralPubKey, proof.keyImage, transferred⟩]
              transferred := acc.2.transferred + transferred })
    | _, _ => acc

def getContribution (tx : Transaction) : Option ParsedTxContribution := do
  let address ← getServiceNodeContributorFromTxExtra tx.extra
  let txKey ← getTxSecretKeyFromTxExtra tx.extra
  let derivation ← crypto.generateKeyDerivation address.viewPublicKey txKey
  let proofs ← getTxKeyImageProofsFromTxExtra tx.extra
  return ((List.range tx.vout.length).foldl (contributionStep crypto tx derivation)
    (proofs, { address, txKey })).2

end Contribution

/-- The fields `reg_tx_extract_fields` reads from the extra. -/
structure RegTxFields where
  addresses : List AccountPublicAddress
  portionsForOperator : UInt64
  portions : List UInt64
  expirationTimestamp : UInt64
  serviceNodeKey : PublicKey
  signature : Signature
deriving DecidableEq, Repr

def regTxExtractFields (tx : Transaction) : Option RegTxFields := do
  let registration ← getServiceNodeRegisterFromTxExtra tx.extra
  let serviceNodeKey ← getServiceNodePubkeyFromTxExtra tx.extra
  return {
    addresses := List.zipWith AccountPublicAddress.mk registration.publicSpendKeys
      registration.publicViewKeys
    portionsForOperator := registration.portionsForOperator
    portions := registration.portions
    expirationTimestamp := registration.expirationTimestamp
    serviceNodeKey
    signature := registration.serviceNodeSignature }

/-- Reserve each address its portion; an address that occurs twice is refused. -/
def reserveContributors :
    List (AccountPublicAddress × UInt64) → List AccountPublicAddress → ServiceNodeInfo →
      Option ServiceNodeInfo
  | [], _, info => some info
  | (address, portion) :: rest, seen, info =>
    if address ∈ seen then none
    else
      let reserved := portionsToAmount portion info.stakingRequirement
      reserveContributors rest (address :: seen)
        { info with
          contributors := info.contributors ++ [{ reserved, address }]
          totalReserved := info.totalReserved + reserved }

section Registration

variable (crypto : Crypto) (nettype : NetworkType)

/-- The checks of `is_registration_tx` that come before the record is filled in. -/
def registrationIsValid (tx : Transaction) (blockTimestamp : UInt64) (blockHeight : ℕ)
    (info : ServiceNodeInfo) (fields : RegTxFields) : Bool :=
  fields.portions.length = fields.addresses.length && !fields.portions.isEmpty &&
  checkServiceNodePortions fields.portions &&
  decide (fields.portionsForOperator ≤ stakingShareParts) &&
  (match getRegistrationHash crypto fields.addresses fields.portionsForOperator fields.portions
      fields.expirationTimestamp with
    | none => false
    | some hash =>
      crypto.checkKey fields.serviceNodeKey &&
        crypto.checkSignature hash fields.serviceNodeKey fields.signature) &&
  decide (blockTimestamp ≤ fields.expirationTimestamp) &&
  match getContribution crypto tx with
  | none => false
  | some parsed =>
    let minTransfer := getMinNodeContribution (getStakingRequirement nettype blockHeight)
      info.totalReserved info.totalNumLockedContributions
    let totalNumOfAddr :=
      if parsed.address ∈ fields.addresses then fields.addresses.length
      else fields.addresses.length + 1
    decide (minTransfer ≤ parsed.transferred) && decide (totalNumOfAddr ≤ maxNumberOfContributors)

def isRegistrationTx (hardForkVersion : ℕ) (tx : Transaction) (blockTimestamp : UInt64)
    (blockHeight index : ℕ) (info : ServiceNodeInfo) : Option (PublicKey × ServiceNodeInfo) :=
  match regTxExtractFields tx with
  | none => none
  | some fields =>
    if registrationIsValid crypto nettype tx blockTimestamp blockHeight info fields then
      (reserveContributors (fields.addresses.zip fields.portions) []
        { info with
          stakingRequirement := getStakingRequirement nettype blockHeight
          operatorAddress := fields.addresses.headD ⟨0, 0⟩
          portionsForOperator := fields.portionsForOperator
          registrationHeight := blockHeight
          lastRewardBlockHeight := blockHeight
          lastRewardTransactionIndex := index
          swarmId := unassignedSwarmId
          lastIpChangeHeight := blockHeight
          version := getMinimumSnInfoVersion hardForkVersion }).map
        fun info => (fields.serviceNodeKey, info)
    else
      none

variable {crypto nettype}

/-- The record `reserveContributors` fills in. -/
theorem reserveContributors_eq {entries : List (AccountPublicAddress × UInt64)}
    {seen : List AccountPublicAddress} {info info' : ServiceNodeInfo}
    (h : reserveContributors entries seen info = some info') :
    info' = { info with
      contributors := info.contributors ++ entries.map fun e =>
        { reserved := portionsToAmount e.2 info.stakingRequirement, address := e.1 }
      totalReserved := (entries.map fun e =>
        portionsToAmount e.2 info.stakingRequirement).foldl (· + ·) info.totalReserved } := by
  induction entries generalizing seen info with
  | nil => simpa [reserveContributors] using h.symm
  | cons entry entries ih =>
    obtain ⟨address, portion⟩ := entry
    simp only [reserveContributors] at h
    split_ifs at h with hseen
    simpa using ih h

theorem isRegistrationTx_eq_some {hardForkVersion : ℕ} {tx : Transaction} {timestamp : UInt64}
    {height index : ℕ}
    {info info' : ServiceNodeInfo} {key : PublicKey}
    (h : isRegistrationTx crypto nettype hardForkVersion tx timestamp height index info =
      some (key, info')) :
    ∃ fields, regTxExtractFields tx = some fields ∧ key = fields.serviceNodeKey ∧
      registrationIsValid crypto nettype tx timestamp height info fields = true ∧
      reserveContributors (fields.addresses.zip fields.portions) []
        { info with
          stakingRequirement := getStakingRequirement nettype height
          operatorAddress := fields.addresses.headD ⟨0, 0⟩
          portionsForOperator := fields.portionsForOperator
          registrationHeight := height
          lastRewardBlockHeight := height
          lastRewardTransactionIndex := index
          swarmId := unassignedSwarmId
          lastIpChangeHeight := height
          version := getMinimumSnInfoVersion hardForkVersion } = some info' := by
  unfold isRegistrationTx at h
  split at h
  · cases h
  · rename_i fields hfields
    split_ifs at h with hvalid
    obtain ⟨i, hi, heq⟩ := Option.map_eq_some_iff.mp h
    obtain ⟨rfl, rfl⟩ := Prod.mk.inj heq
    exact ⟨fields, hfields, rfl, hvalid, hi⟩

end Registration

/-- The contributor with an address, a fresh one if there is none. -/
def contributorAt (contributors : List Contributor) (address : AccountPublicAddress) :
    Contributor :=
  (contributors.find? fun c => c.address = address).getD { address }

@[simp] theorem contributorAt_address (contributors : List Contributor)
    (address : AccountPublicAddress) : (contributorAt contributors address).address = address := by
  unfold contributorAt
  cases hfind : contributors.find? fun c => c.address = address with
  | none => rfl
  | some c => simpa using List.find?_some hfind

/-- Put a contributor in the place of the first one with its address, or at the end. -/
def setContributor (contributor : Contributor) : List Contributor → List Contributor
  | [] => [contributor]
  | c :: cs => if c.address = contributor.address then contributor :: cs
    else c :: setContributor contributor cs

/-- How much of a transfer is credited: a stake cannot outgrow its reservation
and the unreserved rest. -/
def creditedAmount (info : ServiceNodeInfo) (contributor : Contributor) (transferred : UInt64) :
    UInt64 :=
  let canIncreaseReservedBy := info.stakingRequirement - info.totalReserved
  let maxAmount := contributor.reserved + canIncreaseReservedBy
  let room := maxAmount - contributor.amount
  if transferred < room then transferred else room

/-- The update of a node's record by an accepted contribution. -/
def contribute (info : ServiceNodeInfo) (parsed : ParsedTxContribution) (blockHeight index : ℕ) :
    ServiceNodeInfo :=
  let contributor := contributorAt info.contributors parsed.address
  let transferred := creditedAmount info contributor parsed.transferred
  let amount := contributor.amount + transferred
  let credited := { contributor with
    amount
    reserved := if contributor.reserved < amount then amount else contributor.reserved
    lockedContributions := contributor.lockedContributions ++ parsed.lockedContributions }
  let totalContributed := info.totalContributed + transferred
  { info with
    contributors := setContributor credited info.contributors
    totalContributed
    totalReserved :=
      if contributor.reserved < amount then
        info.totalReserved + (amount - contributor.reserved)
      else info.totalReserved
    lastRewardBlockHeight := blockHeight
    lastRewardTransactionIndex := index
    activeSinceHeight :=
      if info.stakingRequirement ≤ totalContributed then (blockHeight : ℤ)
      else info.activeSinceHeight }

/-- The conditions under which a node takes a contribution. -/
def acceptsContribution (info : ServiceNodeInfo) (parsed : ParsedTxContribution) : Bool :=
  !info.isFullyFunded &&
  decide (info.totalNumLockedContributions + parsed.lockedContributions.length ≤
    maxNumberOfContributors) &&
  decide (getMinNodeContribution info.stakingRequirement info.totalReserved
    info.totalNumLockedContributions ≤ parsed.transferred)

section Sample

/-- Cryptography where every signature is good, stealth addresses are spend keys
and amounts are readable. The concrete runs of the development use it. -/
def sampleCrypto : Crypto where
  cnFastHash _ := 0
  checkKey _ := true
  checkSignature _ _ _ := true
  checkRingSignature _ _ _ _ := true
  generateKeyDerivation _ _ := some 0
  derivationToScalar _ _ := 0
  derivePublicKey _ _ spendKey := some spendKey
  decodeRct _ _ _ := none
  decodeRctSimple rct _ i := rct.ecdhInfo[i]?.map fun e => UInt64.ofNat e.2.toNat

/-- A transfer that stakes outputs, given with their key images, for a node. -/
def stakeTx (key : PublicKey) (address : AccountPublicAddress)
    (outputs : List (UInt64 × KeyImage)) : Transaction where
  txType := .stake
  vout := outputs.map fun _ => ⟨0, .toKey address.spendPublicKey⟩
  extra := [.serviceNodePubkey key, .serviceNodeContributor address, .txSecretKey 0,
    .txKeyImageProofs (outputs.map fun o => ⟨o.2, 0⟩)]
  rctSignatures :=
    { type := .clsag, ecdhInfo := outputs.map fun o => (0, BitVec.ofNat 256 o.1.toNat) }

/-- A stake that registers its node with portions for some addresses. -/
def registrationTx (key : PublicKey) (shares : List (AccountPublicAddress × UInt64))
    (address : AccountPublicAddress) (outputs : List (UInt64 × KeyImage)) : Transaction :=
  let stake := stakeTx key address outputs
  { stake with
    extra := .serviceNodeRegister
      { publicSpendKeys := shares.map fun s => s.1.spendPublicKey
        publicViewKeys := shares.map fun s => s.1.viewPublicKey
        portionsForOperator := 0
        portions := shares.map Prod.snd
        expirationTimestamp := 0
        serviceNodeSignature := 0 } :: stake.extra }

def sampleAddress (n : ℕ) : AccountPublicAddress := ⟨BitVec.ofNat 256 n, BitVec.ofNat 256 n⟩

/-- A registration that pays the whole stake of node `n` with key image `n`. -/
def fullRegistration (n : ℕ) : Transaction :=
  registrationTx (BitVec.ofNat 256 n) [(sampleAddress n, stakingShareParts)] (sampleAddress n)
    [(1000000000000, BitVec.ofNat 256 n)]

/-- Four votes to deregister the first worker of the quorum at a height. -/
def deregistrationTx (height : ℕ) : Transaction where
  txType := .stateChange
  extra := [.serviceNodeStateChange ⟨.deregister, height, 0, (List.range 4).map fun i => ⟨0, i⟩⟩]

/-- A block that names no winner. -/
def sampleBlock (majorVersion height : ℕ) : Block where
  majorVersion
  minerTx := { vin := [.gen height] }
  hash := BitVec.ofNat 256 height

end Sample

end Arqma.ServiceNodes
