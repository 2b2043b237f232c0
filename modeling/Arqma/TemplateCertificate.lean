import Arqma.BlockTemplate

/-!
# Templates with a certificate

A certificate that goes into a template is for the payload of the block with the timestamp it
had then. Handing the kept template out again changes the timestamp and nothing else, so the
block is accepted exactly as long as the payload does not notice.
-/
namespace Arqma.Chain
open Arqma.Cryptonote Arqma.ServiceNodes Arqma.Pulse Option

variable {cached : CachedTemplate}

section Certificate

theorem getPulseRoundFromTxExtra_append (extra more : List TxExtraField) :
    getPulseRoundFromTxExtra (extra ++ more) =
      (getPulseRoundFromTxExtra extra).or (getPulseRoundFromTxExtra more) :=
  List.findSome?_append

theorem getPulseRoundFromTxExtra_zeros (count : ℕ) :
    getPulseRoundFromTxExtra (zeros count) = none := by
  unfold zeros
  split_ifs <;> rfl

variable {weight : ℕ} {tx : Transaction} {collector after : RoundCollector}

/-- The construction puts in the field of its context and no other. -/
theorem constructMinerTx_pulse {env : CoinbaseEnv} {height medianWeight : ℕ} {coins : UInt64}
    {fee : UInt64} {address : AccountPublicAddress} {nonce : List UInt8} {hf : ℕ}
    {context : MinerTxContext} {txkey : Keypair}
    (h : constructMinerTx env height medianWeight coins weight fee address nonce hf context txkey =
      some tx) : getPulseRoundFromTxExtra tx.extra = context.pulseRound := by
  obtain ⟨extra, hextra, h⟩ := bind_eq_some_iff.mp h
  obtain ⟨parts, -, h⟩ := bind_eq_some_iff.mp h
  obtain ⟨minerKey, -, h⟩ := bind_eq_some_iff.mp h
  have htx : tx.extra = extra := by
    dsimp only at h
    split at h
    · obtain ⟨nodes, -, h⟩ := bind_eq_some_iff.mp h
      obtain ⟨gov, -, h⟩ := bind_eq_some_iff.mp h
      obtain ⟨dev, -, h⟩ := bind_eq_some_iff.mp h
      obtain ⟨net, -, h⟩ := bind_eq_some_iff.mp h
      split_ifs at h
      rw [← some.inj h]
    · obtain ⟨vout, -, h⟩ := bind_eq_some_iff.mp h
      split_ifs at h
      rw [← some.inj h]
  rw [htx]
  unfold minerTxExtra at hextra
  split_ifs at hextra
  · rw [← some.inj hextra]
    cases context.pulseRound <;> rfl
  · rw [← some.inj hextra]
    cases context.pulseRound <;> rfl

variable {env : TemplateEnv} {call : TemplateCall} {draft : Draft}

/-- The certificate, and nothing else, is added to the fields. -/
theorem withCertificate_eq_done {result : Transaction} {txsWeight padding : ℕ}
    {cert : Option PulseRound} (hplain : getPulseRoundFromTxExtra tx.extra = none)
    (h : withCertificate env tx txsWeight weight padding cert = .done result) :
    result.vout = tx.vout ∧ getPulseRoundFromTxExtra result.extra = cert := by
  cases cert with
  | none =>
    grind [withCertificate, padded, getPulseRoundFromTxExtra_append, getPulseRoundFromTxExtra_zeros]
  | some cert =>
    simp only [withCertificate] at h
    grind [spliceMajorityCertificate, getPulseRoundFromTxExtra]

/-- The outputs and the certificate of a finished miner transaction are those of one try, which
leaves the collector as it was read. -/
def Draft.Carries (env : TemplateEnv) (call : TemplateCall) (draft : Draft) (tx : Transaction)
    (after : RoundCollector) : Prop :=
  ∃ tryCount plain collector, tx.vout = plain.vout ∧
    (after, getPulseRoundFromTxExtra tx.extra) = draft.collect env call tryCount plain collector

theorem Draft.attempt_done {tryCount : ℕ}
    (h : draft.attempt env call tryCount collector weight = (after, .done tx)) :
    draft.Carries env call tx after := by
  unfold Draft.attempt at h
  split at h
  · cases h
  · rename_i plain hplain
    dsimp only at h
    split at h
    · rename_i padding _
      obtain ⟨hvout, hcert⟩ := withCertificate_eq_done (constructMinerTx_pulse hplain)
        (congrArg Prod.snd h)
      exact ⟨tryCount, plain, collector, hvout, Prod.ext (congrArg Prod.fst h).symm hcert⟩
    · cases h
    · cases h

theorem Draft.tries_some {left tryCount : ℕ}
    (h : draft.tries env call left tryCount collector weight = (after, some tx)) :
    draft.Carries env call tx after := by
  induction left generalizing tryCount collector weight <;> grind [Draft.tries, attempt_done]

theorem Draft.complete_some (h : draft.complete env call collector = (after, some tx)) :
    draft.Carries env call tx after := by
  unfold Draft.complete at h
  dsimp only at h
  split at h
  · cases h
  · exact tries_some h

/-- What a certificate was collected for. -/
theorem Draft.collect_some {tryCount : ℕ} {cert : PulseRound}
    (h : draft.collect env call tryCount tx collector = (after, some cert)) :
    hybridSnPermitted draft.start.majorVersion = true ∧ after.snapshot = some cert ∧
      ∃ minerOut, minerOutKey tx = some minerOut ∧
        cert.payloadHash = minerPayloadHash env.coinbase.crypto draft.timestamp.toNat
          draft.filled.txHashes minerOut := by
  grind [Draft.collect, filter_eq_some_iff.mp]

/-- A certificate in a block is for the payload the block has with a timestamp. -/
def Committed (crypto : Crypto) (timestamp : UInt64) (b : Block) : Prop :=
  ∀ pulse, getPulseRoundFromTxExtra b.minerTx.extra = some pulse →
    hybridSnPermitted b.majorVersion = true ∧
      ∃ minerOut, minerOutKey b.minerTx = some minerOut ∧
        pulse.payloadHash = minerPayloadHash crypto timestamp.toNat b.txHashes minerOut

theorem Draft.Carries.committed (h : draft.Carries env call tx after) :
    Committed env.coinbase.crypto draft.timestamp (draft.block tx) := by
  obtain ⟨tryCount, plain, collector, hvout, hcert⟩ := h
  intro pulse hpulse
  rw [show getPulseRoundFromTxExtra tx.extra = some pulse from hpulse] at hcert
  obtain ⟨hhybrid, -, minerOut, hkey, hpayload⟩ := collect_some hcert.symm
  refine ⟨hhybrid, minerOut, ?_, hpayload⟩
  rw [← hkey]
  simp only [minerOutKey, Draft.block, hvout]

/-- The certificate is the majority that the collector is left with. -/
theorem Draft.Carries.majority {pulse : PulseRound} (h : draft.Carries env call tx after)
    (hpulse : getPulseRoundFromTxExtra tx.extra = some pulse) : after.snapshot = some pulse := by
  obtain ⟨tryCount, plain, collector, -, hcert⟩ := h
  rw [hpulse] at hcert
  exact (collect_some hcert.symm).2.1

end Certificate

section Invariant

variable {env : TemplateEnv} {call : TemplateCall} {state : TemplateState}

/-- The kept template is committed to the timestamp it was made with. -/
def TemplateState.Sealed (env : TemplateEnv) (state : TemplateState) : Prop :=
  ∀ cached ∈ state.cache, Committed env.coinbase.crypto cached.madeAt cached.block

theorem makeTemplate_some {b : Block} (h : (makeTemplate env call state).2 = some b) :
    ∃ draft tx, call.draft = some draft ∧
      draft.Carries env call tx (makeTemplate env call state).1.collector ∧
      b = draft.block tx := by
  unfold makeTemplate at h ⊢
  grind [Draft.complete_some]

theorem TemplateState.Sealed.makeTemplate (h : state.Sealed env) :
    (makeTemplate env call state).1.Sealed env := by
  unfold Chain.makeTemplate
  split
  · exact h
  · rename_i draft hdraft
    split
    · exact h
    · rename_i collector tx hcomplete
      dsimp only
      split_ifs
      · intro cached hcached
        cases hcached
        exact (Draft.complete_some hcomplete).committed
      · exact h

theorem cacheHit_some (h : cacheHit env call state = some cached) :
    state.cache = some cached ∧ call.fromBlock = none ∧ cached.block.prevId = call.tailId ∧
      pulseCacheOk env call cached state.collector = true := by
  grind [cacheHit, filter_eq_some_iff.mp]

theorem Committed.serve {crypto : Crypto} (h : Committed crypto cached.madeAt cached.block)
    (now : UInt64) :
    Committed crypto (cached.serve now).madeAt (cached.serve now).block := h

theorem TemplateState.Sealed.createBlockTemplate (h : state.Sealed env) (call : TemplateCall) :
    (createBlockTemplate env call state).1.Sealed env := by
  unfold Chain.createBlockTemplate
  dsimp only
  split
  · rename_i cached hhit
    intro served hserved
    cases hserved
    exact (h cached (cacheHit_some hhit).1).serve call.servedNow
  · apply TemplateState.Sealed.makeTemplate
    split_ifs
    · exact fun _ hcached => nomatch hcached
    · exact h

theorem TemplateState.Sealed.step (h : state.Sealed env) (event : TemplateEvent) :
    (state.step env event).Sealed env := by
  cases event <;> grind [Sealed, step, h.createBlockTemplate]

theorem TemplateState.Sealed.after (h : state.Sealed env) (events : List TemplateEvent) :
    (state.after env events).Sealed env := by
  induction events generalizing state with
  | nil => exact h
  | cons event events ih => exact ih (h.step event)

end Invariant

section Valid

variable {env : TemplateEnv} {call : TemplateCall} {state : TemplateState}

variable {b : Block} {pulse : PulseRound}

/-- The check of a block with a certificate. -/
theorem checkPulsePayload_eq_ok_iff (crypto : Crypto) (parent : ℕ) {hf : ℕ} {minerOut : PublicKey}
    (hhybrid : hybridSnPermitted hf = true)
    (hpulse : getPulseRoundFromTxExtra b.minerTx.extra = some pulse)
    (hkey : minerOutKey b.minerTx = some minerOut) :
    checkPulsePayload crypto parent b hf = .ok () ↔
      pulse.round = roundFromTimestamps parent b.timestamp.toNat ∧
        pulse.payloadHash = minerPayloadHash crypto b.timestamp.toNat b.txHashes minerOut := by
  have htarget : b.minerTx.vout.head?.map TxOut.target = some (.toKey minerOut) := by
    unfold minerOutKey at hkey
    split at hkey
    · rename_i key htarget
      rw [htarget, some.inj hkey]
    · cases hkey
  rw [checkPulsePayload, if_pos hhybrid, hpulse]
  simp only [htarget, check, extraRoundMatchesTimestamps, decide_eq_true_eq]
  by_cases hround : pulse.round = roundFromTimestamps parent b.timestamp.toNat
  · simp [hround, bind, Except.bind]
  · rw [if_neg hround]
    simp [hround, bind, Except.bind]

theorem getPulseRoundFromTxExtra_of_parse {extra : List TxExtraField}
    (h : parsePulseRound extra = some pulse) : getPulseRoundFromTxExtra extra = some pulse := by
  unfold parsePulseRound at h
  split_ifs at h
  exact h

/-- A kept certificate is handed out only in its round. -/
theorem pulseCacheOk_round {collector : RoundCollector}
    (hhybrid : hybridSnPermitted cached.block.majorVersion = true)
    (hpulse : parsePulseRound cached.block.minerTx.extra = some pulse)
    (hok : pulseCacheOk env call cached collector = true) :
    pulse.round = roundFromTimestamps (env.blockTimestamp call.tailId) call.roundNow.toNat := by
  rw [pulseCacheOk, if_pos hhybrid, hpulse] at hok
  grind [filter_eq_some_iff.mp]

/-- When a returned template with a certificate is accepted. For a new one the majority that the
call finds last in the collector has to be of the round of the call's timestamp. A kept one gets
the time of the call: the round and the payload must still be those it was made with. -/
structure TemplateFits (env : TemplateEnv) (call : TemplateCall) (state : TemplateState)
    (minerOut : PublicKey) : Prop where
  made : cacheHit env call (state.seenBy env call) = none →
    ∀ majority, (createBlockTemplate env call state).1.collector.snapshot = some majority →
      majority.round =
        roundFromTimestamps (env.blockTimestamp call.prevId) call.timestamp.toNat
  served : ∀ cached, cacheHit env call (state.seenBy env call) = some cached →
    roundFromTimestamps (env.blockTimestamp call.tailId) call.servedNow.toNat =
        roundFromTimestamps (env.blockTimestamp call.tailId) call.roundNow.toNat ∧
      minerPayloadHash env.coinbase.crypto call.servedNow.toNat cached.block.txHashes minerOut =
        minerPayloadHash env.coinbase.crypto cached.madeAt.toNat cached.block.txHashes minerOut

theorem createBlockTemplate_of_hit (hhit : cacheHit env call (state.seenBy env call) = some cached)
    (h : (createBlockTemplate env call state).2 = some b) :
    b = (cached.serve call.servedNow).block := by
  unfold createBlockTemplate at h
  simp only [hhit] at h
  exact (some.inj h).symm

theorem createBlockTemplate_of_miss (hmiss : cacheHit env call (state.seenBy env call) = none)
    (h : (createBlockTemplate env call state).2 = some b) :
    ∃ draft tx, call.draft = some draft ∧
      draft.Carries env call tx (createBlockTemplate env call state).1.collector ∧
      b = draft.block tx := by
  unfold createBlockTemplate at h ⊢
  simp only [hmiss] at h ⊢
  exact makeTemplate_some h

theorem TemplateCall.draft_eq_some {draft : Draft} (h : call.draft = some draft) :
    draft.prevId = call.prevId ∧ draft.timestamp = call.timestamp := by
  unfold TemplateCall.draft at h
  obtain ⟨start, -, h⟩ := bind_eq_some_iff.mp h
  split_ifs at h
  obtain ⟨filled, -, h⟩ := bind_eq_some_iff.mp h
  obtain rfl := some.inj h
  exact ⟨rfl, rfl⟩

/-- The checks accept a returned template with a certificate exactly if it fits. -/
theorem TemplateState.Sealed.valid_iff (h : state.Sealed env)
    (hreturn : (Chain.createBlockTemplate env call state).2 = some b)
    (hpulse : parsePulseRound b.minerTx.extra = some pulse) :
    ∃ minerOut, minerOutKey b.minerTx = some minerOut ∧ hybridSnPermitted b.majorVersion = true ∧
      (pulse.round = roundFromTimestamps (env.blockTimestamp b.prevId) b.timestamp.toNat ∧
          pulse.payloadHash = minerPayloadHash env.coinbase.crypto b.timestamp.toNat b.txHashes
            minerOut ↔
        TemplateFits env call state minerOut) := by
  have hfield := getPulseRoundFromTxExtra_of_parse hpulse
  cases hhit : cacheHit env call (state.seenBy env call) with
  | none =>
    obtain ⟨draft, tx, hdraft, hcarries, rfl⟩ := createBlockTemplate_of_miss hhit hreturn
    obtain ⟨hhybrid, minerOut, hkey, hpayload⟩ := hcarries.committed pulse hfield
    have hmajority := hcarries.majority hfield
    obtain ⟨hprev, htime⟩ := TemplateCall.draft_eq_some hdraft
    have hround : roundFromTimestamps (env.blockTimestamp (draft.block tx).prevId)
        (draft.block tx).timestamp.toNat =
          roundFromTimestamps (env.blockTimestamp call.prevId) call.timestamp.toNat := by
      rw [← hprev, ← htime]
      rfl
    rw [hround]
    refine ⟨minerOut, hkey, hhybrid,
      fun hvalid => ⟨fun _ majority hread => ?_, fun _ hcached => ?_⟩,
      fun hfits => ⟨hfits.made hhit pulse hmajority, hpayload⟩⟩
    · rw [← some.inj (hmajority.symm.trans hread)]
      exact hvalid.1
    · rw [hhit] at hcached
      cases hcached
  | some cached =>
    obtain rfl := createBlockTemplate_of_hit hhit hreturn
    obtain ⟨hcache, -, hprev, hok⟩ := cacheHit_some hhit
    obtain ⟨hhybrid, minerOut, hkey, hpayload⟩ := h cached hcache pulse hfield
    have hround := pulseCacheOk_round hhybrid hpulse hok
    refine ⟨minerOut, hkey, hhybrid, ?_⟩
    rw [hpayload, hround, show (cached.serve call.servedNow).block.prevId = call.tailId from hprev]
    constructor
    · rintro ⟨hsame, hcommitted⟩
      refine ⟨fun hmiss => absurd (hhit.symm.trans hmiss) nofun, fun other hother => ?_⟩
      obtain rfl := some.inj (hhit.symm.trans hother)
      exact ⟨hsame.symm, hcommitted.symm⟩
    · intro hfits
      obtain ⟨hsame, hcommitted⟩ := hfits.served cached hhit
      exact ⟨hsame.symm, hcommitted.symm⟩

end Valid

section Sample

/-- Payloads have different hashes and the keys of different tries are different. -/
def templateCrypto : Crypto :=
  { Pulse.sampleCrypto with
    cnFastHash := fun bytes =>
      BitVec.ofNat 256 (bytes.foldl (fun acc b => (acc * 263 + b.toNat + 1) % 1000003) 7)
    generateKeyDerivation := fun _ sec => some sec
    derivePublicKey := fun derivation index spendKey =>
      some (derivation + spendKey + BitVec.ofNat 256 index) }

def fieldSize : TxExtraField → ℕ
  | .other _ data => 1 + data.length
  | .pulseRound cert => pulseRoundSize cert
  | _ => 33

/-- Block 1 is of time 1000. -/
def templateEnv : TemplateEnv where
  coinbase :=
    { crypto := templateCrypto
      getBaseBlockReward := fun _ _ _ _ _ => some (20 * arqma)
      getDeterministicKeypairFromHeight := fun height => ⟨0, BitVec.ofNat 256 height⟩
      govWallet := fun _ => ⟨11, 12⟩
      devWallet := fun _ => ⟨13, 14⟩
      netWallet := fun _ => ⟨15, 16⟩ }
  getTransactionWeight tx := 100 + (tx.extra.map fieldSize).sum
  blockTimestamp _ := 1000

def sixNodes : List PublicKey := [21, 22, 23, 24, 25, 26]

/-- The vote of a node for the payload that a secret key gives the block of time 1005. -/
def voteFor (sec : SecretKey) (pub : PublicKey) : List CollectorOp :=
  let payload := minerPayloadHash templateCrypto 1005 [] (sec + 6)
  ((ownVote templateCrypto
    { height := 10, prevId := 1, round := 0, pub, sign := fun hash => pub ++ hash,
      activePubs := sixNodes, relay := true, payloadHash := payload }).map fun vote =>
    CollectorOp.addVote vote (quorumPubkeys templateCrypto 10 sixNodes 0) 6).toList

/-- Three other nodes vote for the payload of the first try. There is no room for their
certificate, a vote for another height wipes the collector, and they vote for the payload of the
second try, which has the room. -/
def votesMeanwhile : ℕ → List CollectorOp
  | 4 => [22, 23, 24].flatMap (voteFor 1)
  | 5 => [.addVote { height := 11, payloadHash := 1 } sixNodes 6]
  | 6 => [22, 23, 24].flatMap (voteFor 2)
  | _ => []

def firstCall : TemplateCall where
  minerAddress := ⟨6, 5⟩
  tailId := 1
  start := some
    { height := 10, majorVersion := 20, medianWeight := 0, alreadyGeneratedCoins := 1,
      difficulty := 1 }
  roundNow := 1005
  servedNow := 1005
  now := 1005
  filled := some { txHashes := [], txsWeight := 0, fee := 0 }
  activePubs := sixNodes
  ownKey := some 21
  sign _ hash := (21 : PublicKey) ++ hash
  txkeys i := ⟨0, BitVec.ofNat 256 i⟩
  meanwhile := votesMeanwhile

/-- The next call, a second later. -/
def secondCall : TemplateCall :=
  { firstCall with
    roundNow := 1006
    servedNow := 1006
    now := 1006
    meanwhile := fun _ => [] }

def pulseVerdict (b : Block) : Bool × Except MinerTxError Unit :=
  ((parsePulseRound b.minerTx.extra).isSome,
    checkPulsePayload templateEnv.coinbase.crypto (templateEnv.blockTimestamp b.prevId) b
      b.majorVersion)

/-- The template is handed out again in the second it was made in. -/
def sameSecondCall : TemplateCall := { secondCall with roundNow := 1005, servedNow := 1005 }

end Sample

end Arqma.Chain
