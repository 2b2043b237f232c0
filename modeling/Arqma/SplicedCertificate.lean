import Arqma.TemplateCertificate
import Arqma.TxExtraBytes

/-!
# Spliced certificates

`splice_majority_certificate` writes a certificate over the front of the padding of the miner
transaction and leaves the other zeros. What is left is padding again, and padding of more than
255 bytes is refused by the parser. The room that the loop makes is that of the largest
certificate, so a small quorum, whose certificate has few votes, leaves too many zeros.
-/
namespace Arqma.Pulse
open Arqma.Cryptonote Arqma.ByteReader Arqma.Chain List

variable {cert : PulseRound} {vote : RoundVote}

section Bytes

def roundVoteBytes (vote : RoundVote) : List UInt8 :=
  varintBytes vote.validatorIndex ++ blobBytes 64 vote.signature

/-- `add_pulse_round_to_tx_extra` on no bytes. -/
def pulseRoundBytes (cert : PulseRound) : List UInt8 :=
  [0x79] ++ (varintBytes cert.height ++ ([cert.round.toUInt8] ++
    (varintBytes cert.leaderIndex ++ (blobBytes 32 cert.payloadHash ++
      vectorBytes roundVoteBytes cert.votes))))

/-- The numbers are of the types of the source. -/
structure PulseRound.Fits (cert : PulseRound) : Prop where
  height : cert.height < 2 ^ 64
  round : cert.round < 2 ^ 8
  leaderIndex : cert.leaderIndex < 2 ^ 32
  votes : cert.votes.length < 2 ^ 64
  validatorIndex : ∀ vote ∈ cert.votes, vote.validatorIndex < 2 ^ 32

def spliceMajorityCertificate (extra : List UInt8) (extraBeforePadding : ℕ) (cert : PulseRound) :
    Option (List UInt8) :=
  let blob := pulseRoundBytes cert
  if blob = [] ∨ extra.length < extraBeforePadding then none
  else
    let padding := extra.length - extraBeforePadding
    if padding < blob.length then none
    else
      let leftover := padding - blob.length
      some (extra.take extraBeforePadding ++ blob ++ List.replicate leftover 0)

theorem length_varintBytes {n : ℕ} (h : n < 2 ^ 64) : (varintBytes n).length = varintSize n :=
  length_writeVarint (h.trans_le (by norm_num))

theorem length_roundVoteBytes (h : vote.validatorIndex < 2 ^ 32) :
    (roundVoteBytes vote).length = varintSize vote.validatorIndex + 64 := by
  rw [roundVoteBytes, length_append, length_blobBytes, length_varintBytes (h.trans (by norm_num))]

theorem PulseRound.Fits.length_bytes (h : cert.Fits) :
    (pulseRoundBytes cert).length = pulseRoundSize cert := by
  have hvotes : cert.votes.map (fun vote => (roundVoteBytes vote).length) =
      cert.votes.map fun vote => varintSize vote.validatorIndex + 64 :=
    map_congr_left fun vote hvote => length_roundVoteBytes (h.validatorIndex vote hvote)
  simp only [pulseRoundBytes, vectorBytes, length_append, length_flatMap, hvotes,
    length_blobBytes, length_varintBytes h.height, length_varintBytes h.votes,
    length_varintBytes (h.leaderIndex.trans (by norm_num)), length_singleton, pulseRoundSize]
  omega

theorem decodes_vote (h : vote.validatorIndex < 2 ^ 32) :
    Decodes (readVote true RoundVote.mk) (roundVoteBytes vote) vote := by
  unfold readVote roundVoteBytes
  refine (Decodes.varint true h (h.trans (by norm_num))).bind ?_
  rw [← append_nil (blobBytes 64 vote.signature)]
  exact (decodes_signature vote.signature).bind (.pure vote)

theorem roundVoteBytes_ne_nil (vote : RoundVote) : roundVoteBytes vote ≠ [] := by
  intro h
  have hlen := congrArg List.length h
  rw [roundVoteBytes, length_append, length_blobBytes] at hlen
  simp at hlen

theorem PulseRound.Fits.decodes_round (h : cert.Fits) :
    Decodes (readPulseRound true) (varintBytes cert.height ++ ([cert.round.toUInt8] ++
      (varintBytes cert.leaderIndex ++ (blobBytes 32 cert.payloadHash ++
        vectorBytes roundVoteBytes cert.votes)))) cert := by
  have hround : cert.round.toUInt8.toNat = cert.round := toNat_toUInt8 h.round
  have hvotes : Decodes (vector true (readVote true RoundVote.mk))
      (vectorBytes roundVoteBytes cert.votes) cert.votes :=
    .vector true h.votes (fun vote _ => roundVoteBytes_ne_nil vote)
      fun vote hvote => decodes_vote (h.validatorIndex vote hvote)
  unfold readPulseRound
  refine (Decodes.varint true h.height h.height).bind ?_
  refine (Decodes.byte cert.round.toUInt8).bind ?_
  refine (Decodes.varint true h.leaderIndex (h.leaderIndex.trans (by norm_num))).bind ?_
  refine (decodes_key cert.payloadHash).bind ?_
  rw [← append_nil (vectorBytes roundVoteBytes cert.votes), hround]
  exact hvotes.bind (.pure cert)

/-- What is written is read back. -/
theorem PulseRound.Fits.decodes (h : cert.Fits) :
    Decodes (readField true) (pulseRoundBytes cert) (.pulseRound cert) :=
  (Decodes.byte 0x79).bind (Decodes.map TxExtraField.pulseRound h.decodes_round)

theorem pulseRoundBytes_ne_nil (cert : PulseRound) : pulseRoundBytes cert ≠ [] := by
  simp [pulseRoundBytes]

end Bytes

section Splice

variable {front extra : List UInt8} {fields : List TxExtraField} {cert : PulseRound} {padding : ℕ}

/-- The splice needs room for the certificate and keeps what is before the padding. -/
theorem splice_eq_some_iff (hfits : cert.Fits) :
    spliceMajorityCertificate (front ++ List.replicate padding 0) front.length cert = some extra ↔
      pulseRoundSize cert ≤ padding ∧ extra = front ++ (pulseRoundBytes cert ++
          List.replicate (padding - pulseRoundSize cert) 0) := by
  unfold spliceMajorityCertificate
  grind [pulseRoundBytes_ne_nil, hfits.length_bytes]

theorem parseTxExtra_spliced (hfront : completeFields front = some fields) (hfits : cert.Fits)
    (leftover : ℕ) :
    parseTxExtra (front ++ (pulseRoundBytes cert ++ List.replicate leftover 0)) =
      if leftover ≤ txExtraPaddingMaxCount then
        some (fields ++ [.pulseRound cert] ++ zeros leftover) else none := by
  have hne : pulseRoundBytes cert ++ List.replicate leftover 0 ≠ [] := by
    simp [pulseRoundBytes_ne_nil]
  rw [parseTxExtra_append hfront hne,
    parseTxExtra_field hfits.decodes (pulseRoundBytes_ne_nil cert), parseTxExtra_zeros]
  split_ifs
  · simp
  · rfl

/-- The spliced bytes have the fields that the template model gives them, or none where the zeros
that are left do not parse. -/
theorem splice_refines (hfront : completeFields front = some fields) (hfits : cert.Fits)
    (padding : ℕ) :
    (spliceMajorityCertificate (front ++ List.replicate padding 0) front.length cert).bind
        parseTxExtra =
      (Chain.spliceMajorityCertificate fields padding cert).filter fun _ =>
        padding - pulseRoundSize cert ≤ txExtraPaddingMaxCount := by
  unfold Chain.spliceMajorityCertificate
  split_ifs with hroom
  · have hnone : spliceMajorityCertificate (front ++ List.replicate padding 0) front.length cert =
        none := by
      rw [Option.eq_none_iff_forall_ne_some]
      intro extra hextra
      exact absurd hroom ((splice_eq_some_iff hfits).mp hextra).1.not_gt
    rw [hnone]
    rfl
  · rw [(splice_eq_some_iff hfits).mpr ⟨Nat.le_of_not_lt hroom, rfl⟩, Option.bind_some,
      parseTxExtra_spliced hfront hfits]
    simp only [Option.filter_some, decide_eq_true_eq]

/-- The parser finds the certificate unless the fields before it have another, and only if it
accepts the zeros. -/
theorem pulseRoundFromBytes_spliced (hfront : completeFields front = some fields)
    (hfits : cert.Fits) (leftover : ℕ) :
    pulseRoundFromBytes (front ++ (pulseRoundBytes cert ++ List.replicate leftover 0)) =
      if leftover ≤ txExtraPaddingMaxCount then
        (getPulseRoundFromTxExtra fields).or (some cert) else none := by
  rw [pulseRoundFromBytes, parseTxExtra_spliced hfront hfits]
  split_ifs
  · rw [Option.bind_some, getPulseRoundFromTxExtra_append, getPulseRoundFromTxExtra_append,
      getPulseRoundFromTxExtra_zeros, Option.or_none]
    rfl
  · rfl

end Splice

section Retry

theorem varintSize_mono {m n : ℕ} (h : m ≤ n) : varintSize m ≤ varintSize n := by
  unfold varintSize
  rw [Nat.log2_eq_log_two, Nat.log2_eq_log_two]
  exact Nat.succ_le_succ (Nat.div_le_div_right (Nat.log_mono_right h))

theorem varintSize_lt_iff {n k : ℕ} (hk : k ≠ 0) : varintSize n ≤ k ↔ n < 128 ^ k := by
  unfold varintSize
  by_cases hn : n = 0
  · subst hn
    simp [Nat.one_le_iff_ne_zero, hk]
  · rw [Nat.succ_le_iff, Nat.div_lt_iff_lt_mul (by norm_num), Nat.log2_lt hn,
      show (128 : ℕ) = 2 ^ 7 by norm_num, ← pow_mul, Nat.mul_comm]

theorem majorityCertificateBlobSize_eq : majorityCertificateBlobSize = 505 := by
  decide

/-- The weight of a miner transaction with some zeros after its `front` bytes of extra: what is
not the extra, the length of the extra and the zeros. -/
def coinbaseWeight (base front count : ℕ) : ℕ := base + varintSize (front + count) + count

theorem fitWeight_eq_done {weight : ℕ → ℕ} {txsWeight cumulativeWeight count : ℕ}
    (h : fitWeight weight txsWeight cumulativeWeight = .done count) :
    cumulativeWeight = txsWeight + weight count := by
  unfold fitWeight at h
  grind

theorem retry_padding {base front txsWeight weight before padding : ℕ}
    (hbefore : fitWeight (coinbaseWeight base front) txsWeight weight = .done before)
    (hnext : fitWeight (coinbaseWeight base front) txsWeight
      (weight + majorityCertificateBlobSize) = .done padding) :
    before + majorityCertificateBlobSize ≤ padding + 1 ∧
      padding ≤ before + majorityCertificateBlobSize := by
  have hweight := fitWeight_eq_done hbefore
  have hweight' := fitWeight_eq_done hnext
  rw [majorityCertificateBlobSize_eq] at *
  unfold coinbaseWeight at hweight hweight'
  have hle : before ≤ padding := by
    by_contra hlt
    have := @varintSize_mono (front + padding) (front + before) (by omega)
    omega
  have hmono := @varintSize_mono (front + before) (front + padding) (by omega)
  grind [fitWeight]

end Retry

section Accepted

variable {crypto : Crypto} {cert : PulseRound} {height : ℕ} {prevId : Hash}
  {activePubs : List PublicKey}

theorem varintSize_pos (n : ℕ) : 1 ≤ varintSize n := Nat.succ_le_succ (Nat.zero_le _)

theorem pulseRoundSize_of_accepted
    (h : verifyMajorityCertificate crypto cert height prevId activePubs.length
      (quorumPubkeys crypto height activePubs cert.round) = true) :
    pulseRoundSize cert =
      35 + varintSize cert.height + varintSize cert.leaderIndex + 65 * cert.votes.length ∧
      cert.votes.length = minSignaturesForQuorum (min activePubs.length kQuorumSize) ∧
      activePubs.length ≠ 0 := by
  obtain ⟨hvotes, -, hround⟩ := verifyMajorityCertificate_iff.mp h
  obtain ⟨-, -, hactive, -, -, -, -, hvalid⟩ := verifyRound_iff.mp hround
  rw [quorumPubkeys_length] at hvotes
  have hcount : cert.votes.length ≤ 11 :=
    hvotes.trans_le ((minSignaturesForQuorum_le _).trans (Nat.min_le_right _ _))
  have hindex : ∀ vote ∈ cert.votes, varintSize vote.validatorIndex + 64 = 65 := by
    intro vote hvote
    have hlt := (hvalid vote hvote).lt
    rw [quorumPubkeys_length] at hlt
    have hsmall : vote.validatorIndex < 128 ^ 1 :=
      hlt.trans_le ((Nat.min_le_right _ _).trans (by decide))
    have := (varintSize_lt_iff one_ne_zero).mpr hsmall
    have := varintSize_pos vote.validatorIndex
    omega
  have hlength : varintSize cert.votes.length = 1 :=
    le_antisymm ((varintSize_lt_iff one_ne_zero).mpr (by omega)) (varintSize_pos _)
  refine ⟨?_, hvotes, hactive⟩
  rw [pulseRoundSize, hlength, map_congr_left hindex, map_const', sum_replicate]
  simp only [smul_eq_mul]
  omega

/-- The size lies between those for the smallest and the largest height and index. -/
theorem pulseRoundSize_bounds (hfits : cert.Fits)
    (h : verifyMajorityCertificate crypto cert height prevId activePubs.length
      (quorumPubkeys crypto height activePubs cert.round) = true) :
    37 + 65 * cert.votes.length ≤ pulseRoundSize cert ∧
      pulseRoundSize cert ≤ 50 + 65 * cert.votes.length := by
  obtain ⟨hsize, -, -⟩ := pulseRoundSize_of_accepted h
  have hheight := (@varintSize_lt_iff cert.height 10 (by norm_num)).mpr
    (hfits.height.trans_le (by norm_num))
  have hleader := (@varintSize_lt_iff cert.leaderIndex 5 (by norm_num)).mpr
    (hfits.leaderIndex.trans_le (by norm_num))
  have := varintSize_pos cert.height
  have := varintSize_pos cert.leaderIndex
  omega

/-- A spliced certificate keeps the length and the front of the extra. It is read back exactly if
the fields before it have no other and at most 255 zeros are left. With up to five active nodes a
repeated try always leaves more; with six or more it never does when the try before had at most 47
zeros. -/
theorem spliced_certificate_readable {front extra : List UInt8} {fields : List TxExtraField}
    {padding : ℕ} (hfront : completeFields front = some fields) (hfits : cert.Fits)
    (hcert : verifyMajorityCertificate crypto cert height prevId activePubs.length
      (quorumPubkeys crypto height activePubs cert.round) = true)
    (hsplice : spliceMajorityCertificate (front ++ List.replicate padding 0) front.length cert =
      some extra) :
    extra.length = front.length + padding ∧ extra.take front.length = front ∧
      (pulseRoundFromBytes extra = some cert ↔
        (getPulseRoundFromTxExtra fields = none ∨ getPulseRoundFromTxExtra fields = some cert) ∧
          padding ≤ pulseRoundSize cert + txExtraPaddingMaxCount) ∧
      ∀ base txsWeight weight before,
        fitWeight (coinbaseWeight base front.length) txsWeight weight = .done before →
          fitWeight (coinbaseWeight base front.length) txsWeight
            (weight + majorityCertificateBlobSize) = .done padding →
          (activePubs.length ≤ 5 → pulseRoundFromBytes extra = none) ∧
            (6 ≤ activePubs.length → before ≤ 47 → getPulseRoundFromTxExtra fields = none →
              pulseRoundFromBytes extra = some cert) := by
  obtain ⟨hroom, rfl⟩ := (splice_eq_some_iff hfits).mp hsplice
  have hread := pulseRoundFromBytes_spliced hfront hfits (padding - pulseRoundSize cert)
  obtain ⟨hlow, hhigh⟩ := pulseRoundSize_bounds hfits hcert
  obtain ⟨-, hvotes, hactive⟩ := pulseRoundSize_of_accepted hcert
  have hquorum : min activePubs.length kQuorumSize ≠ 0 := by
    rw [show kQuorumSize = 11 from rfl]
    omega
  rw [minSignaturesForQuorum_eq hquorum, show kQuorumSize = 11 from rfl] at hvotes
  have hmax : txExtraPaddingMaxCount = 255 := rfl
  refine ⟨?_, take_left, ?_, fun base txsWeight weight before hbefore hnext => ?_⟩
  · simp only [length_append, hfits.length_bytes, length_replicate]
    omega
  · rw [hread]
    by_cases hleft : padding - pulseRoundSize cert ≤ txExtraPaddingMaxCount
    · rw [if_pos hleft, and_iff_left (by omega)]
      cases getPulseRoundFromTxExtra fields <;> simp
    · rw [if_neg hleft]
      simp only [reduceCtorEq, false_iff, not_and]
      omega
  · have hpadding := retry_padding hbefore hnext
    grind [majorityCertificateBlobSize_eq]

end Accepted

section Sample

/-- The certificate of the first members of the quorum. -/
def sampleCertificate (activePubs : List PublicKey) : PulseRound :=
  let keys := quorumPubkeys templateCrypto 10 activePubs 0
  { height := 10
    leaderIndex := leaderIndex templateCrypto 10 activePubs.length 0
    payloadHash := 1
    votes := (keys.take (minSignaturesForQuorum keys.length)).zipIdx.map fun (key, i) =>
      ⟨key ++ roundHash templateCrypto 10 1 0 1, i⟩ }

def keyExtra : List UInt8 := 0x01 :: List.replicate 32 7

def splicedSample (activePubs : List PublicKey) : List UInt8 :=
  (spliceMajorityCertificate (keyExtra ++ List.replicate 504 0) 33
    (sampleCertificate activePubs)).getD []

theorem sampleCertificate_six_fits : (sampleCertificate sixNodes).Fits :=
  ⟨by decide, by decide, by decide, by decide, by decide⟩

/-- Six nodes and the padding of the second try. -/
theorem six_nodes_readable :
    pulseRoundFromBytes (splicedSample sixNodes) = some (sampleCertificate sixNodes) := by
  have hfront : completeFields keyExtra = some [.other 1 (List.replicate 32 7)] := by
    decide
  have hcert : verifyMajorityCertificate templateCrypto (sampleCertificate sixNodes) 10 1
      sixNodes.length (quorumPubkeys templateCrypto 10 sixNodes 0) = true := by decide +kernel
  have hsplice : spliceMajorityCertificate (keyExtra ++ List.replicate 504 0) keyExtra.length
      (sampleCertificate sixNodes) = some (splicedSample sixNodes) := by decide +kernel
  have hread := (spliced_certificate_readable hfront sampleCertificate_six_fits hcert
    hsplice).2.2.2 100 0 101 0
  refine (hread ?_ ?_).2 (by decide) (by decide) rfl
  · decide
  · decide

/-- A network with one node, which votes for its templates. As before, a vote for another height
wipes the collector between the tries. -/
def oneNodeCall : TemplateCall :=
  { firstCall with
    activePubs := [21]
    meanwhile := fun use => if use = 5 then votesMeanwhile use else [] }

/-- The certificate of one node is accepted and spliced in the padding of the second try, and the
parser refuses the result. So it is with the template of that node. -/
theorem one_node_unreadable :
    let cert := sampleCertificate [21]
    completeFields keyExtra = some [.other 1 (List.replicate 32 7)] ∧
      verifyMajorityCertificate templateCrypto cert 10 1 1
        (quorumPubkeys templateCrypto 10 [21] 0) = true ∧
      fitWeight (coinbaseWeight 100 33) 0 101 = .done 0 ∧
      fitWeight (coinbaseWeight 100 33) 0 (101 + majorityCertificateBlobSize) = .done 504 ∧
      spliceMajorityCertificate keyExtra 33 cert = none ∧
      spliceMajorityCertificate (keyExtra ++ List.replicate 504 0) 33 cert =
        some (splicedSample [21]) ∧
      pulseRoundFromBytes (splicedSample [21]) = none ∧
      (createBlockTemplate templateEnv oneNodeCall {}).2.map (fun b =>
        ((getPulseRoundFromTxExtra b.minerTx.extra).isSome,
          (parsePulseRound b.minerTx.extra).isSome)) = some (true, false) := by
  decide +kernel

end Sample

end Arqma.Pulse
