import Arqma.BlockTemplate
import Arqma.ByteReader
import Arqma.StorageServer

/-!
# The bytes of a transaction extra

`parse_tx_extra` reads field after field until the bytes are used up. Two things end where the
extra ends: padding, and a number whose last byte is missing. The readers take a flag that says
whether this is allowed, as it is in the source. A field that is read without it is complete, and
more bytes after it do not change it.
-/
namespace Arqma.Cryptonote
open Arqma.ByteReader Arqma.Storage List

variable {fields : List TxExtraField} {front more : List UInt8} {field : TxExtraField} {w count : ℕ}

section Blobs

/-- A key or signature in the byte order of its number. -/
def blobBytes {w : ℕ} (count : ℕ) (b : BitVec w) : List UInt8 := (leBytes count b.toNat).reverse

def readBlob (w count : ℕ) : Reader (BitVec w) :=
  (fun bytes => BitVec.ofNat w (readLe bytes.reverse)) <$> take count

def readKey : Reader (BitVec 256) := readBlob 256 32

def readSignature : Reader Signature := readBlob 512 64

/-- An integer of fixed width. -/
def readInt (count : ℕ) : Reader ℕ := readLe <$> take count

theorem length_blobBytes {w : ℕ} (count : ℕ) (b : BitVec w) :
    (blobBytes count b).length = count := by
  simp [blobBytes, leBytes]

theorem ofNat_readLe_blobBytes (hw : w = 8 * count) (b : BitVec w) :
    BitVec.ofNat w (readLe (blobBytes count b).reverse) = b := by
  have hlt : b.toNat < 256 ^ count := by
    rw [show (256 : ℕ) = 2 ^ 8 by norm_num, ← pow_mul, ← hw]
    exact b.isLt
  rw [blobBytes, reverse_reverse, readLe_leBytes, Nat.mod_eq_of_lt hlt]
  exact BitVec.eq_of_toNat_eq (by simp)

theorem decodes_blob (hw : w = 8 * count) (b : BitVec w) :
    Decodes (readBlob w count) (blobBytes count b) b := by
  have h := (Decodes.take (blobBytes count b) (length_blobBytes count b)).map
    fun bytes => BitVec.ofNat w (readLe bytes.reverse)
  rwa [ofNat_readLe_blobBytes hw b] at h

theorem decodes_key (key : BitVec 256) : Decodes readKey (blobBytes 32 key) key :=
  @decodes_blob 256 32 (by norm_num) key

theorem decodes_signature (signature : Signature) :
    Decodes readSignature (blobBytes 64 signature) signature :=
  @decodes_blob 512 64 (by norm_num) signature

theorem extends_blob (w count : ℕ) : Extends (readBlob w count) (readBlob w count) :=
  (Extends.take count).map _

theorem extends_int (count : ℕ) : Extends (readInt count) (readInt count) :=
  (Extends.take count).map _

end Blobs

section Fields

variable (cut : Bool)

/-- Zeros up to the end, with the number of bytes there is room for. The tag is the first zero. -/
def readPadding : ℕ → Reader (List UInt8)
  | 0, _ => none
  | _ + 1, [] => if cut then some ([], []) else none
  | room + 1, b :: rest =>
    if b ≠ 0 then none else (readPadding room rest).map fun p => (b :: p.1, p.2)

def txExtraNonceMaxBytes : ℕ := 255

def readNonce : Reader TxExtraField := do
  let nonce ← string cut
  accept (nonce.length ≤ txExtraNonceMaxBytes) (.other 2 nonce)

/-- The tag is a string of its own, which has to hold a depth and a hash and no more. -/
def mergeMiningTagParses (field : List UInt8) : Bool :=
  match (varint true 64 >>= fun _ => take 32) field with
  | some (_, rest) => rest = []
  | none => false

def readMergeMiningTag : Reader TxExtraField := do
  let field ← string cut
  accept (mergeMiningTagParses field) (.other 3 field)

def readRegister : Reader TxExtraField := do
  let publicSpendKeys ← vector cut readKey
  let publicViewKeys ← vector cut readKey
  let portionsForOperator ← readInt 8
  let portions ← vector cut (varint cut 64)
  let expirationTimestamp ← readInt 8
  let serviceNodeSignature ← readSignature
  pure (.serviceNodeRegister
    { publicSpendKeys
      publicViewKeys
      portionsForOperator := .ofNat portionsForOperator
      portions := portions.map UInt64.ofNat
      expirationTimestamp := .ofNat expirationTimestamp
      serviceNodeSignature })

def newStateOf : ℕ → Option NewState
  | 0 => some .deregister
  | 1 => some .decommission
  | 2 => some .recommission
  | 3 => some .ipChangePenalty
  | _ => none

/-- A vote of either kind: the index and the signature. -/
def readVote {α : Type} (vote : Signature → ℕ → α) : Reader α := do
  let validatorIndex ← varint cut 32
  let signature ← readSignature
  pure (vote signature validatorIndex)

def readStateChange : Reader TxExtraField := do
  let state ← varint cut 16
  match newStateOf state with
  | none => fail
  | some state =>
    let blockHeight ← varint cut 64
    let serviceNodeIndex ← varint cut 32
    let votes ← vector cut (readVote cut StateChangeVote.mk)
    pure (.serviceNodeStateChange { state, blockHeight, serviceNodeIndex, votes })

def readContributor : Reader TxExtraField := do
  let spendPublicKey ← readKey
  let viewPublicKey ← readKey
  pure (.serviceNodeContributor { spendPublicKey, viewPublicKey })

def readKeyImageProof : Reader KeyImageProof := do
  let keyImage ← readKey
  let signature ← readSignature
  pure { keyImage, signature }

def readKeyImageUnlock : Reader TxExtraField := do
  let keyImage ← readKey
  let signature ← readSignature
  let nonce ← readInt 4
  pure (.txKeyImageUnlock { keyImage, signature, nonce := .ofNat nonce })

def readPulseRound : Reader Pulse.PulseRound := do
  let height ← varint cut 64
  let round ← byte
  let leaderIndex ← varint cut 32
  let payloadHash ← readKey
  let votes ← vector cut (readVote cut Pulse.RoundVote.mk)
  pure { height, round := round.toNat, leaderIndex, payloadHash, votes }

/-- What follows the tag. The keys of the kinds that are not looked into stay bytes. -/
def readTagged (tag : UInt8) : Reader TxExtraField :=
  if tag = 0x00 then .other 0 <$> readPadding cut Chain.txExtraPaddingMaxCount
  else if tag = 0x01 then .other 1 <$> take 32
  else if tag = 0x02 then readNonce cut
  else if tag = 0x03 then readMergeMiningTag cut
  else if tag = 0x04 then (fun keys => .other 4 keys.flatten) <$> vector cut (take 32)
  else if tag = 0x70 then readRegister cut
  else if tag = 0x71 then readStateChange cut
  else if tag = 0x72 then .serviceNodeWinner <$> readKey
  else if tag = 0x73 then readContributor
  else if tag = 0x74 then .serviceNodePubkey <$> readKey
  else if tag = 0x75 then .txSecretKey <$> readKey
  else if tag = 0x76 then .txKeyImageProofs <$> vector cut readKeyImageProof
  else if tag = 0x77 then readKeyImageUnlock
  else if tag = 0x78 then .other 0x78 <$> take 8
  else if tag = 0x79 then .pulseRound <$> readPulseRound cut
  else if tag = 0xDE then .other 0xDE <$> string cut
  else fail

def readField : Reader TxExtraField := byte >>= readTagged cut

/-- Every field has at least its tag, so the length of the extra is enough `fuel`. -/
def parseFields : ℕ → List UInt8 → Option (List TxExtraField)
  | 0, _ => none
  | fuel + 1, input =>
    match readField cut input with
    | none => none
    | some (field, rest) =>
      if rest = [] then some [field] else (parseFields fuel rest).map (field :: ·)

def parseExtra (extra : List UInt8) : Option (List TxExtraField) :=
  if extra = [] then some [] else parseFields cut extra.length extra

end Fields

def parseTxExtra (extra : List UInt8) : Option (List TxExtraField) := parseExtra true extra

/-- The fields of an extra, if more bytes after it would not change any of them. -/
def completeFields (extra : List UInt8) : Option (List TxExtraField) := parseExtra false extra

def pulseRoundFromBytes (extra : List UInt8) : Option Pulse.PulseRound :=
  (parseTxExtra extra).bind getPulseRoundFromTxExtra

section Extension

theorem readPadding_complete (room : ℕ) (input : List UInt8) :
    readPadding false room input = none := by
  induction room generalizing input with
  | zero => rfl
  | succ room ih =>
    cases input with
    | nil => rfl
    | cons b rest =>
      unfold readPadding
      split_ifs
      · rfl
      · rw [ih, Option.map_none]

theorem readPadding_length_le {cut : Bool} {room : ℕ} {input a rest : List UInt8}
    (h : readPadding cut room input = some (a, rest)) : rest.length ≤ input.length := by
  induction room generalizing input a with
  | zero => cases h
  | succ room ih =>
    cases input with
    | nil =>
      unfold readPadding at h
      split_ifs at h
      obtain ⟨-, rfl⟩ := Prod.mk.inj (Option.some.inj h)
      exact le_rfl
    | cons b tail =>
      unfold readPadding at h
      split_ifs at h
      obtain ⟨p, hp, hpair⟩ := Option.map_eq_some_iff.mp h
      obtain ⟨-, rfl⟩ := Prod.mk.inj hpair
      exact (ih hp).trans (Nat.le_succ _)

theorem extends_padding (cut : Bool) (room : ℕ) :
    Extends (readPadding false room) (readPadding cut room) where
  append input a rest h := by
    rw [readPadding_complete] at h
    cases h
  length_le _ _ _ h := readPadding_length_le h

theorem extends_vote {α : Type} (cut : Bool) (vote : Signature → ℕ → α) :
    Extends (readVote false vote) (readVote cut vote) :=
  (Extends.varint cut 32).bind fun _ => (extends_blob 512 64).bind fun _ => .pure _

theorem extends_keyImageProof : Extends readKeyImageProof readKeyImageProof :=
  (extends_blob 256 32).bind fun _ => (extends_blob 512 64).bind fun _ => .pure _

theorem extends_register (cut : Bool) : Extends (readRegister false) (readRegister cut) :=
  (Extends.vector cut (extends_blob 256 32)).bind fun _ =>
  (Extends.vector cut (extends_blob 256 32)).bind fun _ =>
  (extends_int 8).bind fun _ =>
  (Extends.vector cut (.varint cut 64)).bind fun _ =>
  (extends_int 8).bind fun _ =>
  (extends_blob 512 64).bind fun _ => .pure _

theorem extends_stateChange (cut : Bool) :
    Extends (readStateChange false) (readStateChange cut) := by
  refine (Extends.varint cut 16).bind fun state => ?_
  cases newStateOf state with
  | none => exact .fail
  | some state =>
    exact (Extends.varint cut 64).bind fun _ => (Extends.varint cut 32).bind fun _ =>
      (Extends.vector cut (extends_vote cut StateChangeVote.mk)).bind fun _ => .pure _

theorem extends_pulseRound (cut : Bool) : Extends (readPulseRound false) (readPulseRound cut) :=
  (Extends.varint cut 64).bind fun _ => Extends.byte.bind fun _ =>
  (Extends.varint cut 32).bind fun _ => (extends_blob 256 32).bind fun _ =>
  (Extends.vector cut (extends_vote cut Pulse.RoundVote.mk)).bind fun _ => .pure _

theorem extends_tagged (cut : Bool) (tag : UInt8) :
    Extends (readTagged false tag) (readTagged cut tag) := by
  unfold readTagged
  refine .ite ((extends_padding cut _).map _) (.ite ((Extends.take 32).map _) ?_)
  refine .ite ((Extends.string cut).bind fun _ => .accept _ _) ?_
  refine .ite ((Extends.string cut).bind fun _ => .accept _ _) ?_
  refine .ite ((Extends.vector cut (.take 32)).map _) ?_
  refine .ite (extends_register cut) (.ite (extends_stateChange cut) ?_)
  refine .ite ((extends_blob 256 32).map _) ?_
  refine .ite ((extends_blob 256 32).bind fun _ => (extends_blob 256 32).bind fun _ => .pure _) ?_
  refine .ite ((extends_blob 256 32).map _) (.ite ((extends_blob 256 32).map _) ?_)
  refine .ite ((Extends.vector cut extends_keyImageProof).map _) ?_
  refine .ite ((extends_blob 256 32).bind fun _ => (extends_blob 512 64).bind fun _ =>
    (extends_int 4).bind fun _ => .pure _) ?_
  refine .ite ((Extends.take 8).map _) (.ite ((extends_pulseRound cut).map _) ?_)
  exact .ite ((Extends.string cut).map _) .fail

theorem extends_field (cut : Bool) : Extends (readField false) (readField cut) :=
  Extends.byte.bind (extends_tagged cut)

theorem readField_length_lt {cut : Bool} {input rest : List UInt8}
    (h : readField cut input = some (field, rest)) : rest.length < input.length := by
  obtain ⟨tag, middle, htag, hrest⟩ := bind_eq_some_iff.mp h
  rw [byte_eq_some htag]
  exact Nat.lt_succ_of_le ((extends_tagged cut tag).length_le hrest)

end Extension

section Parsing

variable {cut : Bool}

/-- Fuel for every byte is enough. -/
theorem parseFields_fuel {fuel fuel' : ℕ} {input : List UInt8} (h : input.length ≤ fuel)
    (h' : input.length ≤ fuel') (hne : input ≠ []) :
    parseFields cut fuel input = parseFields cut fuel' input := by
  have hpos := length_pos_iff.mpr hne
  induction fuel generalizing fuel' input with
  | zero => omega
  | succ fuel ih =>
    obtain ⟨fuel', rfl⟩ : ∃ n, fuel' = n + 1 := ⟨fuel' - 1, by omega⟩
    unfold parseFields
    cases hread : readField cut input with
    | none => rfl
    | some p =>
      obtain ⟨field, rest⟩ := p
      have hlt := readField_length_lt hread
      by_cases hrest : rest = []
      · simp only [if_pos hrest]
      · simp only [if_neg hrest]
        have hsame : parseFields cut fuel rest = parseFields cut fuel' rest :=
          ih (by omega) (by omega) hrest (length_pos_iff.mpr hrest)
        rw [hsame]

/-- Complete fields are read again in front of more bytes, and then the bytes are read. -/
theorem parseFields_append {fuel : ℕ}
    (h : parseFields false fuel front = some fields) (hmore : more ≠ []) {left : ℕ}
    (hleft : front.length + more.length ≤ left) :
    parseFields true left (front ++ more) =
      (parseFields true more.length more).map (fields ++ ·) := by
  induction fuel generalizing front fields left with
  | zero => cases h
  | succ fuel ih =>
    have hpos := length_pos_iff.mpr hmore
    obtain ⟨left, rfl⟩ : ∃ n, left = n + 1 := ⟨left - 1, by omega⟩
    unfold parseFields at h
    cases hread : readField false front with
    | none => simp [hread] at h
    | some p =>
      obtain ⟨field, rest⟩ := p
      have hlt := readField_length_lt hread
      have hagain := (extends_field true).append hread more
      conv_lhs => unfold parseFields
      have hne : rest ++ more ≠ [] := by simp [hmore]
      simp only [hagain, if_neg hne]
      simp only [hread] at h
      split_ifs at h with hrest
      · subst hrest
        obtain rfl := Option.some.inj h
        rw [nil_append, parseFields_fuel (by omega) le_rfl hmore]
        rfl
      · obtain ⟨tail, htail, rfl⟩ := Option.map_eq_some_iff.mp h
        rw [ih htail (by omega), Option.map_map]
        rfl

theorem parseTxExtra_append
    (h : completeFields front = some fields) (hmore : more ≠ []) :
    parseTxExtra (front ++ more) = (parseTxExtra more).map (fields ++ ·) := by
  unfold completeFields parseExtra at h
  unfold parseTxExtra parseExtra
  rw [if_neg hmore, if_neg (by simp [hmore])]
  split_ifs at h with hfront
  · obtain rfl := Option.some.inj h
    simp [hfront]
  · exact parseFields_append h hmore (by rw [length_append])

theorem readPadding_zeros (room count : ℕ) : readPadding true room (replicate count 0) =
      if count < room then some (replicate count 0, []) else none := by
  induction room generalizing count with
  | zero => rfl
  | succ room ih =>
    cases count with
    | zero => simp [readPadding]
    | succ count =>
      rw [replicate_succ, readPadding, if_neg (by simp), ih]
      split_ifs with hroom hroom' hroom'
      · rfl
      · omega
      · omega
      · rfl

theorem readField_zeros (count : ℕ) : readField true (replicate (count + 1) 0) =
      if count < Chain.txExtraPaddingMaxCount then
        some (.other 0 (replicate count 0), []) else none := by
  have hread : readField true (replicate (count + 1) 0) =
      (readPadding true Chain.txExtraPaddingMaxCount (replicate count 0)).bind
        fun p => some (TxExtraField.other 0 p.1, p.2) := rfl
  rw [hread, readPadding_zeros]
  split_ifs <;> rfl

/-- Zeros are padding, of at most 255 bytes. -/
theorem parseTxExtra_zeros (count : ℕ) : parseTxExtra (replicate count 0) =
      if count ≤ Chain.txExtraPaddingMaxCount then some (Chain.zeros count) else none := by
  cases count with
  | zero => rfl
  | succ count =>
    unfold parseTxExtra parseExtra
    rw [if_neg (by simp), length_replicate, parseFields, readField_zeros]
    by_cases hroom : count < Chain.txExtraPaddingMaxCount
    · simp [hroom, Nat.succ_le_of_lt hroom, Chain.zeros]
    · simp [hroom, show ¬count + 1 ≤ Chain.txExtraPaddingMaxCount by omega]

theorem parseTxExtra_field {bytes more : List UInt8}
    (h : Decodes (readField true) bytes field) (hbytes : bytes ≠ []) :
    parseTxExtra (bytes ++ more) = (parseTxExtra more).map (field :: ·) := by
  obtain ⟨n, hn⟩ : ∃ n, (bytes ++ more).length = n + 1 := ⟨(bytes ++ more).length - 1, by
      have := length_pos_iff.mpr hbytes
      rw [length_append]
      omega⟩
  have hlt := readField_length_lt (h more)
  unfold parseTxExtra parseExtra
  rw [if_neg (by simp [hbytes]), hn]
  conv_lhs => unfold parseFields
  simp only [h more]
  split_ifs with hmore
  · simp
  · rw [parseFields_fuel (by omega) le_rfl hmore]

end Parsing

end Arqma.Cryptonote
