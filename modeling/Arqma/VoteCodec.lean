import Arqma.Blink
import Arqma.BtSerialize
import Arqma.StateChangeSigners
import Arqma.TxExtraBytes
import Arqma.VotingPool

/-!
# Votes on the mesh

An obligations vote travels as a bt dictionary. Votes of Pulse and Blink rounds have a fixed
layout behind a version byte, and are read as they are or wrapped in a bt string. The three
readers are tried on whatever a peer sends.
-/
namespace Arqma.Net
open Arqma.Cryptonote Arqma.ServiceNodes Arqma.ByteReader Arqma.Storage List

variable {c : UInt8} {bits n : ℕ}

/-! ## Obligations votes -/

structure MeshVote extends QuorumVote where
  version : ℕ := 0

inductive VoteError
  | missing (key : String)
  | otherType
  | overflow
  | invalidEnum (key : String)
  | invalidGroup
  | signatureSize
  | blockHashSize

def QuorumGroup.code : QuorumGroup → ℕ
  | .invalid => 0
  | .validator => 1
  | .worker => 2

/-- Every integer is stored in 64 bits with a sign. -/
def btNat (n : ℕ) : BtValue := .int (.ofNat n)

def serializeSubject : VoteSubject → List (Bytes × BtValue)
  | .checkpoint blockHash => [(asciiBytes "bh", .string (blobBytes 32 blockHash))]
  | .stateChange workerIndex state =>
    [(asciiBytes "wi", btNat workerIndex), (asciiBytes "sc", btNat state.toUInt16.toNat)]

def serializeVote (vote : MeshVote) : BtValue :=
  .dict ([(asciiBytes "v", btNat vote.version),
    (asciiBytes "t", btNat vote.subject.type.toUInt64.toNat),
    (asciiBytes "h", btNat vote.blockHeight), (asciiBytes "g", btNat (QuorumGroup.code vote.group)),
    (asciiBytes "i", btNat vote.indexInGroup),
    (asciiBytes "s", .string (blobBytes 64 vote.signature))] ++ serializeSubject vote.subject)

section Deserialize

variable (dict : List (Bytes × BtValue))

/-- `dict.at`. -/
def entryAt (key : String) : Except VoteError BtValue :=
  match dict.lookup (asciiBytes key) with
  | some v => .ok v
  | none => .error (.missing key)

/-- `get_int` for an unsigned type. -/
def getInt (bits : ℕ) : BtValue → Except VoteError ℕ
  | .int value =>
    if bits < 64 ∧ (2 ^ bits - 1 < value.toInt ∨ value.toInt < 0) then .error .overflow
    else .ok value.toUInt64.toNat
  | _ => .error .otherType

/-- `get_enum`, with the values of the enumeration below `_count`. -/
def getEnum {E : Type} (bits : ℕ) (values : List E) (key : String) : Except VoteError E := do
  let value ← getInt bits (← entryAt dict key)
  match values[value]? with
  | some e => .ok e
  | none => .error (.invalidEnum key)

/-- A string of the size of the variable it is copied into. -/
def getBlob (w count : ℕ) (otherSize : VoteError) : BtValue → Except VoteError (BitVec w)
  | .string s =>
    if s.length ≠ count then .error otherSize else .ok (.ofNat w (readLe s.reverse))
  | _ => .error .otherType

def deserializeSubject : QuorumType → Except VoteError VoteSubject
  | .checkpointing => do return .checkpoint (← getBlob 256 32 .blockHashSize (← entryAt dict "bh"))
  | .obligations => do
    let workerIndex ← getInt 16 (← entryAt dict "wi")
    let state ← getEnum dict 16
      [.deregister, .decommission, .recommission, .ipChangePenalty] "sc"
    return .stateChange workerIndex state

end Deserialize

def deserializeVote : BtValue → Except VoteError MeshVote
  | .dict d => do
    let version ← getInt 8 (← entryAt d "v")
    let type ← getEnum d 8 [.obligations, .checkpointing] "t"
    let blockHeight ← getInt 64 (← entryAt d "h")
    let group ← getEnum d 8 [.invalid, .validator, .worker] "g"
    if group = .invalid then .error .invalidGroup
    else
      let indexInGroup ← getInt 16 (← entryAt d "i")
      let signature ← getBlob 512 64 .signatureSize (← entryAt d "s")
      let subject ← deserializeSubject d type
      return { version, blockHeight, group, indexInGroup, signature, subject }
  | _ => .error .otherType

def tryDecodeObligationVote (payload : Bytes) : Option MeshVote :=
  if payload = [] then none
  else
    match btGet payload with
    | .error _ => none
    | .ok decoded =>
      match deserializeVote decoded with
      | .error _ => none
      | .ok vote => if vote.subject.type ≠ .obligations then none else some vote

/-! ## Relayed votes -/

section Relayed

variable {α : Type}

/-- A vote of fixed size behind a version byte. -/
def decodeFixed (size : ℕ) (version : UInt8) (fields : Reader α) (blob : Bytes) : Option α :=
  if blob.length ≠ size then none
  else if blob.head? ≠ some version then none
  else (fields (blob.drop 1)).map Prod.fst

/-- A payload is read as it is, and otherwise as a bt string. -/
def tryDecode (decode : Bytes → Option α) (payload : Bytes) : Option α :=
  match decode payload with
  | some vote => some vote
  | none =>
    if payload = [] then none
    else
      match btGet payload with
      | .ok (.string s) => decode s
      | _ => none

end Relayed

def encodePulseVote (vote : Pulse.RelayVote) : Bytes :=
  2 :: (leBytes 8 vote.height ++ (leBytes 1 vote.round ++ (leBytes 4 vote.leaderIndex ++
    (leBytes 4 vote.validatorIndex ++ (blobBytes 32 vote.prevId ++
      (blobBytes 32 vote.payloadHash ++ (blobBytes 64 vote.signature ++ [])))))))

def readPulseVote : Reader Pulse.RelayVote := do
  let height ← readInt 8
  let round ← readInt 1
  let leaderIndex ← readInt 4
  let validatorIndex ← readInt 4
  let prevId ← readKey
  let payloadHash ← readKey
  let signature ← readSignature
  return { height, round, leaderIndex, validatorIndex, prevId, payloadHash, signature }

def decodePulseVote : Bytes → Option Pulse.RelayVote := decodeFixed 146 2 readPulseVote

def tryDecodePulseVote : Bytes → Option Pulse.RelayVote := tryDecode decodePulseVote

def encodeBlinkVote (vote : Blink.RelayVote) : Bytes :=
  1 :: (leBytes 8 vote.height ++ (blobBytes 32 vote.txid ++ (leBytes 4 vote.validatorIndex ++
    (blobBytes 32 vote.pub ++ (blobBytes 64 vote.signature ++ [])))))

def readBlinkVote : Reader Blink.RelayVote := do
  let height ← readInt 8
  let txid ← readKey
  let validatorIndex ← readInt 4
  let pub ← readKey
  let signature ← readSignature
  return { height, txid, validatorIndex, pub, signature }

def decodeBlinkVote : Bytes → Option Blink.RelayVote := decodeFixed 141 1 readBlinkVote

def tryDecodeBlinkVote : Bytes → Option Blink.RelayVote := tryDecode decodeBlinkVote

/-! ## Any vote -/

inductive AnyVote
  | obligation (vote : MeshVote)
  | pulse (vote : Pulse.RelayVote)
  | blink (vote : Blink.RelayVote)

namespace AnyVote

/-- The fields fit their types, and an obligations vote has a valid group. -/
def Valid : AnyVote → Prop
  | obligation vote =>
    vote.version < 2 ^ 8 ∧ vote.blockHeight < 2 ^ 64 ∧ vote.group ≠ .invalid ∧
      vote.indexInGroup < 2 ^ 16 ∧ ∃ workerIndex state, workerIndex < 2 ^ 16 ∧
        vote.subject = .stateChange workerIndex state
  | pulse vote =>
    vote.height < 2 ^ 64 ∧ vote.round < 2 ^ 8 ∧ vote.leaderIndex < 2 ^ 32 ∧
      vote.validatorIndex < 2 ^ 32
  | blink vote => vote.height < 2 ^ 64 ∧ vote.validatorIndex < 2 ^ 32

/-- The payloads a vote is sent in. -/
def encodings : AnyVote → List Bytes
  | obligation vote => [btSerialize (serializeVote vote)]
  | pulse vote => [encodePulseVote vote, btSerialize (.string (encodePulseVote vote))]
  | blink vote => [encodeBlinkVote vote, btSerialize (.string (encodeBlinkVote vote))]

/-- What the readers make of a payload. -/
def decodings (payload : Bytes) : List AnyVote :=
  (tryDecodeObligationVote payload).toList.map obligation ++
    (tryDecodePulseVote payload).toList.map pulse ++ (tryDecodeBlinkVote payload).toList.map blink

end AnyVote

section ReadBack

theorem getInt_btNat (hbits : bits ≤ 64) (h : n < 2 ^ bits) : getInt bits (btNat n) = .ok n := by
  have hlt : n < 2 ^ 64 := h.trans_le (Nat.pow_le_pow_right (by norm_num) hbits)
  have hback : (Int64.ofNat n).toUInt64.toNat = n := by simpa using hlt
  have hrange : ¬(bits < 64 ∧
      (2 ^ bits - 1 < (Int64.ofNat n).toInt ∨ (Int64.ofNat n).toInt < 0)) := by
    rintro ⟨hsmall, hout⟩
    have hhalf : n < 2 ^ 63 := h.trans_le (Nat.pow_le_pow_right (by norm_num) (by omega))
    rw [Int64.toInt_ofNat_of_lt hhalf] at hout
    have hint : (n : ℤ) < 2 ^ bits := by exact_mod_cast h
    omega
  rw [btNat, getInt, if_neg hrange, hback]

theorem getBlob_blobBytes {w count : ℕ} (hw : w = 8 * count) (b : BitVec w) (e : VoteError) :
    getBlob w count e (.string (blobBytes count b)) = .ok b := by
  rw [getBlob, if_neg (not_not.mpr (length_blobBytes count b)), ofNat_readLe_blobBytes hw]

theorem decodes_int {count n : ℕ} (h : n < 256 ^ count) :
    Decodes (readInt count) (leBytes count n) n := by
  have := (Decodes.take (leBytes count n) (by simp [leBytes] : _ = count)).map readLe
  rwa [readLe_leBytes, Nat.mod_eq_of_lt h] at this

theorem getEnum_eq {E : Type} {dict : List (Bytes × BtValue)} {values : List E}
    {key : String} {e : E} (hentry : entryAt dict key = .ok (btNat n)) (hbits : bits ≤ 64)
    (hn : n < 2 ^ bits) (he : values[n]? = some e) : getEnum dict bits values key = .ok e := by
  simp only [getEnum, hentry, bind, Except.bind, getInt_btNat hbits hn, he]

/-- The dictionary comes back in the order of its keys; its entries are looked up by key. -/
theorem deserializeVote_sorted {vote : MeshVote} (h : (AnyVote.obligation vote).Valid) :
    deserializeVote (serializeVote vote).sorted = .ok vote := by
  obtain ⟨⟨height, group, index, signature, subject⟩, version⟩ := vote
  obtain ⟨hversion, hheight, hgroup, hindex, worker, state, hworker, hsubject⟩ := h
  change subject = _ at hsubject
  subst hsubject
  obtain ⟨d, hd, hv, ht, hh, hg, hi, hs, hw, hc⟩ : ∃ d,
      (serializeVote ⟨⟨height, group, index, signature, .stateChange worker state⟩,
        version⟩).sorted = .dict d ∧ entryAt d "v" = .ok (btNat version) ∧
      entryAt d "t" = .ok (btNat 0) ∧ entryAt d "h" = .ok (btNat height) ∧
      entryAt d "g" = .ok (btNat (QuorumGroup.code group)) ∧ entryAt d "i" = .ok (btNat index) ∧
      entryAt d "s" = .ok (.string (blobBytes 64 signature)) ∧
      entryAt d "wi" = .ok (btNat worker) ∧ entryAt d "sc" = .ok (btNat state.toUInt16.toNat) :=
    ⟨_, rfl, rfl, rfl, rfl, rfl, rfl, rfl, rfl, rfl⟩
  have htype : getEnum d 8 [QuorumType.obligations, .checkpointing] "t" = .ok .obligations :=
    getEnum_eq ht (by norm_num) (by norm_num) rfl
  have hgroupRead : getEnum d 8 [QuorumGroup.invalid, .validator, .worker] "g" = .ok group :=
    getEnum_eq hg (by norm_num) (by cases group <;> decide) (by cases group <;> rfl)
  have hstate : getEnum d 16 [NewState.deregister, .decommission, .recommission,
      .ipChangePenalty] "sc" = .ok state :=
    getEnum_eq hc (by norm_num) state.toUInt16.toNat_lt (by cases state <;> rfl)
  change group ≠ .invalid at hgroup
  rw [hd]
  simp only [deserializeVote, deserializeSubject, hv, htype, hh, hgroupRead, hi, hs, hw, hstate,
    bind, Except.bind, pure, Except.pure, if_neg hgroup, getBlob_blobBytes,
    getInt_btNat (by norm_num : 8 ≤ 64) hversion, getInt_btNat le_rfl hheight,
    getInt_btNat (by norm_num : 16 ≤ 64) hindex, getInt_btNat (by norm_num : 16 ≤ 64) hworker]

theorem btGet_of_version (hc : c < 48) (bytes : Bytes) :
    btGet (c :: bytes) = .error (.invalid (.invalidValue c)) := by
  have hother : c ≠ 100 ∧ c ≠ 108 ∧ c ≠ 105 ∧ isDigit c = false := by grind [isDigit]
  simp [btGet, btDeserialize, hother, Except.map]

theorem tryDecodeObligationVote_of_version (hc : c < 48) (bytes : Bytes) :
    tryDecodeObligationVote (c :: bytes) = none := by
  simp [tryDecodeObligationVote, btGet_of_version hc]

section Fixed

variable {α : Type} {size : ℕ} {version : UInt8} {fields : Reader α}

theorem decodeFixed_of_head {blob : Bytes} (h : blob.head? ≠ some version) :
    decodeFixed size version fields blob = none := by
  simp [decodeFixed, h]

theorem decodeFixed_eq_some {blob : Bytes} {vote : α}
    (h : decodeFixed size version fields blob = some vote) :
    ∃ bytes rest, blob = version :: bytes ∧ blob.length = size ∧
      fields bytes = some (vote, rest) := by
  unfold decodeFixed at h
  split_ifs at h with hsize hhead
  obtain ⟨⟨_, rest⟩, hfields, rfl⟩ := Option.map_eq_some_iff.mp h
  refine ⟨_, rest, (cons_head?_tail (not_not.mp hhead)).symm, not_not.mp hsize, ?_⟩
  rwa [← drop_one]

theorem decodeFixed_cons {bytes : Bytes} {vote : α} (hsize : bytes.length + 1 = size)
    (h : Decodes fields bytes vote) :
    decodeFixed size version fields (version :: bytes) = some vote := by
  have hread := h []
  simp_all [decodeFixed]

theorem tryDecode_of_version (hc : c < 48) (decode : Bytes → Option α) (bytes : Bytes) :
    tryDecode decode (c :: bytes) = decode (c :: bytes) := by
  unfold tryDecode
  split
  · rw [‹decode _ = _›]
  · rw [btGet_of_version hc, ‹decode _ = _›, ite_self]

/-- The reader of the layout does not take the digits before a string for a version. -/
theorem tryDecode_string (hversion : version < 48) {s : Bytes} (hs : s.length < 2 ^ 64) :
    tryDecode (decodeFixed size version fields) (btSerialize (.string s)) =
      decodeFixed size version fields s := by
  have hget := btGet_btSerialize (.string hs)
  obtain ⟨c, hhead, hdigit⟩ := exists_head_toDecimal s.length ([58] ++ s)
  rw [← append_assoc] at hhead
  have hne : (btSerialize (.string s)).head? ≠ some version := by
    change (btString s).head? ≠ _
    rw [btString, hhead]
    grind [isDigit]
  have hnil : btSerialize (.string s) ≠ [] := ne_nil_of_length_pos (length_btSerialize_pos _)
  rw [tryDecode, decodeFixed_of_head hne, if_neg hnil, hget]
  rfl

theorem tryDecode_dict (hversion : version < 48) {entries : List (Bytes × BtValue)}
    (h : (BtValue.dict entries).Proper) :
    tryDecode (decodeFixed size version fields) (btSerialize (.dict entries)) = none := by
  have hget := btGet_btSerialize h
  have hne : (btSerialize (.dict entries)).head? ≠ some version := by
    rw [btSerialize, append_assoc, singleton_append, head?_cons]
    rintro ⟨⟩
    exact absurd hversion (by decide)
  rw [tryDecode, decodeFixed_of_head hne, hget, sorted_dict, ite_self]

end Fixed

theorem tryDecodeObligationVote_string {s : Bytes} (hs : s.length < 2 ^ 64) :
    tryDecodeObligationVote (btSerialize (.string s)) = none := by
  rw [tryDecodeObligationVote, btGet_btSerialize (.string hs)]
  exact ite_self _

theorem proper_serializeVote (vote : MeshVote) : (serializeVote vote).Proper := by
  obtain ⟨⟨_, _, _, signature, subject⟩, _⟩ := vote
  have hproper : ∀ p ∈ serializeSubject subject, p.2.Proper := by
    cases subject with
    | stateChange => simpa [serializeSubject] using ⟨.int _, .int _⟩
    | checkpoint => simpa [serializeSubject] using .string (by simp [length_blobBytes])
  rw [serializeVote]
  obtain ⟨names, hnames, hnodup, hshort⟩ : ∃ names,
      (serializeSubject subject).map Prod.fst = names ∧
      (["v", "t", "h", "g", "i", "s"].map asciiBytes ++ names).Nodup ∧
      ∀ key ∈ ["v", "t", "h", "g", "i", "s"].map asciiBytes ++ names, key.length < 2 ^ 64 := by
    cases subject with
    | stateChange => exact ⟨["wi", "sc"].map asciiBytes, rfl, by decide, by decide⟩
    | checkpoint => exact ⟨["bh"].map asciiBytes, rfl, by decide, by decide⟩
  refine .dict ?_ (fun p hp => hshort p.1 ?_) ?_
  · rw [map_append, hnames]
    exact hnodup
  · have hkey := mem_map_of_mem (f := Prod.fst) hp
    rwa [map_append, hnames] at hkey
  · simp only [cons_append, nil_append, forall_mem_cons]
    exact ⟨.int _, .int _, .int _, .int _, .int _, .string (by simp [length_blobBytes]), hproper⟩

theorem decodePulseVote_encodePulseVote {vote : Pulse.RelayVote} (h : (AnyVote.pulse vote).Valid) :
    decodePulseVote (encodePulseVote vote) = some vote := by
  refine decodeFixed_cons (by simp [length_blobBytes, leBytes]) ?_
  exact (decodes_int h.1).bind <| (decodes_int h.2.1).bind <| (decodes_int h.2.2.1).bind <|
    (decodes_int h.2.2.2).bind <| (decodes_key _).bind <| (decodes_key _).bind <|
      (decodes_signature _).bind (.pure vote)

theorem decodeBlinkVote_encodeBlinkVote {vote : Blink.RelayVote} (h : (AnyVote.blink vote).Valid) :
    decodeBlinkVote (encodeBlinkVote vote) = some vote := by
  refine decodeFixed_cons (by simp [length_blobBytes, leBytes]) ?_
  exact (decodes_int h.1).bind <| (decodes_key _).bind <| (decodes_int h.2).bind <|
    (decodes_key _).bind <| (decodes_signature _).bind (.pure vote)

/-- A payload of a relayed vote, as it is or wrapped, is for each of the readers what the layout
of that reader says. -/
theorem decodings_relayed (hc : c < 48) {bytes payload : Bytes}
    (hsize : (c :: bytes).length < 2 ^ 64)
    (h : payload ∈ [c :: bytes, btSerialize (.string (c :: bytes))]) :
    AnyVote.decodings payload = (decodePulseVote (c :: bytes)).toList.map .pulse ++
      (decodeBlinkVote (c :: bytes)).toList.map .blink := by
  have hpulse : tryDecodePulseVote payload = decodePulseVote (c :: bytes) ∧
      tryDecodeBlinkVote payload = decodeBlinkVote (c :: bytes) ∧
      tryDecodeObligationVote payload = none := by
    obtain rfl | rfl : payload = c :: bytes ∨ payload = btSerialize (.string (c :: bytes)) := by
      simpa using h
    · exact ⟨tryDecode_of_version hc _ bytes, tryDecode_of_version hc _ bytes,
        tryDecodeObligationVote_of_version hc bytes⟩
    · exact ⟨tryDecode_string (by decide) hsize, tryDecode_string (by decide) hsize,
        tryDecodeObligationVote_string hsize⟩
  simp [AnyVote.decodings, hpulse]

end ReadBack

/-- Whatever a valid vote is sent in is read as that vote, and as no other vote of any kind. -/
theorem mesh_votes_read_back (vote : { vote : AnyVote // vote.Valid }) :
    ∀ payload ∈ vote.1.encodings, AnyVote.decodings payload = [vote.1] := by
  obtain ⟨vote | vote | vote, h⟩ := vote
  · rintro payload (_ | ⟨_, ⟨⟩⟩)
    have hproper := proper_serializeVote vote
    have hne : btSerialize (serializeVote vote) ≠ [] :=
      List.ne_nil_of_length_pos (length_btSerialize_pos _)
    have htype : vote.subject.type = .obligations := by
      obtain ⟨-, -, -, -, _, _, -, hsubject⟩ := h
      rw [hsubject]
      rfl
    have hread : tryDecodeObligationVote (btSerialize (serializeVote vote)) = some vote := by
      simp [tryDecodeObligationVote, hne, btGet_btSerialize hproper, deserializeVote_sorted h,
        htype]
    rw [AnyVote.decodings, hread, tryDecodePulseVote, tryDecodeBlinkVote, decodePulseVote,
      decodeBlinkVote, serializeVote, tryDecode_dict (by decide) hproper,
      tryDecode_dict (by decide) hproper]
    rfl
  · intro payload hpayload
    have hblink : decodeBlinkVote (encodePulseVote vote) = none :=
      decodeFixed_of_head (by simp [encodePulseVote])
    rw [decodings_relayed (by decide) (by simp [length_blobBytes, leBytes]) hpayload]
    change (decodePulseVote (encodePulseVote vote)).toList.map _ ++
      (decodeBlinkVote (encodePulseVote vote)).toList.map _ = _
    rw [hblink, decodePulseVote_encodePulseVote h]
    rfl
  · intro payload hpayload
    have hpulse : decodePulseVote (encodeBlinkVote vote) = none :=
      decodeFixed_of_head (by simp [encodeBlinkVote])
    rw [decodings_relayed (by decide) (by simp [length_blobBytes, leBytes]) hpayload]
    change (decodePulseVote (encodeBlinkVote vote)).toList.map _ ++
      (decodeBlinkVote (encodeBlinkVote vote)).toList.map _ = _
    rw [hpulse, decodeBlinkVote_encodeBlinkVote h]
    rfl

/-- A vote of the third validator, as it is relayed. -/
theorem third_vote_read_back :
    let vote : Blink.RelayVote := ⟨1831366, 5, 3, 7, 11⟩
    AnyVote.decodings (encodeBlinkVote vote) = [.blink vote] :=
  mesh_votes_read_back ⟨.blink ⟨1831366, 5, 3, 7, 11⟩, by norm_num [AnyVote.Valid]⟩ _
    List.mem_cons_self

variable {count : ℕ} {input rest : Bytes}

theorem map_take_eq_some {α : Type} {f : Bytes → α} {a : α}
    (h : (f <$> ByteReader.take count) input = some (a, rest)) :
    ∃ bytes, bytes.length = count ∧ input = bytes ++ rest ∧ f bytes = a := by
  rw [map_eq_pure_bind, bind_apply, ByteReader.take] at h
  split_ifs at h with hlen
  · cases h
  obtain ⟨rfl, rfl⟩ := Prod.mk.inj (Option.some.inj h)
  exact ⟨_, length_take_of_le (not_lt.mp hlen), (take_append_drop count input).symm, rfl⟩

theorem leBytes_readLe {bytes : Bytes} (h : bytes.length = count) :
    leBytes count (readLe bytes) = bytes := by
  refine readLe_inj (by simp [h]) ?_
  rw [readLe_leBytes, Nat.mod_eq_of_lt (h ▸ readLe_lt bytes)]

theorem int_eq_some (h : readInt count input = some (n, rest)) :
    n < 256 ^ count ∧ input = leBytes count n ++ rest := by
  obtain ⟨bytes, hlen, rfl, rfl⟩ := map_take_eq_some h
  exact ⟨hlen ▸ readLe_lt bytes, by rw [leBytes_readLe hlen]⟩

theorem blob_eq_some {w : ℕ} {b : BitVec w} (hw : w = 8 * count)
    (h : readBlob w count input = some (b, rest)) : input = blobBytes count b ++ rest := by
  obtain ⟨bytes, hlen, rfl, rfl⟩ := map_take_eq_some h
  have hrev : bytes.reverse.length = count := by simpa using hlen
  have hlt : readLe bytes.reverse < 2 ^ w := by
    have := readLe_lt bytes.reverse
    rwa [hrev, show (256 : ℕ) = 2 ^ 8 by norm_num, ← pow_mul, ← hw] at this
  rw [blobBytes, BitVec.toNat_ofNat, Nat.mod_eq_of_lt hlt, leBytes_readLe hrev, reverse_reverse]

/-- A relayed vote has one raw layout: the decoders take what the encoders write, and no more. -/
theorem relayed_votes_canonical (blob : Bytes) : (∀ vote, decodePulseVote blob = some vote ↔
      (AnyVote.pulse vote).Valid ∧ blob = encodePulseVote vote) ∧
    ∀ vote, decodeBlinkVote blob = some vote ↔
      (AnyVote.blink vote).Valid ∧ blob = encodeBlinkVote vote := by
  refine ⟨fun vote => ⟨fun h => ?_, ?_⟩, fun vote => ⟨fun h => ?_, ?_⟩⟩
  · obtain ⟨_, rest, rfl, hsize, hfields⟩ := decodeFixed_eq_some h
    simp only [readPulseVote, bind_eq_some_iff] at hfields
    obtain ⟨_, _, h1, _, _, h2, _, _, h3, _, _, h4, _, _, h5, _, _, h6, _, _, h7, hpure⟩ := hfields
    cases hpure
    obtain ⟨hn1, rfl⟩ := int_eq_some h1
    obtain ⟨hn2, rfl⟩ := int_eq_some h2
    obtain ⟨hn3, rfl⟩ := int_eq_some h3
    obtain ⟨hn4, rfl⟩ := int_eq_some h4
    obtain rfl := blob_eq_some (by rfl) h5
    obtain rfl := blob_eq_some (by rfl) h6
    obtain rfl := blob_eq_some (by rfl) h7
    simp [length_blobBytes] at hsize
    obtain rfl := length_eq_zero_iff.mp (by omega : rest.length = 0)
    exact ⟨⟨hn1, hn2, hn3, hn4⟩, rfl⟩
  · rintro ⟨hvalid, rfl⟩
    exact decodePulseVote_encodePulseVote hvalid
  · obtain ⟨_, rest, rfl, hsize, hfields⟩ := decodeFixed_eq_some h
    simp only [readBlinkVote, bind_eq_some_iff] at hfields
    obtain ⟨_, _, h1, _, _, h2, _, _, h3, _, _, h4, _, _, h5, hpure⟩ := hfields
    cases hpure
    obtain ⟨hn1, rfl⟩ := int_eq_some h1
    obtain rfl := blob_eq_some (by rfl) h2
    obtain ⟨hn3, rfl⟩ := int_eq_some h3
    obtain rfl := blob_eq_some (by rfl) h4
    obtain rfl := blob_eq_some (by rfl) h5
    simp [length_blobBytes] at hsize
    obtain rfl := length_eq_zero_iff.mp (by omega : rest.length = 0)
    exact ⟨⟨hn1, hn3⟩, rfl⟩
  · rintro ⟨hvalid, rfl⟩
    exact decodeBlinkVote_encodeBlinkVote hvalid

end Arqma.Net
