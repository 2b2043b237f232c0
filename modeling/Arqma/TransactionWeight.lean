import Arqma.TxExtraBytes

/-!
# The weight of pruned and full transactions

The weight of a transaction is the size of its blob and, for proofs of several outputs, most of
what such a proof saves. A pruned transaction has lost the signatures and proofs, and their size is
predicted. The blobs are written as the archive writes them, so that the prediction is compared
with a number of bytes.
-/
namespace Arqma.Rct
open Arqma.Cryptonote Arqma.ByteReader List Option

variable {bytes : List UInt8} {p : RctSigPrunable} {type : RctType} {proof : Bulletproof}
  {outputs : ℕ}

abbrev Key := BitVec 256

section Data

structure EcdhTuple where
  mask : Key
  amount : Key

structure RangeSig where
  s0 : Fin 64 → Key
  s1 : Fin 64 → Key
  ee : Key
  ci : Fin 64 → Key

structure Bulletproof where
  A : Key
  S : Key
  T1 : Key
  T2 : Key
  taux : Key
  mu : Key
  L : List Key
  R : List Key
  a : Key
  b : Key
  t : Key

structure MgSig where
  ss : List (List Key)
  cc : Key

structure Clsag where
  s : List Key
  c1 : Key
  d : Key

structure RctSigPrunable where
  rangeSigs : List RangeSig := []
  bulletproofs : List Bulletproof := []
  mgs : List MgSig := []
  clsags : List Clsag := []
  pseudoOuts : List Key := []

structure RctSig where
  type : RctType
  txnFee : UInt64
  pseudoOuts : List Key := []
  ecdhInfo : List EcdhTuple
  outPk : List Key
  p : RctSigPrunable

structure TxinToKey where
  amount : UInt64
  keyOffsets : List UInt64
  keyImage : KeyImage

structure TxoutToKey where
  amount : UInt64
  key : PublicKey

/-- A transaction whose inputs and outputs are those of a transfer. -/
structure TransferTx where
  version : ℕ := 3
  txType : ℕ := 0
  outputUnlockTimes : List UInt64
  unlockTime : UInt64 := 0
  vin : List TxinToKey
  vout : List TxoutToKey
  extra : List UInt8 := []
  signatures : List (List Signature) := []
  rctSignatures : RctSig
  pruned : Bool := false

end Data

section Serialize

def RctType.toNat : RctType → ℕ
  | .null => 0
  | .full => 1
  | .simple => 2
  | .fullBulletproof => 3
  | .simpleBulletproof => 4
  | .bulletproof => 5
  | .bulletproof2 => 6
  | .clsag => 7

def keyBytes (k : Key) : List UInt8 := blobBytes 32 k

def uintBytes (n : UInt64) : List UInt8 := varintBytes n.toNat

/-- Keys without their number. -/
def keysBytes (ks : List Key) : List UInt8 := ks.flatMap keyBytes

def rangeSigBytes (sig : RangeSig) : List UInt8 :=
  keysBytes (List.ofFn sig.s0) ++ keysBytes (List.ofFn sig.s1) ++ keyBytes sig.ee ++
    keysBytes (List.ofFn sig.ci)

/-- Refused without halves, or with halves of different lengths. -/
def bulletproofBytes (proof : Bulletproof) : Option (List UInt8) :=
  if proof.L = [] ∨ proof.L.length ≠ proof.R.length then none
  else some (keysBytes [proof.A, proof.S, proof.T1, proof.T2, proof.taux, proof.mu] ++
    vectorBytes keyBytes proof.L ++ vectorBytes keyBytes proof.R ++
    keysBytes [proof.a, proof.b, proof.t])

/-- The scalars and two keys. For an empty ring the loop up to `mixin` would not end. -/
def clsagBytes (ringSize : ℕ) (sig : Clsag) : Option (List UInt8) :=
  if ringSize = 0 ∨ sig.s.length ≠ ringSize then none
  else some (keysBytes sig.s ++ keyBytes sig.c1 ++ keyBytes sig.d)

def mgBytes (ringSize columns : ℕ) (sig : MgSig) : Option (List UInt8) :=
  if sig.ss.length ≠ ringSize ∨ ∃ row ∈ sig.ss, row.length ≠ columns then none
  else some (sig.ss.flatMap keysBytes ++ keyBytes sig.cc)

/-- Elements one after the other, if their number is right. -/
def arrayBytes {α : Type} (count : ℕ) (write : α → Option (List UInt8)) (l : List α) :
    Option (List UInt8) :=
  if l.length ≠ count then none else (l.mapM write).map List.flatten

def nBulletproofMaxAmountsOf (proof : Bulletproof) : ℕ :=
  if proof.L.length < 6 ∨ proof.L.length ≠ proof.R.length ∨ 6 + 4 < proof.L.length then 0
  else 2 ^ (proof.L.length - 6)

/-- The sum, or zero if a proof has none. -/
def nBulletproofMaxAmounts : ℕ → List Bulletproof → ℕ
  | n, [] => n
  | n, proof :: proofs =>
    let n2 := nBulletproofMaxAmountsOf proof
    if 2 ^ 32 - 1 - n ≤ n2 ∨ n2 = 0 then 0 else nBulletproofMaxAmounts (n + n2) proofs

def serializeRctsigBase (sig : RctSig) (inputs outputs : ℕ) : Option (List UInt8) :=
  if sig.type = .null then some [0]
  else do
    let pseudoOuts ←
      if sig.type = .simple then arrayBytes inputs (fun k => some (keyBytes k)) sig.pseudoOuts
      else some []
    let ecdhInfo ← arrayBytes outputs (fun tuple =>
      if sig.type = .bulletproof2 ∨ sig.type = .clsag then some ((keyBytes tuple.amount).take 8)
      else some (keysBytes [tuple.mask, tuple.amount])) sig.ecdhInfo
    let outPk ← arrayBytes outputs (fun k => some (keyBytes k)) sig.outPk
    some ([(RctType.toNat sig.type).toUInt8] ++ uintBytes sig.txnFee ++ pseudoOuts ++ ecdhInfo ++
      outPk)

def serializeRangeProofs (p : RctSigPrunable) (type : RctType) (outputs : ℕ) :
    Option (List UInt8) :=
  match type with
  | .simpleBulletproof | .fullBulletproof => arrayBytes outputs bulletproofBytes p.bulletproofs
  | .bulletproof | .bulletproof2 | .clsag => do
    let count := p.bulletproofs.length
    if outputs < count then none
    else
      let proofs ← arrayBytes count bulletproofBytes p.bulletproofs
      if nBulletproofMaxAmounts 0 p.bulletproofs < outputs then none
      else some ((if type = .bulletproof then leBytes 4 count else varintBytes count) ++ proofs)
  | _ => arrayBytes outputs (fun sig => some (rangeSigBytes sig)) p.rangeSigs

/-- One signature with one column of keys for each input, or one for all of them. -/
def serializeRings (p : RctSigPrunable) (type : RctType) (inputs ringSize : ℕ) :
    Option (List UInt8) :=
  match type with
  | .clsag => arrayBytes inputs (clsagBytes ringSize) p.clsags
  | .simple | .simpleBulletproof | .bulletproof | .bulletproof2 =>
    arrayBytes inputs (mgBytes ringSize 2) p.mgs
  | _ => arrayBytes 1 (mgBytes ringSize (inputs + 1)) p.mgs

def serializeRctsigPrunable (p : RctSigPrunable) (type : RctType) (inputs outputs ringSize : ℕ) :
    Option (List UInt8) :=
  if type = .null then some []
  else do
    let proofs ← serializeRangeProofs p type outputs
    let rings ← serializeRings p type inputs ringSize
    let pseudoOuts ←
      match type with
      | .bulletproof | .simpleBulletproof | .bulletproof2 | .clsag =>
        arrayBytes inputs (fun k => some (keyBytes k)) p.pseudoOuts
      | _ => some []
    some (proofs ++ rings ++ pseudoOuts)

def txinBytes (input : TxinToKey) : List UInt8 :=
  [0x02] ++ uintBytes input.amount ++ vectorBytes uintBytes input.keyOffsets ++
    keyBytes input.keyImage

def txoutBytes (out : TxoutToKey) : List UInt8 :=
  uintBytes out.amount ++ [0x02] ++ keyBytes out.key

def serializePrefixFields (tx : TransferTx) : Option (List UInt8) :=
  if 3 ≤ tx.version ∧ tx.vout.length ≠ tx.outputUnlockTimes.length then none
  else some (varintBytes tx.version ++
    (if 3 ≤ tx.version then varintBytes tx.txType ++ vectorBytes uintBytes tx.outputUnlockTimes
      else []) ++
    uintBytes tx.unlockTime ++ vectorBytes txinBytes tx.vin ++ vectorBytes txoutBytes tx.vout ++
    vectorBytes (fun b => [b]) tx.extra)

/-- The ring of the first input. -/
def TransferTx.ringSize (tx : TransferTx) : ℕ :=
  (tx.vin.head?.map fun input => input.keyOffsets.length).getD 1

/-- The signatures of a transaction of version 1: none at all, or one for each key of a ring. -/
def serializeSignatures (tx : TransferTx) : Option (List UInt8) :=
  if tx.signatures = [] then
    if tx.pruned ∨ ∀ input ∈ tx.vin, input.keyOffsets = [] then some [] else none
  else if tx.vin.length ≠ tx.signatures.length then none
  else if tx.pruned then some []
  else arrayBytes tx.vin.length (fun (input, sigs) =>
    arrayBytes input.keyOffsets.length (fun sig => some (blobBytes 64 sig)) sigs)
      (tx.vin.zip tx.signatures)

def serializePrunable (tx : TransferTx) : Option (List UInt8) :=
  if tx.pruned then some []
  else serializeRctsigPrunable tx.rctSignatures.p tx.rctSignatures.type tx.vin.length
    tx.vout.length tx.ringSize

def serializeTransaction (tx : TransferTx) : Option (List UInt8) := do
  let front ← serializePrefixFields tx
  if tx.version = 1 then
    let signatures ← serializeSignatures tx
    some (front ++ signatures)
  else if tx.vin = [] then some front
  else
    let base ← serializeRctsigBase tx.rctSignatures tx.vin.length tx.vout.length
    let prunable ← serializePrunable tx
    some (front ++ base ++ prunable)

/-- What is left of a transaction without its signatures and proofs. -/
def TransferTx.prune (tx : TransferTx) : TransferTx :=
  { tx with pruned := true, rctSignatures := { tx.rctSignatures with p := {} } }

end Serialize

section Weight

def bulletproofMaxOutputs : ℕ := 16

/-- The smallest exponent from `nlr` on, with a bound on the number of bits. -/
def padLoop (outputs : ℕ) : ℕ → ℕ → ℕ
  | 0, nlr => nlr
  | fuel + 1, nlr => if 2 ^ nlr < outputs then padLoop outputs fuel (nlr + 1) else nlr

def paddedExponent (outputs : ℕ) : ℕ := padLoop outputs 32 0

/-- None where the source throws. -/
def getTransactionWeightClawback (outputs paddedOutputs : ℕ) : Option ℕ :=
  let bpBase := 368
  if paddedOutputs ≤ 2 then some 0
  else
    let nlr := paddedExponent paddedOutputs + 6
    let bpSize := 32 * (9 + 2 * nlr)
    if bulletproofMaxOutputs < outputs then none
    else if bpBase * paddedOutputs < bpSize then none
    else some ((bpBase * paddedOutputs - bpSize) * 4 / 5)

def maxWeight : ℕ := 2 ^ 64 - 1

def withClawback (outputs paddedOutputs size : ℕ) : Option ℕ := do
  let bpClawback ← getTransactionWeightClawback outputs paddedOutputs
  if maxWeight - size < bpClawback then none else some (size + bpClawback)

def getTransactionWeight (tx : TransferTx) (blobSize : ℕ) : Option ℕ :=
  if tx.pruned then some maxWeight
  else if tx.version < 2 then some blobSize
  else if tx.rctSignatures.type ≠ .bulletproof ∧ tx.rctSignatures.type ≠ .bulletproof2 then
    some blobSize
  else withClawback tx.vout.length (nBulletproofMaxAmounts 0 tx.rctSignatures.p.bulletproofs)
    blobSize

def getPrunedTransactionWeight (tx : TransferTx) : Option ℕ :=
  if !tx.pruned then some maxWeight
  else if tx.version < 2 then some maxWeight
  else if RctType.toNat tx.rctSignatures.type < 6 then some maxWeight
  else
    match tx.vin with
    | [] => some maxWeight
    | first :: _ =>
      -- what was written before a failure is not modelled: such a transaction has no blob
      let size := (serializeTransaction tx).elim 0 List.length
      let exponent := paddedExponent tx.vout.length
      let proofs := 32 * (9 + 2 * (exponent + 6)) + 2
      let ringSize := first.keyOffsets.length
      let rings :=
        if tx.rctSignatures.type = .clsag then tx.vin.length * (ringSize + 2) * 32
        else tx.vin.length * (ringSize * (1 + 1) * 32 + 32)
      withClawback tx.vout.length (2 ^ exponent)
        (size + 1 + proofs + rings + 32 * tx.vin.length)

end Weight

section Lengths

theorem length_keyBytes (k : Key) : (keyBytes k).length = 32 := length_blobBytes 32 k

theorem length_flatMap_const {α : Type} {write : α → List UInt8} {size : ℕ} {l : List α}
    (h : ∀ a ∈ l, (write a).length = size) : (l.flatMap write).length = l.length * size := by
  rw [length_flatMap, map_congr_left h, map_const', sum_replicate, smul_eq_mul]

theorem length_keysBytes (ks : List Key) : (keysBytes ks).length = ks.length * 32 :=
  length_flatMap_const fun k _ => length_keyBytes k

theorem length_varintBytes_one {n : ℕ} (h : n < 128) : (varintBytes n).length = 1 := by
  rw [varintBytes, writeVarint, if_pos h]
  rfl

/-- Elements of one size. -/
theorem length_arrayBytes {α : Type} {count size : ℕ} {write : α → Option (List UInt8)} {l : List α}
    (h : arrayBytes count write l = some bytes)
    (hwrite : ∀ a ∈ l, ∀ part, write a = some part → part.length = size) :
    bytes.length = count * size := by
  unfold arrayBytes at h
  split_ifs at h with hcount
  obtain ⟨parts, hparts, rfl⟩ := map_eq_some_iff.mp h
  rw [← not_not.mp hcount, length_flatten]
  clear h hcount
  induction l generalizing parts with
  | nil =>
    obtain rfl := some.inj hparts
    simp
  | cons a l ih =>
    rw [mapM_cons] at hparts
    obtain ⟨part, hpart, hparts⟩ := bind_eq_some_iff.mp hparts
    obtain ⟨rest, hrest, hparts⟩ := bind_eq_some_iff.mp hparts
    grind

theorem length_clsagBytes {ringSize : ℕ} {sig : Clsag} (h : clsagBytes ringSize sig = some bytes) :
    bytes.length = (ringSize + 2) * 32 := by
  unfold clsagBytes at h
  grind [length_keysBytes, length_keyBytes]

theorem length_mgBytes {ringSize columns : ℕ} {sig : MgSig}
    (h : mgBytes ringSize columns sig = some bytes) :
    bytes.length = ringSize * columns * 32 + 32 := by
  unfold mgBytes at h
  split_ifs at h with hring
  obtain rfl := some.inj h
  simp only [not_or, not_not, not_exists, not_and] at hring
  obtain ⟨hrows, hcolumns⟩ := hring
  have hss : (sig.ss.flatMap keysBytes).length = sig.ss.length * (columns * 32) :=
    length_flatMap_const fun row hrow => by rw [length_keysBytes, hcolumns row hrow]
  rw [length_append, hss, hrows, length_keyBytes]
  ring

/-- Nine keys and two vectors of keys. -/
theorem length_bulletproofBytes (h : bulletproofBytes proof = some bytes)
    (hsmall : proof.L.length < 128) :
    bytes.length = 32 * (9 + 2 * proof.L.length) + 2 := by
  unfold bulletproofBytes at h
  split_ifs at h with hhalves
  obtain rfl := some.inj h
  rw [not_or, not_not] at hhalves
  have hL : (proof.L.flatMap keyBytes).length = proof.L.length * 32 := length_keysBytes proof.L
  have hR : (proof.R.flatMap keyBytes).length = proof.R.length * 32 := length_keysBytes proof.R
  grind [vectorBytes, length_keysBytes, length_varintBytes_one, length_cons]

end Lengths

section Padding

/-- The exponent of the number of outputs that a proof is padded to. -/
theorem paddedExponent_spec (h : outputs ≤ bulletproofMaxOutputs) :
    paddedExponent outputs ≤ 4 ∧ (outputs ≤ 2 ↔ paddedExponent outputs ≤ 1) := by
  have hall : ∀ n ≤ 16, paddedExponent n ≤ 4 ∧ (n ≤ 2 ↔ paddedExponent n ≤ 1) := by decide
  exact hall outputs h

/-- What the clawback is for a padded number of outputs. -/
theorem getTransactionWeightClawback_spec {outputs exponent : ℕ}
    (houtputs : outputs ≤ bulletproofMaxOutputs) (h : exponent ≤ 4) :
    ∃ clawback, getTransactionWeightClawback outputs (2 ^ exponent) = some clawback ∧
      (clawback = 0 ↔ exponent ≤ 1) := by
  have hnot : ¬bulletproofMaxOutputs < outputs := not_lt.mpr houtputs
  have hexponent : ∀ e ≤ 4, paddedExponent (2 ^ e) = e := by decide
  unfold getTransactionWeightClawback
  dsimp only
  rw [hexponent exponent h, if_neg hnot]
  interval_cases exponent <;> simp

theorem nBulletproofMaxAmounts_single {exponent : ℕ}
    (hL : proof.L.length = exponent + 6) (hR : proof.L.length = proof.R.length) (h : exponent ≤ 4) :
    nBulletproofMaxAmounts 0 [proof] = 2 ^ exponent := by
  have hof : nBulletproofMaxAmountsOf proof = 2 ^ exponent := by
    rw [nBulletproofMaxAmountsOf, if_neg (by omega), hL, Nat.add_sub_cancel]
  have hle : 2 ^ exponent ≤ 2 ^ 4 := Nat.pow_le_pow_right (by norm_num) h
  have hpos : 0 < 2 ^ exponent := Nat.two_pow_pos exponent
  rw [nBulletproofMaxAmounts, hof, if_neg (by omega), nBulletproofMaxAmounts, Nat.zero_add]

end Padding

section Comparison

variable {tx : TransferTx} {proof : Bulletproof} {blob : List UInt8}

/-- The types whose pruned weight is predicted. -/
def Predicted (type : RctType) : Prop := type = .bulletproof2 ∨ type = .clsag

/-- The predicted size of the signatures. -/
def ringsSize (type : RctType) (inputs ringSize : ℕ) : ℕ :=
  if type = .clsag then inputs * (ringSize + 2) * 32
  else inputs * (ringSize * (1 + 1) * 32 + 32)

theorem length_serializeRings (htype : Predicted type) {inputs ringSize : ℕ}
    (h : serializeRings p type inputs ringSize = some bytes) :
    bytes.length = ringsSize type inputs ringSize := by
  obtain rfl | rfl := htype
  · rw [length_arrayBytes h fun sig _ part hpart => length_mgBytes hpart]
    rfl
  · rw [length_arrayBytes h fun sig _ part hpart => length_clsagBytes hpart, ringsSize, if_pos rfl,
      Nat.mul_assoc]

theorem length_serializeRangeProofs (htype : Predicted type)
    (hproof : p.bulletproofs = [proof]) (hsmall : proof.L.length < 128)
    (h : serializeRangeProofs p type outputs = some bytes) :
    bytes.length = 1 + (32 * (9 + 2 * proof.L.length) + 2) ∧ proof.L.length = proof.R.length := by
  have hwrite : ∃ proofs, arrayBytes 1 bulletproofBytes [proof] = some proofs ∧
      bytes = varintBytes 1 ++ proofs := by
    obtain rfl | rfl := htype <;>
    · unfold serializeRangeProofs at h
      simp only [hproof, length_singleton, reduceCtorEq, if_false] at h
      split_ifs at h
      · obtain ⟨proofs, -, h⟩ := bind_eq_some_iff.mp h
        cases h
      · obtain ⟨proofs, hproofs, h⟩ := bind_eq_some_iff.mp h
        exact ⟨proofs, hproofs, (some.inj h).symm⟩
  obtain ⟨proofs, hproofs, rfl⟩ := hwrite
  have hlength : proofs.length = 1 * (32 * (9 + 2 * proof.L.length) + 2) :=
    length_arrayBytes hproofs fun other hother part hpart => by
      rw [mem_singleton.mp hother] at hpart
      exact length_bulletproofBytes hpart hsmall
  grind [length_varintBytes_one, arrayBytes, bulletproofBytes]

theorem length_serializeRctsigPrunable (htype : Predicted type)
    {inputs outputs ringSize : ℕ} (hproof : p.bulletproofs = [proof])
    (hsmall : proof.L.length < 128)
    (h : serializeRctsigPrunable p type inputs outputs ringSize = some bytes) :
    bytes.length = 1 + (32 * (9 + 2 * proof.L.length) + 2) + ringsSize type inputs ringSize +
        32 * inputs ∧
      proof.L.length = proof.R.length := by
  have hsplit : ∃ proofs rings pseudoOuts, serializeRangeProofs p type outputs = some proofs ∧
      serializeRings p type inputs ringSize = some rings ∧
      arrayBytes inputs (fun k => some (keyBytes k)) p.pseudoOuts = some pseudoOuts ∧
      bytes = proofs ++ rings ++ pseudoOuts := by
    obtain rfl | rfl := htype <;>
    · unfold serializeRctsigPrunable at h
      rw [if_neg (by decide)] at h
      obtain ⟨proofs, hproofs, h⟩ := bind_eq_some_iff.mp h
      obtain ⟨rings, hrings, h⟩ := bind_eq_some_iff.mp h
      obtain ⟨pseudoOuts, hpseudo, h⟩ := bind_eq_some_iff.mp h
      exact ⟨proofs, rings, pseudoOuts, hproofs, hrings, hpseudo, (some.inj h).symm⟩
  obtain ⟨proofs, rings, pseudoOuts, hproofs, hrings, hpseudo, rfl⟩ := hsplit
  obtain ⟨hlength, hhalves⟩ := length_serializeRangeProofs htype hproof hsmall hproofs
  have hkeys : pseudoOuts.length = inputs * 32 := length_arrayBytes hpseudo fun k _ part hpart => by
      rw [← some.inj hpart]
      exact length_keyBytes k
  refine ⟨?_, hhalves⟩
  rw [length_append, length_append, hlength, length_serializeRings htype hrings, hkeys,
    Nat.mul_comm inputs]

/-- A blob is that of the pruned form and the prunable part. -/
theorem serializeTransaction_split (hversion : 2 ≤ tx.version) (hvin : tx.vin ≠ [])
    (hfull : tx.pruned = false) (h : serializeTransaction tx = some blob) :
    ∃ front prunable, serializeTransaction tx.prune = some front ∧
      serializeRctsigPrunable tx.rctSignatures.p tx.rctSignatures.type tx.vin.length
        tx.vout.length tx.ringSize = some prunable ∧
      blob = front ++ prunable := by
  unfold serializeTransaction at h
  obtain ⟨front, hfront, h⟩ := bind_eq_some_iff.mp h
  rw [if_neg (by omega), if_neg hvin] at h
  obtain ⟨base, hbase, h⟩ := bind_eq_some_iff.mp h
  obtain ⟨prunable, hprunable, h⟩ := bind_eq_some_iff.mp h
  rw [serializePrunable, hfull] at hprunable
  refine ⟨front ++ base, prunable, ?_, hprunable, (some.inj h).symm⟩
  have hfront' : serializePrefixFields tx.prune = some front := hfront
  have hbase' : serializeRctsigBase tx.prune.rctSignatures tx.prune.vin.length
      tx.prune.vout.length = some base := hbase
  have hversion' : ¬tx.prune.version = 1 := by
    show ¬tx.version = 1
    omega
  grind [TransferTx.prune, serializeTransaction, serializePrunable]

/-- The weight of the pruned form is the clawback on top of the size of the blob. -/
theorem getPrunedTransactionWeight_prune (htype : Predicted tx.rctSignatures.type)
    (hversion : 2 ≤ tx.version) (hfull : tx.pruned = false) (hvin : tx.vin ≠ [])
    (hproof : tx.rctSignatures.p.bulletproofs = [proof])
    (hcanonical : proof.L.length = paddedExponent tx.vout.length + 6)
    (hsmall : proof.L.length < 128) (hblob : serializeTransaction tx = some blob) :
    getPrunedTransactionWeight tx.prune =
      withClawback tx.vout.length (2 ^ paddedExponent tx.vout.length) blob.length := by
  obtain ⟨front, prunable, hpruned, hprunable, rfl⟩ :=
    serializeTransaction_split hversion hvin hfull hblob
  obtain ⟨hlength, -⟩ := length_serializeRctsigPrunable htype hproof hsmall hprunable
  obtain ⟨first, rest, hcons⟩ := exists_cons_of_ne_nil hvin
  have hring : tx.ringSize = first.keyOffsets.length := by
    rw [TransferTx.ringSize, hcons]
    rfl
  have hpredicted : ¬RctType.toNat tx.prune.rctSignatures.type < 6 := by
    show ¬RctType.toNat tx.rctSignatures.type < 6
    obtain h | h := htype <;> rw [h] <;> decide
  have hversion' : ¬tx.prune.version < 2 := not_lt.mpr hversion
  have hvin' : tx.prune.vin = first :: rest := hcons
  have hnotPruned : ¬(!tx.prune.pruned) = true := by simp [TransferTx.prune]
  unfold getPrunedTransactionWeight
  rw [if_neg hnotPruned, if_neg hversion', if_neg hpredicted, hvin']
  dsimp only
  rw [hpruned, ← hvin']
  show withClawback tx.vout.length _ (front.length + 1 + _ +
    ringsSize tx.rctSignatures.type tx.vin.length first.keyOffsets.length + 32 * tx.vin.length) = _
  rw [length_append, hlength, hring, hcanonical]
  congr 1
  show _ = _
  simp only [TransferTx.prune]
  ring

/-- Both weights are the same exactly for the older of the two types, and for the other if there
are at most two outputs: the full form of that type gets no clawback. -/
theorem pruned_weight_eq_iff (tx : TransferTx) (proof : Bulletproof) (blob : List UInt8)
    (htype : tx.rctSignatures.type = .bulletproof2 ∨ tx.rctSignatures.type = .clsag)
    (hversion : 2 ≤ tx.version) (hfull : tx.pruned = false) (hvin : tx.vin ≠ [])
    (houtputs : tx.vout.length ≤ bulletproofMaxOutputs)
    (hproof : tx.rctSignatures.p.bulletproofs = [proof])
    (hcanonical : proof.L.length = paddedExponent tx.vout.length + 6)
    (hblob : serializeTransaction tx = some blob) :
    getPrunedTransactionWeight tx.prune = getTransactionWeight tx blob.length ↔
      tx.rctSignatures.type = .bulletproof2 ∨ tx.vout.length ≤ 2 := by
  obtain ⟨hexponent, htwo⟩ := paddedExponent_spec houtputs
  have hsmall : proof.L.length < 128 := by omega
  obtain ⟨front, prunable, -, hprunable, -⟩ :=
    serializeTransaction_split hversion hvin hfull hblob
  obtain ⟨-, hhalves⟩ := length_serializeRctsigPrunable htype hproof hsmall hprunable
  have hamounts := nBulletproofMaxAmounts_single hcanonical hhalves hexponent
  obtain ⟨clawback, hclawback, hzero⟩ := getTransactionWeightClawback_spec houtputs hexponent
  rw [getPrunedTransactionWeight_prune htype hversion hfull hvin hproof hcanonical hsmall hblob]
  unfold getTransactionWeight
  grind [withClawback]

end Comparison

section Sample

/-- A transaction of a type with one input, a ring of one and some outputs. -/
def sampleTransfer (type : RctType) (outputs : ℕ) : TransferTx where
  outputUnlockTimes := List.replicate outputs 0
  vin := [⟨0, [1], 1⟩]
  vout := List.replicate outputs ⟨0, 1⟩
  rctSignatures :=
    { type
      txnFee := 1
      ecdhInfo := List.replicate outputs ⟨0, 0⟩
      outPk := List.replicate outputs 1
      p :=
        { bulletproofs :=
            [⟨1, 1, 1, 1, 1, 1, List.replicate (paddedExponent outputs + 6) 1,
              List.replicate (paddedExponent outputs + 6) 1, 1, 1, 1⟩]
          mgs := [⟨[[1, 1]], 1⟩]
          clsags := [⟨[1], 1, 1⟩]
          pseudoOuts := [1] } }

/-- Three outputs with the older type. -/
theorem three_outputs_same_weight :
    getPrunedTransactionWeight (sampleTransfer .bulletproof2 3).prune =
      getTransactionWeight (sampleTransfer .bulletproof2 3) 1201 := by
  have hsize : (serializeTransaction (sampleTransfer .bulletproof2 3)).map List.length =
      some 1201 := by decide +kernel
  obtain ⟨blob, hblob, hlength⟩ := Option.map_eq_some_iff.mp hsize
  rw [← hlength]
  exact (pruned_weight_eq_iff (sampleTransfer .bulletproof2 3) _ blob (.inl rfl) (by decide) rfl
    (cons_ne_nil _ _) (by decide) rfl rfl hblob).mpr (.inl rfl)

/-- Three outputs with the newer type: the pruned form is heavier by the clawback. -/
theorem three_outputs_clsag_weight :
    (serializeTransaction (sampleTransfer .clsag 3)).map (fun blob =>
      (getTransactionWeight (sampleTransfer .clsag 3) blob.length,
        getPrunedTransactionWeight (sampleTransfer .clsag 3).prune)) =
      some (some 1201, some 1738) := by
  decide +kernel

end Sample

end Arqma.Rct
