import Arqma.Coinbase
import Arqma.TxPool

/-!
# Filling a block template

`fill_block_template` goes through the pool in the order of the sorted container and takes every
transaction that fits, does not lower the reward, is ready and spends nothing that was taken
before. Weights and amounts are 64-bit numbers, and the largest weight is a difference that wraps
around for a small median.
-/
namespace Arqma.TxPool
open Arqma.Cryptonote List

variable {txd : TemplateMeta} {tx : Transaction} {vin : List TxIn} {kImages : Finset KeyImage}

/-- The fields of `txpool_tx_meta_t` that decide whether a transaction is taken. -/
structure TemplateMeta where
  weight : UInt64
  fee : UInt64
  maxUsedBlockId : Hash := 0
  maxUsedBlockHeight : ℕ := 0
  lastFailedHeight : ℕ := 0
  lastFailedId : Hash := 0
  doubleSpendSeen : Bool := false
deriving DecidableEq

/-- The chain and the blobs of the pool. `checkInputs` stands for the checks of rings and
signatures and the highest block they refer to. -/
structure SelectionEnv where
  parseTx : Hash → Option Transaction
  hardForkVersion : ℕ
  currentHeight : ℕ
  blockIdByHeight : ℕ → Hash
  keyImageSpent : KeyImage → Bool
  checkInputs : Transaction → ℕ × Bool
  /-- Whether the database takes an update of an entry. -/
  canUpdate : Hash → Bool := fun _ => true

section Ready

variable (env : SelectionEnv)

/-- From version 7 on the key images have to be in descending order. -/
def inputsSorted : Option KeyImage → List TxIn → Bool
  | _, [] => true
  | last, .toKey _ _ image :: rest =>
    if last.any fun l => l ≤ image then false else inputsSorted (some image) rest
  | last, _ :: rest => inputsSorted last rest

/-- The height of the highest block and the verdict. The results that the pool keeps for a
transaction until the chain changes are not modelled. -/
def checkTxInputs (tx : Transaction) : ℕ × Bool :=
  if tx.isTransfer then
    if 7 ≤ env.hardForkVersion ∧ !inputsSorted none tx.vin then (0, false) else env.checkInputs tx
  else if tx.vin ≠ [] then (0, false)
  else env.checkInputs tx

/-- An input of another kind counts as spent. -/
def haveTxKeyimgesInChain (tx : Transaction) : Bool :=
  tx.vin.any fun
    | .toKey _ _ image => env.keyImageSpent image
    | _ => true

/-- The checks once it is settled that they are made. Nothing is returned for a blob that cannot
be parsed. -/
def recheckTransaction (id : Hash) (txd : TemplateMeta) : TemplateMeta × Option Transaction :=
  match env.parseTx id with
  | none => (txd, none)
  | some tx =>
    let (height, ok) := checkTxInputs env tx
    let txd := { txd with maxUsedBlockHeight := height }
    if !ok ∨ env.currentHeight ≤ height then
      let failed := env.currentHeight - 1
      ({ txd with lastFailedHeight := failed, lastFailedId := env.blockIdByHeight failed }, none)
    else
      let txd := { txd with maxUsedBlockId := env.blockIdByHeight height }
      if haveTxKeyimgesInChain env tx then ({ txd with doubleSpendSeen := true }, none)
      else (txd, some tx)

/-- The transaction if it is ready, and the new entry. -/
def isTransactionReadyToGo (id : Hash) (txd : TemplateMeta) : TemplateMeta × Option Transaction :=
  if txd.maxUsedBlockId = 0 then
    if txd.lastFailedId ≠ 0 ∧ txd.lastFailedHeight < env.currentHeight ∧
        txd.lastFailedId = env.blockIdByHeight txd.lastFailedHeight then (txd, none)
    else recheckTransaction env id txd
  else if env.currentHeight ≤ txd.maxUsedBlockHeight then (txd, none)
  else if txd.lastFailedId = env.blockIdByHeight txd.lastFailedHeight then (txd, none)
  else recheckTransaction env id txd

end Ready

section Images

/-- Stops at an input of another kind. -/
def haveKeyImages (kImages : Finset KeyImage) : List TxIn → Bool
  | [] => false
  | .toKey _ _ image :: rest => if image ∈ kImages then true else haveKeyImages kImages rest
  | _ :: _ => false

/-- Stops at an input of another kind and at an image that is there already. -/
def appendKeyImages (kImages : Finset KeyImage) : List TxIn → Finset KeyImage
  | [] => kImages
  | .toKey _ _ image :: rest =>
    if image ∈ kImages then kImages else appendKeyImages (insert image kImages) rest
  | _ :: _ => kImages

end Images

section Fill

/-- The arguments of a call. -/
structure FillCall where
  coinbase : CoinbaseEnv
  medianWeight : UInt64
  alreadyGeneratedCoins : UInt64
  version : ℕ
  height : ℕ

def coinbaseBlobReservedSize : UInt64 := 600

def FillCall.maxTotalWeight (call : FillCall) : UInt64 :=
  2 * call.medianWeight - coinbaseBlobReservedSize

/-- The reward of the miner without fees, if there is one for the weight. -/
def FillCall.baseMiner (call : FillCall) (weight : UInt64) : Option UInt64 :=
  (getArqmaBlockReward call.coinbase call.medianWeight.toNat weight.toNat
    call.alreadyGeneratedCoins call.version { height := call.height, fee := 0 }).map
      BlockRewardParts.baseMiner

def templateAcceptThreshold (amount : UInt64) : UInt64 := amount

/-- The template so far and the entries of the pool. -/
structure Selection where
  txHashes : List Hash := []
  totalWeight : UInt64 := 0
  fee : UInt64 := 0
  bestCoinbase : UInt64
  kImages : Finset KeyImage := ∅
  metas : Hash → Option TemplateMeta

variable (env : SelectionEnv) (call : FillCall)

/-- The new entry is written if it differs. -/
def Selection.update (s : Selection) (id : Hash) (old new : TemplateMeta) : Selection :=
  if old ≠ new ∧ env.canUpdate id then { s with metas := Function.update s.metas id (some new) }
  else s

def Selection.add (s : Selection) (id : Hash) (txd : TemplateMeta) (coinbase : UInt64)
    (tx : Transaction) : Selection :=
  { s with
    txHashes := s.txHashes ++ [id]
    totalWeight := s.totalWeight + txd.weight
    fee := s.fee + txd.fee
    bestCoinbase := coinbase
    kImages := appendKeyImages s.kImages tx.vin }

/-- One entry of the sorted container. -/
def Selection.consider (s : Selection) (id : Hash) : Selection :=
  match s.metas id with
  | none => s
  | some txd =>
    if call.maxTotalWeight < s.totalWeight + txd.weight then s
    else
      match call.baseMiner (s.totalWeight + txd.weight) with
      | none => s
      | some blockReward =>
        let coinbase := blockReward + s.fee + txd.fee
        if coinbase < templateAcceptThreshold s.bestCoinbase then s
        else
          let (new, ready) := isTransactionReadyToGo env id txd
          let updated := s.update env id txd new
          match ready with
          | none => updated
          | some tx =>
            if haveKeyImages s.kImages tx.vin then updated
            else updated.add id new coinbase tx

/-- The result of the first computation of the reward is not looked at, and it is zero then. -/
def Selection.start (metas : Hash → Option TemplateMeta) : Selection where
  bestCoinbase := (call.baseMiner 0).getD 0
  metas

/-- With the order of the pool. The reward to expect is the last coinbase. -/
def fillBlockTemplate (metas : Hash → Option TemplateMeta) (sorted : List Hash) : Selection :=
  sorted.foldl (Selection.consider env call) (Selection.start call metas)

end Fill

section ReadyLemmas

variable {env : SelectionEnv}

/-- What makes a transaction ready, whatever its entry says. -/
structure Ready (env : SelectionEnv) (id : Hash) (tx : Transaction) : Prop where
  parsed : env.parseTx id = some tx
  inputs : (checkTxInputs env tx).2 = true
  used : (checkTxInputs env tx).1 < env.currentHeight
  unspent : haveTxKeyimgesInChain env tx = false

theorem recheckTransaction_weight (id : Hash) (txd : TemplateMeta) :
    (recheckTransaction env id txd).1.weight = txd.weight ∧
      (recheckTransaction env id txd).1.fee = txd.fee := by
  grind [recheckTransaction]

theorem recheckTransaction_ready {id : Hash}
    (h : (recheckTransaction env id txd).2 = some tx) : Ready env id tx := by
  unfold recheckTransaction at h
  cases hparse : env.parseTx id with
  | none =>
    rw [hparse] at h
    cases h
  | some found =>
    rw [hparse] at h
    dsimp only at h
    split_ifs at h with hfailed hspent
    obtain rfl := Option.some.inj h
    simp only [Bool.not_eq_true', not_or, Bool.not_eq_false] at hfailed
    exact ⟨hparse, hfailed.1, Nat.lt_of_not_le hfailed.2, Bool.eq_false_iff.mpr hspent⟩

/-- The check of an entry is `recheckTransaction` or leaves it alone. -/
theorem isTransactionReadyToGo_cases (id : Hash) (txd : TemplateMeta) :
    isTransactionReadyToGo env id txd = (txd, none) ∨
      isTransactionReadyToGo env id txd = recheckTransaction env id txd := by
  unfold isTransactionReadyToGo
  split_ifs
  · exact .inl rfl
  · exact .inr rfl
  · exact .inl rfl
  · exact .inl rfl
  · exact .inr rfl

theorem isTransactionReadyToGo_weight (id : Hash) (txd : TemplateMeta) :
    (isTransactionReadyToGo env id txd).1.weight = txd.weight ∧
      (isTransactionReadyToGo env id txd).1.fee = txd.fee := by
  obtain h | h := @isTransactionReadyToGo_cases env id txd
  · rw [h]
    exact ⟨rfl, rfl⟩
  · rw [h]
    exact recheckTransaction_weight id txd

theorem isTransactionReadyToGo_ready {id : Hash}
    (h : (isTransactionReadyToGo env id txd).2 = some tx) : Ready env id tx := by
  grind [isTransactionReadyToGo, recheckTransaction_ready]

theorem inputsSorted_spec {last : Option KeyImage}
    (h : inputsSorted last vin = true) :
    (spentImages vin).Pairwise (fun a b => b < a) ∧
      ∀ l ∈ last, ∀ image ∈ spentImages vin, image < l := by
  induction vin generalizing last with
  | nil => exact ⟨List.Pairwise.nil, fun _ _ _ himage => absurd himage not_mem_nil⟩
  | cons input vin ih =>
    cases input with
    | toKey amount offsets image =>
      unfold inputsSorted at h
      split_ifs at h with hlast
      obtain ⟨hsorted, hbelow⟩ := ih h
      have hfirst : ∀ l ∈ last, image < l := by
        intro l hl
        rw [Option.mem_def.mp hl] at hlast
        simpa using hlast
      refine ⟨pairwise_cons.mpr ⟨hbelow image rfl, hsorted⟩, fun l hl other hother => ?_⟩
      obtain rfl | hother := mem_cons.mp hother
      · exact hfirst l hl
      · exact BitVec.lt_trans (hbelow image rfl other hother) (hfirst l hl)
    | gen height => exact ih h
    | toScript prev prevout => exact ih h
    | toScriptHash prev prevout => exact ih h

/-- The images of the transactions of the pool are distinct where the order does not see to it. -/
def DistinctImages (env : SelectionEnv) : Prop :=
  7 ≤ env.hardForkVersion ∨
    ∀ id tx, env.parseTx id = some tx → (spentImages tx.vin).Nodup

theorem Ready.keysOk {id : Hash} (h : Ready env id tx)
    (hdistinct : DistinctImages env) : KeysOk tx.vin := by
  have hkeys := h.unspent
  rw [haveTxKeyimgesInChain, any_eq_false] at hkeys
  refine ⟨fun input hinput => ?_, ?_⟩
  · grind
  · obtain hfork | hnodup := hdistinct
    · have hinputs := h.inputs
      unfold checkTxInputs at hinputs
      split_ifs at hinputs with htransfer hsorted hempty
      · have hsorted' : inputsSorted none tx.vin = true := by
          by_contra hnot
          exact hsorted ⟨hfork, by simpa using hnot⟩
        exact (inputsSorted_spec hsorted').1.imp fun hlt => (BitVec.ne_of_lt hlt).symm
      · rw [not_not.mp hempty]
        exact nodup_nil
    · exact hnodup id tx h.parsed

theorem haveKeyImages_eq_false (hkeys : KeysOk vin)
    (h : haveKeyImages kImages vin = false) : ∀ image ∈ spentImages vin, image ∉ kImages := by
  induction vin with
  | nil => exact fun _ himage => absurd himage not_mem_nil
  | cons input vin ih =>
    obtain ⟨amount, offsets, image, rfl, -, hrest⟩ := keysOk_cons hkeys
    unfold haveKeyImages at h
    split_ifs at h with hmem
    intro other hother
    obtain rfl | hother := mem_cons.mp hother
    · exact hmem
    · exact ih hrest h other hother

/-- All images of a transaction are added, and the others stay. -/
theorem appendKeyImages_spec (hkeys : KeysOk vin)
    (hnew : ∀ image ∈ spentImages vin, image ∉ kImages) :
    ∀ image, image ∈ appendKeyImages kImages vin ↔ image ∈ kImages ∨ image ∈ spentImages vin := by
  induction vin generalizing kImages with
  | nil => exact fun image => ⟨Or.inl, fun h => h.resolve_right not_mem_nil⟩
  | cons input vin ih =>
    obtain ⟨amount, offsets, first, rfl, hfirst, hrest⟩ := keysOk_cons hkeys
    have hfree : first ∉ kImages := hnew first mem_cons_self
    have hlater : ∀ image ∈ spentImages vin, image ∉ insert first kImages := by
      intro image himage hmem
      obtain rfl | hmem := Finset.mem_insert.mp hmem
      · exact hfirst himage
      · exact hnew image (mem_cons_of_mem first himage) hmem
    intro image
    rw [appendKeyImages, if_neg hfree, ih hrest hlater, Finset.mem_insert, spentImages, mem_cons]
    tauto

end ReadyLemmas

section Invariant

variable {env : SelectionEnv} {call : FillCall}

/-- The weight and the fee of every entry are those it had before. -/
def SameEntries (before after : Hash → Option TemplateMeta) : Prop :=
  ∀ id, (after id).map (fun txd => (txd.weight, txd.fee)) =
    (before id).map fun txd => (txd.weight, txd.fee)

theorem Selection.update_eq (s : Selection) {id : Hash} {old new : TemplateMeta}
    (hold : s.metas id = some old) (hweight : new.weight = old.weight) (hfee : new.fee = old.fee) :
    ∃ metas, SameEntries s.metas metas ∧ s.update env id old new = { s with metas } := by
  unfold Selection.update
  split_ifs with hwrite
  · refine ⟨_, fun other => ?_, rfl⟩
    grind
  · exact ⟨s.metas, fun _ => rfl, rfl⟩

/-- What one entry of the container can do: nothing but an update of the pool, or the addition of
a transaction that passed every test. -/
theorem Selection.consider_cases (s : Selection) (id : Hash) : ∃ metas, SameEntries s.metas metas ∧
      (s.consider env call id = { s with metas } ∨
        ∃ txd new blockReward tx, s.metas id = some txd ∧ new.weight = txd.weight ∧
          new.fee = txd.fee ∧ s.totalWeight + txd.weight ≤ call.maxTotalWeight ∧
          call.baseMiner (s.totalWeight + txd.weight) = some blockReward ∧
          s.bestCoinbase ≤ blockReward + s.fee + txd.fee ∧ Ready env id tx ∧
          haveKeyImages s.kImages tx.vin = false ∧
          s.consider env call id =
            Selection.add { s with metas } id new (blockReward + s.fee + txd.fee) tx) := by
  unfold Selection.consider
  cases hmeta : s.metas id with
  | none => exact ⟨s.metas, fun _ => rfl, .inl rfl⟩
  | some txd =>
    dsimp only
    split_ifs with hweight
    · exact ⟨s.metas, fun _ => rfl, .inl rfl⟩
    cases hreward : call.baseMiner (s.totalWeight + txd.weight) with
    | none => exact ⟨s.metas, fun _ => rfl, .inl rfl⟩
    | some blockReward =>
      dsimp only
      split_ifs with hless
      · exact ⟨s.metas, fun _ => rfl, .inl rfl⟩
      obtain ⟨hnewWeight, hnewFee⟩ := @isTransactionReadyToGo_weight env id txd
      obtain ⟨metas, hsame, hupdate⟩ := @Selection.update_eq env s id _ _ hmeta hnewWeight hnewFee
      refine ⟨metas, hsame, ?_⟩
      rw [hupdate]
      cases hready : (isTransactionReadyToGo env id txd).2 with
      | none => exact .inl rfl
      | some tx =>
        dsimp only
        split_ifs with hseen
        · exact .inl rfl
        · exact .inr ⟨txd, _, blockReward, tx, rfl, hnewWeight, hnewFee,
            UInt64.not_lt.mp hweight, hreward, UInt64.not_lt.mp hless,
            isTransactionReadyToGo_ready hready, Bool.eq_false_iff.mpr hseen, rfl⟩

/-- The key images of a transaction of the pool. -/
def SelectionEnv.imagesOf (env : SelectionEnv) (id : Hash) : List KeyImage :=
  ((env.parseTx id).map fun tx => spentImages tx.vin).getD []

def weightOf (metas : Hash → Option TemplateMeta) (id : Hash) : UInt64 :=
  ((metas id).map TemplateMeta.weight).getD 0

def feeOf (metas : Hash → Option TemplateMeta) (id : Hash) : UInt64 :=
  ((metas id).map TemplateMeta.fee).getD 0

/-- The sum as the template adds it up. -/
def sumOf (of : Hash → UInt64) (ids : List Hash) : UInt64 := (ids.map of).foldl (· + ·) 0

theorem sumOf_append (of : Hash → UInt64) (ids : List Hash) (id : Hash) :
    sumOf of (ids ++ [id]) = sumOf of ids + of id := by
  simp [sumOf]

/-- The template so far, with the entries `metas` the pool had at first. -/
structure Selection.Filled (env : SelectionEnv) (call : FillCall)
    (metas : Hash → Option TemplateMeta) (s : Selection) : Prop where
  entries : SameEntries metas s.metas
  weight : s.totalWeight = sumOf (weightOf metas) s.txHashes
  fee : s.fee = sumOf (feeOf metas) s.txHashes
  fits : s.totalWeight ≤ call.maxTotalWeight
  coinbase : s.bestCoinbase = (call.baseMiner s.totalWeight).getD 0 + s.fee
  start : (call.baseMiner 0).getD 0 ≤ s.bestCoinbase
  ready : ∀ id ∈ s.txHashes, ∃ tx, Ready env id tx
  taken : ∀ id ∈ s.txHashes, ∀ image ∈ env.imagesOf id, image ∈ s.kImages
  disjoint : s.txHashes.Pairwise fun a b => (env.imagesOf a).Disjoint (env.imagesOf b)

theorem Selection.filled_start (metas : Hash → Option TemplateMeta) :
    (Selection.start call metas).Filled env call metas where
  entries _ := rfl
  weight := rfl
  fee := rfl
  fits := UInt64.le_iff_toNat_le.mpr (Nat.zero_le _)
  coinbase := (UInt64.add_zero _).symm
  start := UInt64.le_refl _
  ready _ h := absurd h not_mem_nil
  taken _ h := absurd h not_mem_nil
  disjoint := List.Pairwise.nil

theorem SameEntries.weightOf_eq {before after : Hash → Option TemplateMeta}
    (h : SameEntries before after) {id : Hash} (hafter : after id = some txd) :
    weightOf before id = txd.weight ∧ feeOf before id = txd.fee := by
  have hid := h id
  rw [hafter] at hid
  cases hbefore : before id <;> grind [weightOf, feeOf]

variable {metas : Hash → Option TemplateMeta} {s : Selection}

/-- One entry keeps all of this. -/
theorem Selection.Filled.consider (h : s.Filled env call metas) (hdistinct : DistinctImages env)
    (id : Hash) : (s.consider env call id).Filled env call metas := by
  obtain ⟨metas', hsame, hcase⟩ := @Selection.consider_cases env call s id
  have hentries : SameEntries metas metas' := fun other => (hsame other).trans (h.entries other)
  obtain hskip | ⟨txd, new, blockReward, tx, hmeta, hweight, hfee, hfits, hreward, hbest, hready,
    hfresh, hadd⟩ := hcase
  · rw [hskip]
    exact { h with entries := hentries }
  · obtain ⟨hweightOf, hfeeOf⟩ := h.entries.weightOf_eq hmeta
    have hkeys := hready.keysOk hdistinct
    have hnew := haveKeyImages_eq_false hkeys hfresh
    have himages : env.imagesOf id = spentImages tx.vin := by
      rw [SelectionEnv.imagesOf, hready.parsed]
      rfl
    rw [hadd]
    refine ⟨hentries, ?_, ?_, ?_, ?_, ?_, ?_, ?_, ?_⟩
    · show s.totalWeight + new.weight = sumOf (weightOf metas) (s.txHashes ++ [id])
      rw [sumOf_append, hweightOf, hweight, h.weight]
    · show s.fee + new.fee = sumOf (feeOf metas) (s.txHashes ++ [id])
      rw [sumOf_append, hfeeOf, hfee, h.fee]
    · show s.totalWeight + new.weight ≤ _
      rw [hweight]
      exact hfits
    · show blockReward + s.fee + txd.fee =
        (call.baseMiner (s.totalWeight + new.weight)).getD 0 + (s.fee + new.fee)
      rw [hweight, hfee, hreward, UInt64.add_assoc]
      rfl
    · exact UInt64.le_trans h.start hbest
    · intro other hother
      obtain hother | rfl := mem_append.mp hother |>.imp_right mem_singleton.mp
      · exact h.ready other hother
      · exact ⟨tx, hready⟩
    · grind [Selection.add, appendKeyImages_spec hkeys hnew, h.taken]
    · refine pairwise_append.mpr ⟨h.disjoint, pairwise_singleton _ _, ?_⟩
      intro other hother last hlast image himage hlastImage
      obtain rfl := mem_singleton.mp hlast
      rw [himages] at hlastImage
      exact hnew image hlastImage (h.taken other hother image himage)

theorem Selection.bestCoinbase_le_consider (s : Selection) (id : Hash) :
    s.bestCoinbase ≤ (s.consider env call id).bestCoinbase := by
  obtain ⟨metas', -, hcase⟩ := @Selection.consider_cases env call s id
  obtain hskip | ⟨txd, new, blockReward, tx, -, -, -, -, -, hbest, -, -, hadd⟩ := hcase
  · rw [hskip]
    exact UInt64.le_refl _
  · rw [hadd]
    exact hbest

theorem Selection.Filled.foldl (h : s.Filled env call metas) (hdistinct : DistinctImages env)
    (sorted : List Hash) :
    (sorted.foldl (Selection.consider env call) s).Filled env call metas := by
  induction sorted generalizing s with
  | nil => exact h
  | cons id sorted ih => exact ih (h.consider hdistinct id)

theorem Selection.bestCoinbase_le_foldl (s : Selection) (sorted : List Hash) :
    s.bestCoinbase ≤ (sorted.foldl (Selection.consider env call) s).bestCoinbase := by
  induction sorted generalizing s with
  | nil => exact UInt64.le_refl _
  | cons id sorted ih => exact UInt64.le_trans (s.bestCoinbase_le_consider id) (ih _)

end Invariant

section Result

theorem toNat_sumOf {of : Hash → UInt64} {ids : List Hash}
    (h : (ids.map fun id => (of id).toNat).sum < 2 ^ 64) :
    (sumOf of ids).toNat = (ids.map fun id => (of id).toNat).sum := by
  have hmap : (ids.map of).map UInt64.toNat = ids.map fun id => (of id).toNat := map_map
  have hsum := @ServiceNodes.toNat_sum_of_lt (ids.map of) 0 (by rw [hmap]; simpa using h)
  rw [hmap] at hsum
  unfold sumOf
  simpa using hsum

/-- The bound is the one that is meant exactly if the median is at least 300. -/
theorem FillCall.maxTotalWeight_le_iff (call : FillCall) {weight : UInt64}
    (h : weight ≤ call.maxTotalWeight) :
    (weight.toNat : ℤ) ≤ 2 * call.medianWeight.toNat - 600 ↔ 300 ≤ call.medianWeight.toNat := by
  have hle := UInt64.le_iff_toNat_le.mp h
  have hmax : call.maxTotalWeight.toNat =
      (2 ^ 64 - 600 + 2 * call.medianWeight.toNat % 2 ^ 64) % 2 ^ 64 := by
    rw [FillCall.maxTotalWeight, UInt64.toNat_sub, UInt64.toNat_mul]
    rfl
  omega

/-- For every pool and order of the pool: the transactions are ready and spend different key
images, the sums are those of the template, and the reward is that for the weight with the fees,
which no transaction lowered. The sums are of 64 bits, and they are exact if the numbers fit. The
weight is within the bound exactly if the median is at least 300. -/
theorem filled_template (env : SelectionEnv) (call : FillCall) (metas : Hash → Option TemplateMeta)
    (sorted : List Hash) (hdistinct : DistinctImages env) :
    let r := fillBlockTemplate env call metas sorted
    r.txHashes.Pairwise (fun a b => (env.imagesOf a).Disjoint (env.imagesOf b)) ∧
      (∀ id ∈ r.txHashes, ∃ tx, Ready env id tx) ∧
      r.totalWeight = sumOf (weightOf metas) r.txHashes ∧
      r.fee = sumOf (feeOf metas) r.txHashes ∧
      r.bestCoinbase = (call.baseMiner r.totalWeight).getD 0 + r.fee ∧
      (call.baseMiner 0).getD 0 ≤ r.bestCoinbase ∧
      (∀ done rest, sorted = done ++ rest →
        (fillBlockTemplate env call metas done).bestCoinbase ≤ r.bestCoinbase) ∧
      ((r.txHashes.map fun id => (weightOf metas id).toNat).sum < 2 ^ 64 →
        r.totalWeight.toNat = (r.txHashes.map fun id => (weightOf metas id).toNat).sum) ∧
      (((call.baseMiner r.totalWeight).getD 0).toNat +
          (r.txHashes.map fun id => (feeOf metas id).toNat).sum < 2 ^ 64 →
        r.bestCoinbase.toNat = ((call.baseMiner r.totalWeight).getD 0).toNat +
          (r.txHashes.map fun id => (feeOf metas id).toNat).sum) ∧
      ((r.totalWeight.toNat : ℤ) ≤ 2 * call.medianWeight.toNat - 600 ↔
        300 ≤ call.medianWeight.toNat) := by
  intro r
  have h : r.Filled env call metas := (Selection.filled_start metas).foldl hdistinct sorted
  refine ⟨h.disjoint, h.ready, h.weight, h.fee, h.coinbase, h.start, ?_, fun hsum => ?_,
    fun hsum => ?_, call.maxTotalWeight_le_iff h.fits⟩
  · rintro done rest rfl
    show _ ≤ (fillBlockTemplate env call metas (done ++ rest)).bestCoinbase
    rw [fillBlockTemplate, fillBlockTemplate, foldl_append]
    exact Selection.bestCoinbase_le_foldl _ rest
  · rw [h.weight, toNat_sumOf hsum]
  · have hfee : r.fee.toNat = (r.txHashes.map fun id => (feeOf metas id).toNat).sum := by
      rw [h.fee, toNat_sumOf (by omega)]
    rw [h.coinbase, ServiceNodes.toNat_add_of_lt (by omega), hfee]

end Result

section Sample

/-- Every transaction of the pool spends the key image of its hash, but 3 that of 2. -/
def selectionEnv : SelectionEnv where
  parseTx id := some
    { vin := [.toKey 0 [] (if id = 3 then 2 else id)] }
  hardForkVersion := 16
  currentHeight := 10
  blockIdByHeight height := BitVec.ofNat 256 (height + 100)
  keyImageSpent image := image = 9
  checkInputs _ := (5, true)

def selectionMetas (id : Hash) : Option TemplateMeta :=
  if id = 0 then none else some { weight := 2000, fee := 7 }

/-- The reward does not depend on the weight. -/
def fillCall (medianWeight : UInt64) : FillCall where
  coinbase := fork16Env
  medianWeight
  alreadyGeneratedCoins := 1
  version := 16
  height := 10

/-- Of four transactions one spends a key image of another, one is spent in the chain. -/
theorem four_transactions_filled :
    let r := fillBlockTemplate selectionEnv (fillCall 10000) selectionMetas [1, 2, 3, 9]
    r.txHashes = [1, 2] ∧
      r.txHashes.Pairwise (fun a b =>
        (selectionEnv.imagesOf a).Disjoint (selectionEnv.imagesOf b)) ∧
      (r.totalWeight.toNat : ℤ) ≤ 2 * 10000 - 600 := by
  intro r
  have h := filled_template selectionEnv (fillCall 10000) selectionMetas [1, 2, 3, 9]
    (.inl (by decide))
  exact ⟨by decide +kernel, h.1, h.2.2.2.2.2.2.2.2.2.mpr (by decide)⟩

/-- With a median of 299 the bound is no bound: transactions of any weight are taken. -/
theorem small_median_unbounded :
    let r := fillBlockTemplate selectionEnv (fillCall 299) selectionMetas [1, 2, 4, 5]
    r.txHashes = [1, 2, 4, 5] ∧ r.totalWeight = 8000 ∧
      ¬(r.totalWeight.toNat : ℤ) ≤ 2 * 299 - 600 := by
  decide +kernel

end Sample

end Arqma.TxPool
