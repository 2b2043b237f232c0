import Arqma.StakeAccounting

/-!
# Contributors of a node

Two questions about the records contributions build up. How many contributors can
a node have: the limit on locked contributions does not limit them, a
contribution that locks nothing still adds its sender. And when can a reserved
stake be paid in: exactly when the limit on locked contributions and the minimum
contribution allow it.
-/
namespace Arqma.ServiceNodes
open Arqma.Cryptonote List Contributor

variable {info : ServiceNodeInfo} {tx : Transaction} {s : State} {parsed : ParsedTxContribution}
  {crypto : Crypto} {c : Contributor}

section Addresses

theorem map_address_setContributor (c : Contributor) (contributors : List Contributor) :
    (setContributor c contributors).map address =
      if c.address ∈ contributors.map address then
        contributors.map address
      else contributors.map address ++ [c.address] := by
  induction contributors with
  | nil => simp [setContributor]
  | cons d ds ih =>
    unfold setContributor
    grind

theorem map_address_contribute (info : ServiceNodeInfo) (parsed : ParsedTxContribution)
    (height index : ℕ) :
    (contribute info parsed height index).contributors.map address =
      if parsed.address ∈ info.contributors.map address then
        info.contributors.map address
      else info.contributors.map address ++ [parsed.address] := by
  simp [contribute, map_address_setContributor]

theorem reserveContributors_nodup {entries : List (AccountPublicAddress × UInt64)}
    {seen : List AccountPublicAddress} {info info' : ServiceNodeInfo}
    (h : reserveContributors entries seen info = some info') :
    (entries.map Prod.fst).Nodup ∧ ∀ a ∈ entries.map Prod.fst, a ∉ seen := by
  induction entries generalizing seen info with
  | nil => simp
  | cons entry entries ih =>
    grind [reserveContributors]

theorem map_address_of_registration {nettype : NetworkType} {hardForkVersion : ℕ}
    {timestamp : UInt64} {height index : ℕ} {key : PublicKey}
    (h : isRegistrationTx crypto nettype hardForkVersion tx timestamp height index {} =
      some (key, info)) :
    (info.contributors.map address).Nodup ∧ info.contributors.length ≤ maxNumberOfContributors := by
  obtain ⟨fields, -, -, hvalid, hreserve⟩ := isRegistrationTx_eq_some h
  have hcontributors : info.contributors.map address =
      (fields.addresses.zip fields.portions).map Prod.fst := by
    rw [reserveContributors_eq hreserve]
    simp [Function.comp_def]
  refine ⟨hcontributors ▸ (reserveContributors_nodup hreserve).1, ?_⟩
  have hlen : info.contributors.length = (fields.addresses.zip fields.portions).length := by
    simpa using congrArg List.length hcontributors
  grind [registrationIsValid]

/-- An address stands at most once among the contributors of a node. -/
def DistinctContributors (info : ServiceNodeInfo) : Prop :=
  (info.contributors.map Contributor.address).Nodup

theorem distinctContributors_invariant (env : Env) : NodeInvariant env DistinctContributors where
  register h := (map_address_of_registration h).1
  status h hstake := by
    unfold DistinctContributors
    rw [hstake.contributors]
    exact h
  contribution height index h _ := by
    grind [DistinctContributors, map_address_contribute]

end Addresses

section Bound

theorem length_contribute (info : ServiceNodeInfo) (parsed : ParsedTxContribution)
    (height index : ℕ) :
    (contribute info parsed height index).contributors.length =
      if parsed.address ∈ info.contributors.map address then info.contributors.length
      else info.contributors.length + 1 := by
  have h := congrArg List.length (map_address_contribute info parsed height index)
  rw [length_map] at h
  rw [h]
  split_ifs <;> simp

/-- The node of the scan's result is one of the active nodes scanned. -/
theorem oldestWaiting_mem (l : List (Σ _ : PublicKey, ServiceNodeInfo))
    (oldest : WaitingSince × Option ServiceNodeInfo)
    (h : (l.foldl oldestWaitingStep oldest).2 = some info) :
    oldest.2 = some info ∨ ∃ e ∈ l, e.2 = info ∧ e.2.isActive := by
  induction l generalizing oldest with
  | nil => exact Or.inl h
  | cons e l ih =>
    rcases ih _ h with hstep | ⟨e', he', hinfo⟩
    · unfold oldestWaitingStep at hstep
      split_ifs at hstep with hactive
      · exact Or.inr ⟨e, mem_cons_self, Option.some.inj hstep, hactive⟩
      · exact Or.inl hstep
      · exact Or.inl hstep
    · exact Or.inr ⟨e', mem_cons_of_mem _ he', hinfo⟩

/-- The winner is an active node of the list, or there is none. -/
theorem getBlockWinner_cases (s : State) : s.getBlockWinner = nullBlockWinner ∨
      ∃ key info, s.serviceNodesInfos.lookup key = some info ∧ info.isActive ∧
        s.getBlockWinner.payouts = info.contributors.map (payoutOf info) := by
  unfold State.getBlockWinner
  simp only
  split
  · exact Or.inl rfl
  · rename_i info hinfo
    split_ifs
    · exact Or.inl rfl
    · rcases oldestWaiting_mem _ _ hinfo with hnone | ⟨e, he, rfl, hactive⟩
      · cases hnone
      · exact Or.inr ⟨e.1, e.2, AList.mem_lookup_iff.mpr he, hactive, rfl⟩

/-- The node has no more contributors than the limit allows. -/
def WithinLimit (info : ServiceNodeInfo) : Prop :=
  info.contributors.length ≤ maxNumberOfContributors

/-- No node has more contributors than the limit, and so no block pays more. -/
def ContributorBound (s : State) : Prop :=
  AllNodes WithinLimit s ∧
    s.getBlockWinner.payouts.length ≤ maxNumberOfContributors

theorem contributorBound_of_allNodes (h : AllNodes WithinLimit s) : ContributorBound s := by
  refine ⟨h, ?_⟩
  rcases getBlockWinner_cases s with hnull | ⟨key, info, hinfo, -, hpayouts⟩
  · rw [hnull]
    decide
  · rw [hpayouts, length_map]
    exact h key info hinfo

/-- A contribution that would add a contributor locks an output, and all contributors of the node
have locked one by then. -/
def Orderly (env : Env) (s : State) (tx : Transaction) : Prop :=
  match getServiceNodePubkeyFromTxExtra tx.extra, getContribution env.crypto tx with
  | some key, some parsed => ∀ info ∈ s.serviceNodesInfos.lookup key,
      parsed.address ∉ info.contributors.map Contributor.address →
      parsed.lockedContributions ≠ [] ∧ ∀ c ∈ info.contributors, c.lockedContributions ≠ []
  | _, _ => True

instance (env : Env) (s : State) (tx : Transaction) : Decidable (Orderly env s tx) := by
  unfold Orderly
  split <;> infer_instance

/-- The list when the contribution of transaction `i` of a block is processed. -/
def beforeContribution (env : Env) (s : State) (input : BlockInput) (tx : Transaction) (i : ℕ) :
    State :=
  let before := (processTxs env input.history input.altStates s input.block
    (input.txs.take i)).1
  (processRegistrationTx env before input.block tx i).getD before

/-- The transfers of the block add contributors in order. -/
def OrderlyBlock (env : Env) (s : State) (input : BlockInput) : Prop :=
  ∀ i, ∀ hi : i < input.txs.length, input.txs[i].isTransfer = true →
    Orderly env (beforeContribution env s input input.txs[i] i) input.txs[i]

instance (env : Env) (s : State) (input : BlockInput) : Decidable (OrderlyBlock env s input) := by
  unfold OrderlyBlock
  infer_instance

/-- `P` holds for every block of a run and the state it is applied to. -/
def AlongRun (env : Env) (P : State → BlockInput → Prop) : State → List BlockInput → Prop
  | _, [] => True
  | s, input :: rest => P s input ∧ AlongRun env P (applyBlock env s input) rest

theorem stakeProperty_bound (env : Env) : StakeProperty env WithinLimit where
  register h := (map_address_of_registration h).2
  status h hstake := by
    unfold WithinLimit
    rwa [hstake.contributors]

/-- Contributors that all locked an output are no more than the locked outputs. -/
theorem length_le_locked (h : ∀ c ∈ info.contributors, c.lockedContributions ≠ []) :
    info.contributors.length ≤ info.totalNumLockedContributions := by
  rw [ServiceNodeInfo.totalNumLockedContributions, ← length_map]
  refine length_le_sum_of_one_le _ fun n hn => ?_
  obtain ⟨c, hc, rfl⟩ := mem_map.mp hn
  exact length_pos_iff.mpr (h c hc)

/-- The limit on the locked outputs leaves room for one more contributor. -/
theorem withinLimit_contribute (h : WithinLimit info)
    (haccepts : acceptsContribution info parsed = true)
    (horderly : parsed.address ∉ info.contributors.map address →
      parsed.lockedContributions ≠ [] ∧ ∀ c ∈ info.contributors, c.lockedContributions ≠ [])
    (height index : ℕ) : WithinLimit (contribute info parsed height index) := by
  unfold WithinLimit
  rw [length_contribute]
  split_ifs with hold
  · exact h
  · obtain ⟨hlocks, hpaid⟩ := horderly hold
    have hsome := length_pos_iff.mpr hlocks
    have hcount := length_le_locked hpaid
    simp only [acceptsContribution, Bool.and_eq_true, decide_eq_true_eq] at haccepts
    have hroom := haccepts.1.2
    omega

theorem processContributionTx_bound {env : Env} (block : Block) (index : ℕ)
    (horderly : Orderly env s tx) (h : AllNodes WithinLimit s) :
    AllNodes WithinLimit (processContributionTx env s block tx index).1 := by
  unfold processContributionTx
  split
  · rename_i pubkey parsed hkey hparsed
    split
    · exact h
    · rename_i info hinfo
      split_ifs with haccepts
      · refine h.insert (withinLimit_contribute (h pubkey info hinfo) haccepts ?_ _ _)
        unfold Orderly at horderly
        rw [hkey, hparsed] at horderly
        exact horderly info hinfo
      · exact h
  · exact h

/-- Orderly transfers keep the limit at every transaction of a block. -/
theorem processTxs_bound (env : Env) (input : BlockInput) (h : AllNodes WithinLimit s)
    (horderly : OrderlyBlock env s input) (n : ℕ) :
    AllNodes WithinLimit
      (processTxs env input.history input.altStates s input.block (input.txs.take n)).1 := by
  induction n with
  | zero => exact (stakeProperty_bound env).passiveChanges (processTxs_nil_changes _ _ s) h
  | succ n ih =>
    cases htx : input.txs[n]? with
    | none =>
      have hlen := getElem?_eq_none_iff.mp htx
      rw [take_of_length_le (by omega)]
      rwa [take_of_length_le hlen] at ih
    | some tx =>
      obtain ⟨hn, rfl⟩ := List.getElem?_eq_some_iff.mp htx
      rw [processTxs_take_succ _ _ _ _ htx]
      cases htransfer : input.txs[n].isTransfer with
      | true =>
        rw [processTx_transfer _ _ _ htransfer]
        refine processContributionTx_bound input.block n (horderly n hn htransfer) ?_
        exact (stakeProperty_bound env).passiveChanges (processRegistrationTx_changes _ _ n) ih
      | false =>
        exact (stakeProperty_bound env).processTx _ _ _ htransfer ih

/-- The limit on contributors is kept, at every transaction and after every block of a run from
an empty list, if new contributors lock outputs and join a node only after its contributors have
locked theirs. -/
theorem contributor_bound_of_orderly (env : Env) (height : ℕ) (inputs : List BlockInput)
    (horderly : AlongRun env (OrderlyBlock env) { height } inputs) :
    AlongRun env (fun s input =>
      (∀ n, ContributorBound (processTxs env input.history input.altStates s input.block
        (input.txs.take n)).1) ∧ ContributorBound (applyBlock env s input)) { height } inputs := by
  have hempty : AllNodes WithinLimit { height } := allNodes_of_empty rfl
  generalize ({ height } : State) = s at *
  induction inputs generalizing s with
  | nil => trivial
  | cons input inputs ih =>
    obtain ⟨hfirst, hrest⟩ := horderly
    have hall := processTxs_bound env input hempty hfirst
    have hdone : AllNodes WithinLimit (applyBlock env s input) := by
      have hlast := hall input.txs.length
      rw [take_length] at hlast
      exact (stakeProperty_bound env).passiveChanges
        (updateFromBlock_processTxs_changes _ _ s input.txs) hlast
    exact ⟨⟨fun n => contributorBound_of_allNodes (hall n), contributorBound_of_allNodes hdone⟩,
      ih _ hrest hdone⟩

/-- Two contributors of one half each. -/
def pairBlock : BlockInput where
  history := OrderedTable.empty
  altStates := []
  block := sampleBlock 16 160
  txs := [registrationTx 7 [(sampleAddress 0, stakingShareParts / 2)] (sampleAddress 0)
      [(500000000000, 1)], stakeTx 7 (sampleAddress 1) [(500000000000, 2)]]

theorem pairBlock_contributors :
    ((applyBlocks sampleEnv { height := 159 } [pairBlock]).serviceNodesInfos.lookup 7).map
        (fun info => (info.contributors.length, info.isActive)) = some (2, true) ∧
      ContributorBound (applyBlock sampleEnv { height := 159 } pairBlock) :=
  ⟨by decide +kernel, (contributor_bound_of_orderly sampleEnv 159 [pairBlock]
    ⟨by decide +kernel, trivial⟩).1.2⟩

/-- A fully reserved node, twelve transfers that stake nothing for it and the rest
of its stake. -/
def crowdingBlock : BlockInput where
  history := OrderedTable.empty
  altStates := []
  block := sampleBlock 16 160
  txs := registrationTx 7 [(sampleAddress 0, stakingShareParts)] (sampleAddress 0)
      [(500000000000, 1)] ::
    ((List.range 12).map fun i => stakeTx 7 (sampleAddress (i + 1)) []) ++
    [stakeTx 7 (sampleAddress 0) [(500000000000, 2)]]

/-- The node ends up active with thirteen contributors, all of them paid by a block. -/
theorem crowdingBlock_contributors :
    ∃ info, (applyBlocks sampleEnv { height := 159 } [crowdingBlock]).serviceNodesInfos.lookup 7 =
        some info ∧
      info.contributors.length = 13 ∧ info.isActive = true ∧
      (applyBlocks sampleEnv { height := 159 } [crowdingBlock]).getBlockWinner.key = 7 ∧
      (applyBlocks sampleEnv { height := 159 } [crowdingBlock]).getBlockWinner.payouts.length =
        13 := by
  refine ⟨((applyBlocks sampleEnv { height := 159 } [crowdingBlock]).serviceNodesInfos.lookup
    7).getD {}, ?_⟩
  decide +kernel

end Bound

section ReservedStake

/-- The transferred amount is the sum of the locked outputs. -/
theorem contributionStep_transferred (crypto : Crypto) (tx : Transaction)
    (derivation : KeyDerivation) (acc : List KeyImageProof × ParsedTxContribution) (i : ℕ)
    (h : acc.2.transferred = (acc.2.lockedContributions.map Contribution.amount).foldl (· + ·) 0) :
    (contributionStep crypto tx derivation acc i).2.transferred =
      ((contributionStep crypto tx derivation acc i).2.lockedContributions.map
        Contribution.amount).foldl (· + ·) 0 := by
  unfold contributionStep
  grind

theorem getContribution_transferred
    (h : getContribution crypto tx = some parsed) :
    parsed.transferred = (parsed.lockedContributions.map Contribution.amount).foldl (· + ·) 0 := by
  simp only [getContribution, Option.bind_eq_bind, Option.bind_eq_some_iff, Option.pure_def,
    Option.some.injEq] at h
  obtain ⟨address, -, txKey, -, derivation, -, proofs, -, rfl⟩ := h
  suffices hfold : ∀ (is : List ℕ) (acc : List KeyImageProof × ParsedTxContribution),
      acc.2.transferred = (acc.2.lockedContributions.map Contribution.amount).foldl (· + ·) 0 →
      (is.foldl (contributionStep crypto tx derivation) acc).2.transferred =
        ((is.foldl (contributionStep crypto tx derivation) acc).2.lockedContributions.map
          Contribution.amount).foldl (· + ·) 0 from
    hfold _ (proofs, { address, txKey }) rfl
  intro is
  induction is with
  | nil => exact fun _ hacc => hacc
  | cons i is ih =>
    intro acc hacc
    exact ih _ (contributionStep_transferred crypto tx derivation acc i hacc)

/-- In a node's list an address leads back to its contributor. -/
theorem contributorAt_of_mem (h : DistinctContributors info)
    (hc : c ∈ info.contributors) :
    contributorAt info.contributors c.address = c := by
  unfold contributorAt
  cases hfind : info.contributors.find? fun d => d.address = c.address with
  | none => exact absurd (find?_eq_none.mp hfind c hc) (by simp)
  | some d =>
    have hd : d.address = c.address := by simpa using find?_some hfind
    exact inj_on_of_nodup_map h (mem_of_find?_eq_some hfind) hc hd

theorem mem_setContributor_self (c : Contributor) (contributors : List Contributor) :
    c ∈ setContributor c contributors := by
  induction contributors with
  | nil => simp [setContributor]
  | cons d ds ih =>
    unfold setContributor
    split_ifs
    · exact mem_cons_self
    · exact mem_cons_of_mem _ ih

structure PaysReservation (env : Env) (s : State) (tx : Transaction) (key : PublicKey)
    (info : ServiceNodeInfo) (c : Contributor) (contribution : Contribution) : Prop where
  node : s.serviceNodesInfos.lookup key = some info
  slot : c ∈ info.contributors
  short : c.amount < c.reserved
  names : getServiceNodePubkeyFromTxExtra tx.extra = some key
  parses : ∃ parsed, getContribution env.crypto tx = some parsed ∧
    parsed.address = c.address ∧ parsed.lockedContributions = [contribution]
  enough : c.reserved - c.amount ≤ contribution.amount

/-- Paying the open part of a reservation completes it. -/
theorem contribute_completes (h : StakeAccounted info) (hdistinct : DistinctContributors info)
    (hc : c ∈ info.contributors)
    (haddr : parsed.address = c.address) (henough : c.reserved - c.amount ≤ parsed.transferred)
    (height index : ℕ) :
    ∃ c' ∈ (contribute info parsed height index).contributors,
      c'.address = c.address ∧ c.reserved ≤ c'.amount := by
  have hself := contributorAt_of_mem hdistinct hc
  have hcredit := h.toNat_creditedAmount c.address parsed.transferred
  have ham := UInt64.le_iff_toNat_le.mp (h.amount_le c hc)
  have hres := h.reserved_contributorAt_le c.address
  have hreq := UInt64.le_iff_toNat_le.mp h.reserved_le
  have hlt := info.stakingRequirement.toNat_lt
  have henough' := UInt64.le_iff_toNat_le.mp henough
  rw [toNat_sub_of_le ham] at henough'
  rw [hself] at hcredit hres
  refine ⟨_, mem_setContributor_self _ _, ?_, ?_⟩
  · simp [haddr]
  · simp only [haddr, hself]
    rw [UInt64.le_iff_toNat_le, toNat_add_of_lt (by omega)]
    omega

/-- The two guards of a contribution: fewer than twelve contributions are locked, and
the output is at least an equal share of the unreserved rest. -/
def PassesContributionGuards (info : ServiceNodeInfo) (contribution : Contribution) : Prop :=
  info.totalNumLockedContributions < maxNumberOfContributors ∧
    (info.stakingRequirement.toNat - info.totalReserved.toNat) /
      (maxNumberOfContributors - info.totalNumLockedContributions) ≤ contribution.amount.toNat

instance (info : ServiceNodeInfo) (contribution : Contribution) :
    Decidable (PassesContributionGuards info contribution) :=
  inferInstanceAs (Decidable (_ ∧ _))

/-- In every reachable state a payment of what is open of a reservation is accepted,
and completes the reservation, exactly when it passes the two guards; any other
payment changes nothing. -/
theorem reserved_stake_accepted_iff (env : Env) (height : ℕ) (inputs : List BlockInput)
    {tx : Transaction} {key : PublicKey} {info : ServiceNodeInfo} {c : Contributor}
    {contribution : Contribution}
    (h : PaysReservation env (applyBlocks env { height } inputs) tx key info c contribution)
    (block : Block) (index : ℕ) :
    (PassesContributionGuards info contribution →
      ∃ info' c', (processContributionTx env (applyBlocks env { height } inputs) block tx
          index).1.serviceNodesInfos.lookup key = some info' ∧
        c' ∈ info'.contributors ∧ c'.address = c.address ∧ c.reserved ≤ c'.amount) ∧
    (¬ PassesContributionGuards info contribution →
      processContributionTx env (applyBlocks env { height } inputs) block tx index =
        (applyBlocks env { height } inputs, false)) := by
  obtain ⟨parsed, hparsed, haddr, hone⟩ := h.parses
  have haccounted : StakeAccounted info :=
    (stakeAccounted_invariant env).applyBlocks (allNodes_of_empty rfl) inputs key info h.node
  have hdistinct : DistinctContributors info :=
    (distinctContributors_invariant env).applyBlocks (allNodes_of_empty rfl) inputs key info h.node
  have htransferred : parsed.transferred = contribution.amount := by
    rw [getContribution_transferred hparsed, hone]
    simp
  have hfunded : info.isFullyFunded = false := by
    have hopen := haccounted.open_contributorAt_le c.address
    rw [contributorAt_of_mem hdistinct h.slot] at hopen
    have hshort := UInt64.lt_iff_toNat_lt.mp h.short
    grind [ServiceNodeInfo.isFullyFunded, UInt64.le_iff_toNat_le, haccounted.reserved_le]
  have hmin := @toNat_getMinNodeContribution info.stakingRequirement info.totalReserved
    info.totalNumLockedContributions (UInt64.le_iff_toNat_le.mp haccounted.reserved_le)
  have haccepts : acceptsContribution info parsed = true ↔
      PassesContributionGuards info contribution := by
    simp only [PassesContributionGuards, acceptsContribution, hfunded, hone, htransferred,
      length_singleton,
      Bool.not_false, Bool.true_and, Bool.and_eq_true, decide_eq_true_eq, Nat.succ_le_iff,
      UInt64.le_iff_toNat_le]
    refine and_congr_right fun hlocked => ?_
    rw [hmin hlocked]
  refine ⟨fun hguard => ?_, fun hguard => ?_⟩
  · obtain ⟨c', hc', haddr', hreserved⟩ := contribute_completes haccounted hdistinct h.slot haddr
      (by rw [htransferred]; exact h.enough) (getBlockHeight block) index
    grind [processContributionTx, h.names, h.node, AList.lookup_insert]
  · simp only [processContributionTx, h.names, hparsed, h.node,
      if_neg (fun hacc => hguard (haccepts.mp hacc))]

/-- A block that registers node `7` with a portion for one address and a first
payment, followed by further stakes for it. -/
def reservationBlock (portion payment : UInt64) (stakes : List Transaction) : BlockInput where
  history := OrderedTable.empty
  altStates := []
  block := sampleBlock 16 160
  txs := registrationTx 7 [(sampleAddress 0, portion)] (sampleAddress 0) [(payment, 1)] :: stakes

/-- Node `7` after such a block. -/
def reservationNode (input : BlockInput) : ServiceNodeInfo :=
  ((applyBlocks sampleEnv { height := 159 } [input]).serviceNodesInfos.lookup 7).getD {}

/-- A node reserved for one sender that has half of its stake. -/
def halfPaid : BlockInput := reservationBlock stakingShareParts 500000000000 []

/-- The open half of the stake can be paid in one output. -/
theorem reserved_half_paid :
    ∃ info' c', (processContributionTx sampleEnv
        (applyBlocks sampleEnv { height := 159 } [halfPaid]) (sampleBlock 16 161)
        (stakeTx 7 (sampleAddress 0) [(500000000000, 2)]) 0).1.serviceNodesInfos.lookup 7 =
          some info' ∧
      c' ∈ info'.contributors ∧ c'.address = sampleAddress 0 ∧ 1000000000000 ≤ c'.amount := by
  have hpays : PaysReservation sampleEnv (applyBlocks sampleEnv { height := 159 } [halfPaid])
      (stakeTx 7 (sampleAddress 0) [(500000000000, 2)]) 7 (reservationNode halfPaid)
      { amount := 500000000000, reserved := 1000000000000, address := sampleAddress 0,
        lockedContributions := [⟨0, 1, 500000000000⟩] } ⟨0, 2, 500000000000⟩ :=
    ⟨by decide +kernel, by decide +kernel, by decide +kernel, by decide +kernel,
      ⟨_, rfl, by decide, by decide⟩, by decide⟩
  exact (reserved_stake_accepted_iff sampleEnv 159 [halfPaid] hpays (sampleBlock 16 161) 0).1
    (by decide +kernel)

/-- A node half of which is reserved for one sender, who has paid all but one unit. -/
def oneUnitShort : BlockInput := reservationBlock 9223372036854775806 499999999999 []

/-- As `halfPaid`, but another sender has locked eleven outputs that were credited
nothing. -/
def lockedUp : BlockInput :=
  reservationBlock stakingShareParts 500000000000
    [stakeTx 7 (sampleAddress 1) ((List.range 11).map fun i => (1, BitVec.ofNat 256 (i + 2)))]

/-- Two payments of what is open that leave the node as it was: one below the minimum
contribution and one that comes after twelve locked contributions. -/
theorem reserved_stake_refused :
    (∃ info c contribution,
      PaysReservation sampleEnv (applyBlocks sampleEnv { height := 159 } [oneUnitShort])
        (stakeTx 7 (sampleAddress 0) [(1, 2)]) 7 info c contribution ∧
      (processContributionTx sampleEnv (applyBlocks sampleEnv { height := 159 } [oneUnitShort])
        (sampleBlock 16 161) (stakeTx 7 (sampleAddress 0) [(1, 2)]) 0).1.serviceNodesInfos.lookup
          7 = some info) ∧
    ∃ info c contribution,
      PaysReservation sampleEnv (applyBlocks sampleEnv { height := 159 } [lockedUp])
        (stakeTx 7 (sampleAddress 0) [(500000000000, 13)]) 7 info c contribution ∧
      (processContributionTx sampleEnv (applyBlocks sampleEnv { height := 159 } [lockedUp])
        (sampleBlock 16 161)
        (stakeTx 7 (sampleAddress 0) [(500000000000, 13)]) 0).1.serviceNodesInfos.lookup 7 =
          some info := by
  refine ⟨⟨reservationNode oneUnitShort,
      { amount := 499999999999, reserved := 500000000000, address := sampleAddress 0,
        lockedContributions := [⟨0, 1, 499999999999⟩] }, ⟨0, 2, 1⟩, ?_, by decide +kernel⟩,
    reservationNode lockedUp,
    { amount := 500000000000, reserved := 1000000000000, address := sampleAddress 0,
      lockedContributions := [⟨0, 1, 500000000000⟩] }, ⟨0, 13, 500000000000⟩, ?_,
    by decide +kernel⟩
  · exact ⟨by decide +kernel, by decide +kernel, by decide +kernel, by decide +kernel,
      ⟨_, rfl, by decide, by decide⟩, by decide⟩
  · exact ⟨by decide +kernel, by decide +kernel, by decide +kernel, by decide +kernel,
      ⟨_, rfl, by decide, by decide⟩, by decide⟩

end ReservedStake

end Arqma.ServiceNodes
