import Arqma.NodeInvariant

/-!
# Staked outputs stay locked

A key image that is staked in a registered node can only be released in two ways:
the node expires at the height an accepted unlock has set, or it is deregistered,
which moves the key image to the blacklist for the full lock time. Until then the
inputs of a transfer that spends it are refused.
-/
namespace Arqma.ServiceNodes
open Arqma.Cryptonote List AList

variable {key : PublicKey} {info' : ServiceNodeInfo} {info : ServiceNodeInfo} {keyImage : KeyImage}
  {s : State} {c : Contribution} {tx : Transaction} {view : ChainView}

/-- The node has a locked contribution with the key image. -/
def Holds (s : State) (node : PublicKey) (keyImage : KeyImage) : Prop :=
  ∃ info, s.serviceNodesInfos.lookup node = some info ∧
    ∃ c ∈ info.lockedContributions, c.keyImage = keyImage

def Blacklists (s : State) (keyImage : KeyImage) (unlockHeight : ℕ) : Prop :=
  ∃ e ∈ s.keyImageBlacklist, e.keyImage = keyImage ∧ e.unlockHeight = unlockHeight

theorem isKeyImageLocked_iff :
    s.isKeyImageLocked keyImage = true ↔ ∃ node, Holds s node keyImage := by
  simp only [State.isKeyImageLocked, any_eq_true, decide_eq_true_eq, Holds,
    ServiceNodeInfo.lockedContributions, mem_flatMap]
  constructor
  · rintro ⟨⟨node, info⟩, he, contributor, hcontributor, c, hc, rfl⟩
    exact ⟨node, info, mem_lookup_iff.mpr he, c, ⟨contributor, hcontributor, hc⟩, rfl⟩
  · rintro ⟨node, info, hinfo, c, ⟨contributor, hcontributor, hc⟩, rfl⟩
    exact ⟨⟨node, info⟩, mem_lookup_iff.mp hinfo, contributor, hcontributor, c, hc, rfl⟩

section Step

variable {env : Env} {block : Block} {s s' : State} {node : PublicKey} {keyImage : KeyImage}

theorem Holds.insert (h : Holds s node keyImage) {info info' : ServiceNodeInfo}
    (hinfo : s.serviceNodesInfos.lookup key = some info)
    (hkeep : ∀ c ∈ info.lockedContributions, c ∈ info'.lockedContributions) :
    Holds { s with serviceNodesInfos := s.serviceNodesInfos.insert key info' } node keyImage := by
  obtain ⟨i, hi, c, hc, hk⟩ := h
  by_cases hkey : node = key
  · subst hkey
    obtain rfl : i = info := Option.some.inj (hi.symm.trans hinfo)
    exact ⟨info', by simp, c, hkeep c hc, hk⟩
  · exact ⟨i, by rwa [lookup_insert_ne hkey], c, hc, hk⟩

theorem Holds.insert_new (h : Holds s node keyImage) (hfree : s.serviceNodesInfos.lookup key = none)
    (info' : ServiceNodeInfo) :
    Holds { s with serviceNodesInfos := s.serviceNodesInfos.insert key info' } node keyImage := by
  grind [Holds, lookup_insert_ne]

theorem Holds.erase (h : Holds s node keyImage) (hkey : node ≠ key)
    (blacklist : List KeyImageBlacklistEntry) :
    Holds { s with
      keyImageBlacklist := blacklist
      serviceNodesInfos := s.serviceNodesInfos.erase key } node keyImage := by
  obtain ⟨i, hi, c, hc, hk⟩ := h
  exact ⟨i, by rwa [lookup_erase_ne hkey], c, hc, hk⟩

theorem mem_setContributor_locked {d : Contributor} {contributors : List Contributor}
    (hkeep : ∀ c ∈ (contributorAt contributors d.address).lockedContributions,
      c ∈ d.lockedContributions) (hc : c ∈ contributors.flatMap Contributor.lockedContributions) :
    c ∈ (setContributor d contributors).flatMap Contributor.lockedContributions := by
  induction contributors with
  | nil => simp at hc
  | cons e es ih =>
    grind [contributorAt, setContributor]

theorem mem_contribute_locked (parsed : ParsedTxContribution) (height index : ℕ)
    (hc : c ∈ info.lockedContributions) :
    c ∈ (contribute info parsed height index).lockedContributions := by
  refine mem_setContributor_locked ?_ hc
  intro d hd
  simp only [contributorAt_address] at hd
  exact mem_append_left _ hd

/-- The node is registered with an unlock height that the block has passed. -/
def Overdue (s : State) (block : Block) (node : PublicKey) : Prop :=
  ∃ info, s.serviceNodesInfos.lookup node = some info ∧
    info.requestedUnlockHeight ≠ keyImageAwaitingUnlockHeight ∧
    info.requestedUnlockHeight < getBlockHeight block

/-- The second state is the first after a deregistration of the node. -/
def Deregisters (env : Env) (block : Block) (s s' : State) (node : PublicKey) : Prop :=
  ∃ info, s.serviceNodesInfos.lookup node = some info ∧
    applyStateChange env s block node info .deregister = some s'

theorem Change.holds (hc : Change env block s s') (h16 : 16 ≤ block.majorVersion)
    (h : Holds s node keyImage) :
    Holds s' node keyImage ∨ Overdue s block node ∨ Deregisters env block s s' node ∧
        Blacklists s' keyImage (getBlockHeight block + stakingNumLockBlocks env.nettype) := by
  cases hc with
  | contribution names parses hinfo accepts =>
    exact Or.inl (h.insert hinfo fun c hc => mem_contribute_locked _ _ _ hc)
  | unlock accepted =>
    obtain ⟨key, info, hinfo, -, rfl⟩ := processKeyImageUnlockTx_eq_some accepted
    exact Or.inl (h.insert hinfo fun c hc => hc)
  | passive hpassive =>
    cases hpassive with
    | start => exact Or.inl h
    | @expire key info hinfo requested passed =>
      grind [Overdue, h.erase]
    | reward hinfo => exact Or.inl (h.insert hinfo fun c hc => hc)
    | register registration free => exact Or.inl (h.insert_new free _)
    | @stateChange _ key info state hinfo applies =>
      have hderegisters : node = key → state = .deregister → Deregisters env block s s' node := by
        rintro rfl rfl
        exact ⟨info, hinfo, applies⟩
      cases state <;> simp only [applyStateChange, if_pos h16] at applies
      case deregister =>
        rw [← Option.some.inj applies] at hderegisters ⊢
        by_cases hkey : node = key
        · refine Or.inr (Or.inr ⟨hderegisters hkey rfl, ?_⟩)
          subst hkey
          obtain ⟨i, hi, c, hc, rfl⟩ := h
          obtain rfl : i = info := Option.some.inj (hi.symm.trans hinfo)
          exact ⟨_, mem_append_right _ (mem_map_of_mem hc), rfl, rfl⟩
        · exact Or.inl (h.erase hkey _)
      all_goals
        split_ifs at applies
        rw [← Option.some.inj applies]
        exact Or.inl (h.insert hinfo fun c hc => hc)
    | swarm id hinfo => exact Or.inl (h.insert hinfo fun c hc => hc)
    | quorums => exact Or.inl h

end Step

section UnlockHeights

variable {env : Env} {block : Block} {s s' : State} {node : PublicKey}

/-- Every unlock height the node has in the second state it has in the first. -/
def UnlockKept (s s' : State) (node : PublicKey) : Prop :=
  ∀ info', s'.serviceNodesInfos.lookup node = some info' →
    info'.requestedUnlockHeight ≠ keyImageAwaitingUnlockHeight →
    ∃ info, s.serviceNodesInfos.lookup node = some info ∧
      info.requestedUnlockHeight = info'.requestedUnlockHeight

theorem UnlockKept.refl (s : State) (node : PublicKey) : UnlockKept s s node :=
  fun info hinfo _ => ⟨info, hinfo, rfl⟩

theorem UnlockKept.trans {s₁ s₂ s₃ : State} (h₁ : UnlockKept s₁ s₂ node)
    (h₂ : UnlockKept s₂ s₃ node) : UnlockKept s₁ s₃ node := by
  grind [UnlockKept]

theorem unlockKept_insert
    (h : info'.requestedUnlockHeight ≠ keyImageAwaitingUnlockHeight →
      ∃ info, s.serviceNodesInfos.lookup key = some info ∧
        info.requestedUnlockHeight = info'.requestedUnlockHeight) :
    UnlockKept s { s with serviceNodesInfos := s.serviceNodesInfos.insert key info' } node := by
  intro i hi hset
  grind [lookup_insert, lookup_insert_ne]

theorem unlockKept_erase (key : PublicKey) (blacklist : List KeyImageBlacklistEntry) :
    UnlockKept s { s with
      keyImageBlacklist := blacklist
      serviceNodesInfos := s.serviceNodesInfos.erase key } node := by
  intro i hi _
  by_cases hkey : node = key
  · subst hkey
    simp at hi
  · exact ⟨i, by rwa [lookup_erase_ne hkey] at hi, rfl⟩

theorem requestedUnlockHeight_of_registration {crypto : Crypto} {nettype : NetworkType}
    {hardForkVersion : ℕ} {timestamp : UInt64} {height index : ℕ}
    (h : isRegistrationTx crypto nettype hardForkVersion tx timestamp height index {} =
      some (key, info)) :
    info.requestedUnlockHeight = keyImageAwaitingUnlockHeight := by
  obtain ⟨fields, -, -, -, hreserve⟩ := isRegistrationTx_eq_some h
  rw [reserveContributors_eq hreserve]
  rfl

theorem PassiveChange.unlockKept (hc : PassiveChange env block s s') : UnlockKept s s' node := by
  cases hc with
  | start => exact UnlockKept.refl s node
  | expire hinfo => exact unlockKept_erase _ s.keyImageBlacklist
  | reward hinfo => exact unlockKept_insert fun _ => ⟨_, hinfo, rfl⟩
  | register registration =>
    exact unlockKept_insert fun hset =>
      absurd (requestedUnlockHeight_of_registration registration) hset
  | @stateChange _ key info state hinfo applies =>
    cases state <;> simp only [applyStateChange] at applies
    case deregister =>
      rw [← Option.some.inj applies]
      exact unlockKept_erase _ _
    all_goals
      split_ifs at applies
      rw [← Option.some.inj applies]
      exact unlockKept_insert fun _ => ⟨_, hinfo, rfl⟩
  | swarm id hinfo => exact unlockKept_insert fun _ => ⟨_, hinfo, rfl⟩
  | quorums => exact UnlockKept.refl s node

theorem PassiveChanges.unlockKept (hc : PassiveChanges env block s s') : UnlockKept s s' node := by
  induction hc with
  | refl => exact UnlockKept.refl s node
  | tail _ hstep ih => exact ih.trans hstep.unlockKept

theorem processContributionTx_unlockKept (env : Env) (s : State) (block : Block) (tx : Transaction)
    (index : ℕ) :
    UnlockKept s (processContributionTx env s block tx index).1 node := by
  unfold processContributionTx
  grind [contribute, UnlockKept.refl, unlockKept_insert]

/-- Transaction `i` of the block is an accepted unlock that sets the node's unlock
height to half the lock time after the block. -/
def UnlockAccepted (env : Env) (s : State) (input : BlockInput) (node : PublicKey)
    (unlockHeight : ℕ) : Prop :=
  ∃ (i : ℕ) (tx : Transaction) (s' : State) (info : ServiceNodeInfo),
    input.txs[i]? = some tx ∧ tx.txType = .keyImageUnlock ∧
    processKeyImageUnlockTx env (processTxs env input.history input.altStates s input.block
      (input.txs.take i)).1 (getBlockHeight input.block) tx = some s' ∧
    s'.serviceNodesInfos.lookup node = some info ∧
    info.requestedUnlockHeight = unlockHeight ∧
    unlockHeight = getBlockHeight input.block + stakingNumLockBlocks env.nettype / 2

theorem processTxs_unlock (env : Env) (s : State) (input : BlockInput) (n : ℕ)
    (hinfo' : (processTxs env input.history input.altStates s input.block
      (input.txs.take n)).1.serviceNodesInfos.lookup node = some info')
    (hset : info'.requestedUnlockHeight ≠ keyImageAwaitingUnlockHeight) :
    (∃ info, s.serviceNodesInfos.lookup node = some info ∧
      info.requestedUnlockHeight = info'.requestedUnlockHeight) ∨
      UnlockAccepted env s input node info'.requestedUnlockHeight := by
  induction n generalizing info' with
  | zero =>
    exact Or.inl ((processTxs_nil_changes input.history input.altStates s).unlockKept info' hinfo'
      hset)
  | succ n ih =>
    cases htx : input.txs[n]? with
    | none =>
      grind [take_of_length_le]
    | some tx =>
      rw [processTxs_take_succ _ _ _ _ htx] at hinfo'
      -- a step that keeps unlock heights leaves the question to the transactions before it
      have hkept : UnlockKept (processTxs env input.history input.altStates s input.block
          (input.txs.take n)).1 (processTx env input.history input.altStates input.block
          (processTxs env input.history input.altStates s input.block (input.txs.take n))
          (tx, n)).1 node →
          (∃ info, s.serviceNodesInfos.lookup node = some info ∧
            info.requestedUnlockHeight = info'.requestedUnlockHeight) ∨
          UnlockAccepted env s input node info'.requestedUnlockHeight := by
        intro hk
        obtain ⟨info, hinfo, heq⟩ := hk info' hinfo' hset
        rw [← heq] at hset ⊢
        exact ih hinfo hset
      rcases isTransfer_cases tx with htransfer | hchange | hunlock
      · refine hkept ?_
        rw [processTx_transfer _ _ _ htransfer]
        exact (processRegistrationTx_changes _ _ _).unlockKept.trans
          (processContributionTx_unlockKept _ _ _ _ _)
      · exact hkept (processTx_stateChange _ _ _ hchange).unlockKept
      · rw [processTx_unlock _ _ _ hunlock] at hinfo' hkept
        cases haccepted : processKeyImageUnlockTx env (processTxs env input.history
            input.altStates s input.block (input.txs.take n)).1 (getBlockHeight input.block) tx with
        | none =>
          rw [haccepted] at hkept
          exact hkept (UnlockKept.refl _ _)
        | some s' =>
          rw [haccepted, Option.getD_some] at hinfo'
          obtain ⟨key, info, hinfo, -, hs'⟩ := processKeyImageUnlockTx_eq_some haccepted
          by_cases hkey : node = key
          · subst hkey
            have hi' : info' = { info with
                requestedUnlockHeight := getLockedKeyImageUnlockHeight env.nettype
                  info.registrationHeight (getBlockHeight input.block) } := by
              rw [hs'] at hinfo'
              simpa using hinfo'.symm
            exact Or.inr ⟨n, tx, s', info', htx, hunlock, haccepted, hinfo', rfl, by rw [hi']; rfl⟩
          · rw [hs', lookup_insert_ne hkey] at hinfo'
            exact ih hinfo' hset

/-- Every unlock height in a run goes back to an accepted unlock of the run. -/
theorem unlock_origin (env : Env) (height : ℕ) (inputs : List BlockInput)
    (hinfo : (applyBlocks env { height } inputs).serviceNodesInfos.lookup node = some info)
    (hset : info.requestedUnlockHeight ≠ keyImageAwaitingUnlockHeight) :
    ∃ pre input post, inputs = pre ++ input :: post ∧
      UnlockAccepted env (applyBlocks env { height } pre) input node
        info.requestedUnlockHeight := by
  induction inputs using List.reverseRecOn generalizing info with
  | nil => simp at hinfo
  | append_singleton inputs input ih =>
    rw [applyBlocks_append_singleton] at hinfo
    obtain ⟨info₁, hinfo₁, heq₁⟩ := (updateFromBlock_processTxs_changes input.history
      input.altStates _ input.txs).unlockKept info hinfo hset
    rw [← heq₁] at hset ⊢
    rw [← take_length (l := input.txs)] at hinfo₁
    rcases processTxs_unlock env _ input _ hinfo₁ hset with ⟨info₀, hinfo₀, heq₀⟩ | haccepted
    · rw [← heq₀] at hset ⊢
      obtain ⟨pre, b, post, rfl, hb⟩ := ih hinfo₀ hset
      exact ⟨pre, b, post ++ [input], by simp, hb⟩
    · exact ⟨inputs, input, [], rfl, haccepted⟩

end UnlockHeights

section Release

variable {env : Env} {block : Block} {s s' : State} {node : PublicKey} {keyImage : KeyImage}

/-- Whatever a block does, an unlock height is older than it or not behind it. -/
theorem Changes.unlockHeight (hc : Changes env block s s')
    (hinfo' : s'.serviceNodesInfos.lookup node = some info')
    (hset : info'.requestedUnlockHeight ≠ keyImageAwaitingUnlockHeight)
    (hpassed : info'.requestedUnlockHeight < getBlockHeight block) :
    ∃ info, s.serviceNodesInfos.lookup node = some info ∧
      info.requestedUnlockHeight = info'.requestedUnlockHeight := by
  induction hc generalizing info' with
  | refl => exact ⟨info', hinfo', rfl⟩
  | @tail m s' _ hstep ih =>
    have hkept : UnlockKept m s' node → ∃ info, s.serviceNodesInfos.lookup node = some info ∧
        info.requestedUnlockHeight = info'.requestedUnlockHeight := by
      intro hk
      obtain ⟨info, hinfo, heq⟩ := hk info' hinfo' hset
      rw [← heq] at hset hpassed ⊢
      exact ih hinfo hset hpassed
    cases hstep with
    | passive hpassive => exact hkept hpassive.unlockKept
    | contribution names parses hinfo accepts =>
      exact hkept (unlockKept_insert fun _ => ⟨_, hinfo, rfl⟩)
    | unlock accepted =>
      obtain ⟨key, info, hinfo, -, rfl⟩ := processKeyImageUnlockTx_eq_some accepted
      grind [lookup_insert, getLockedKeyImageUnlockHeight, lookup_insert_ne]

theorem Change.blacklists (hc : Change env block s s') {unlockHeight : ℕ}
    (h : Blacklists s keyImage unlockHeight) (hlater : getBlockHeight block < unlockHeight) :
    Blacklists s' keyImage unlockHeight := by
  obtain ⟨e, he, hk, hu⟩ := h
  cases hc with
  | contribution => exact ⟨e, he, hk, hu⟩
  | unlock accepted =>
    obtain ⟨key, info, -, -, rfl⟩ := processKeyImageUnlockTx_eq_some accepted
    exact ⟨e, he, hk, hu⟩
  | passive hpassive =>
    cases hpassive with
    | start => exact ⟨e, mem_filter.mpr ⟨he, by simpa [hu] using hlater⟩, hk, hu⟩
    | @stateChange _ key info state hinfo applies =>
      cases state <;> simp only [applyStateChange] at applies
      case deregister =>
        grind [Blacklists]
      all_goals
        split_ifs at applies
        rw [← Option.some.inj applies]
        exact ⟨e, he, hk, hu⟩
    | _ => exact ⟨e, he, hk, hu⟩

theorem Changes.blacklists (hc : Changes env block s s') {unlockHeight : ℕ}
    (h : Blacklists s keyImage unlockHeight) (hlater : getBlockHeight block < unlockHeight) :
    Blacklists s' keyImage unlockHeight := by
  induction hc with
  | refl => exact h
  | tail _ hstep ih => exact hstep.blacklists ih hlater

/-- The block deregisters the node at a moment when it holds the key image, and
leaves the key image on the blacklist for the full lock time. -/
def MovesToBlacklist (env : Env) (block : Block) (s s' : State) (node : PublicKey)
    (keyImage : KeyImage) : Prop :=
  (∃ m m', Changes env block s m ∧ Holds m node keyImage ∧ Deregisters env block m m' node ∧
    Changes env block m' s') ∧
  Blacklists s' keyImage (getBlockHeight block + stakingNumLockBlocks env.nettype)

/-- What one block can do to a staked key image. -/
theorem Changes.holds (hc : Changes env block s s') (h16 : 16 ≤ block.majorVersion)
    (h : Holds s node keyImage) :
    Holds s' node keyImage ∨ Overdue s block node ∨
      MovesToBlacklist env block s s' node keyImage := by
  induction hc with
  | refl => exact Or.inl h
  | @tail m s' hrun hstep ih =>
    rcases ih with hholds | hoverdue | ⟨⟨m₁, m₂, hrun₁, hholds, hdereg, hrun₂⟩, hblacklisted⟩
    · rcases hstep.holds h16 hholds with hholds' | ⟨info', hinfo', hset,
        hpassed⟩ | hmoved <;> grind [MovesToBlacklist, Overdue, Changes.unlockHeight]
    · exact Or.inr (Or.inl hoverdue)
    · have hlock := stakingNumLockBlocks_pos env.nettype
      exact Or.inr (Or.inr ⟨⟨m₁, m₂, hrun₁, hholds, hdereg, hrun₂.tail hstep⟩,
        hstep.blacklists hblacklisted (by omega)⟩)

theorem applyBlocks_blacklists (env : Env) (s : State) (inputs : List BlockInput) {unlockHeight : ℕ}
    (h : Blacklists s keyImage unlockHeight) :
    Blacklists (applyBlocks env s inputs) keyImage unlockHeight ∨
      ∃ input ∈ inputs, unlockHeight ≤ getBlockHeight input.block := by
  induction inputs generalizing s with
  | nil => exact Or.inl h
  | cons input inputs ih =>
    by_cases hlater : getBlockHeight input.block < unlockHeight
    · have hnext := Changes.blacklists (applyBlock_changes env s input) h hlater
      rcases ih _ hnext with hkept | ⟨b, hb, hreached⟩
      · exact Or.inl hkept
      · exact Or.inr ⟨b, mem_cons_of_mem _ hb, hreached⟩
    · exact Or.inr ⟨input, mem_cons_self, by omega⟩

end Release

section CheckTxInputs

/-- What `check_tx_inputs` asks of the chain besides the service node list: the
checks of ring members and signatures, and those after its loop over the inputs,
are left arbitrary. -/
structure ChainView where
  hardForkVersion : ℕ
  threads : ℕ
  numOutputs : UInt64 → ℕ
  haveTxKeyimgAsSpent : KeyImage → Bool
  checkTxInput : Transaction → ℕ → Bool
  checkRingSignature : Transaction → ℕ → Bool
  checkAfterInputs : Transaction → Bool
  checkOtherType : Transaction → Bool

def minVersionForHf (hardForkVersion : ℕ) : ℕ :=
  if hardForkVersion < 14 then 1 else if hardForkVersion < 16 then 2 else 3

def maxVersionForHf (hardForkVersion : ℕ) : ℕ := if hardForkVersion < 16 then 2 else 3

def typeAllowedForHf (hardForkVersion : ℕ) (txType : TxType) : Bool :=
  16 ≤ hardForkVersion || txType = .standard

/-- The smallest number of decoys of an input, in the wrapping arithmetic of the source. -/
def mixin (vin : List TxIn) : ℕ :=
  vin.foldl (fun m txin => match txin with
    | .toKey _ keyOffsets _ => min m ((keyOffsets.length + uint64Max) % 2 ^ 64)
    | _ => m) uint64Max

/-- Amounts with too few outputs on the chain for a full ring. -/
def isUnmixable (view : ChainView) (minMixin : ℕ) : TxIn → Bool
  | .toKey amount _ _ => amount ≠ 0 && view.numOutputs amount ≤ minMixin
  | _ => false

def isMixable (view : ChainView) (minMixin : ℕ) : TxIn → Bool
  | .toKey amount _ _ => amount = 0 || minMixin < view.numOutputs amount
  | _ => false

def checkMixin (view : ChainView) (vin : List TxIn) : Bool :=
  let minMixin := if 13 ≤ view.hardForkVersion then 10 else 6
  if 13 ≤ view.hardForkVersion ∧ mixin vin ≠ 10 then false
  else if mixin vin < minMixin then
    vin.countP (isUnmixable view minMixin) ≠ 0 && vin.countP (isMixable view minMixin) ≤ 1
  else true

def keyImagesOf (vin : List TxIn) : List KeyImage :=
  vin.filterMap fun
    | .toKey _ _ keyImage => some keyImage
    | _ => none

/-- The loop over the inputs of a transfer. -/
def checkInputsFrom (view : ChainView) (s : State) (tx : Transaction) : List TxIn → ℕ → Bool
  | [], _ => true
  | .toKey _ keyOffsets keyImage :: rest, sigIndex =>
    !keyOffsets.isEmpty && !view.haveTxKeyimgAsSpent keyImage &&
    (tx.version ≠ 1 || sigIndex < tx.signatures.length) &&
    view.checkTxInput tx sigIndex &&
    (tx.version ≠ 1 || 1 < view.threads || view.checkRingSignature tx sigIndex) &&
    (view.hardForkVersion < 16 ||
      !s.keyImageBlacklist.any (fun entry => entry.keyImage = keyImage) &&
        !s.isKeyImageLocked keyImage) &&
    checkInputsFrom view s tx rest (sigIndex + 1)
  | _ :: _, _ => false

def checkTxInputs (view : ChainView) (s : State) (tx : Transaction) : Bool :=
  minVersionForHf view.hardForkVersion ≤ tx.version &&
  tx.version ≤ maxVersionForHf view.hardForkVersion &&
  typeAllowedForHf view.hardForkVersion tx.txType &&
  if tx.isTransfer then
    checkMixin view tx.vin &&
    (view.hardForkVersion < 7 || decide ((keyImagesOf tx.vin).IsChain (· > ·))) &&
    checkInputsFrom view s tx tx.vin 0 &&
    view.checkAfterInputs tx
  else view.checkOtherType tx

/-- The key image is staked in a registered node or blacklisted. -/
def Unspendable (s : State) (keyImage : KeyImage) : Prop :=
  s.isKeyImageLocked keyImage = true ∨ ∃ e ∈ s.keyImageBlacklist, e.keyImage = keyImage

theorem checkInputsFrom_unspendable (h16 : 16 ≤ view.hardForkVersion)
    (h : Unspendable s keyImage) (tx : Transaction) {vin : List TxIn}
    (hspends : keyImage ∈ keyImagesOf vin) (sigIndex : ℕ) :
    checkInputsFrom view s tx vin sigIndex = false := by
  induction vin generalizing sigIndex with
  | nil => simp [keyImagesOf] at hspends
  | cons txin rest ih =>
    cases txin with
    | toKey amount keyOffsets k =>
      grind [keyImagesOf, Unspendable, checkInputsFrom]
    | _ => rfl

theorem checkTxInputs_unspendable (h16 : 16 ≤ view.hardForkVersion)
    (h : Unspendable s keyImage) (htransfer : tx.isTransfer = true)
    (hspends : keyImage ∈ keyImagesOf tx.vin) :
    checkTxInputs view s tx = false := by
  simp [checkTxInputs, htransfer, checkInputsFrom_unspendable h16 h tx hspends]

end CheckTxInputs

section Lifetime

variable (env : Env) (s : State) (inputs : List BlockInput) (node : PublicKey)
  (keyImage : KeyImage)

/-- A block of the run finds the node overdue while it holds the key image. -/
def Expires : Prop :=
  ∃ pre input post, inputs = pre ++ input :: post ∧ Holds (applyBlocks env s pre) node keyImage ∧
    Overdue (applyBlocks env s pre) input.block node

/-- A block of the run deregisters the node, and the key image is then blacklisted
until a block reaches the end of the lock time. -/
def BlacklistedForLockTime : Prop :=
  ∃ pre input post, inputs = pre ++ input :: post ∧
    MovesToBlacklist env input.block (applyBlocks env s pre)
      (applyBlock env (applyBlocks env s pre) input) node keyImage ∧
    (Blacklists (applyBlocks env s inputs) keyImage
        (getBlockHeight input.block + stakingNumLockBlocks env.nettype) ∨
      ∃ b ∈ post, getBlockHeight input.block + stakingNumLockBlocks env.nettype ≤
        getBlockHeight b.block)

variable {env s inputs node keyImage}

/-- Along a run a staked key image stays where it is, or the node is overdue, or the
key image goes to the blacklist. -/
theorem applyBlocks_holds (h16 : ∀ input ∈ inputs, 16 ≤ input.block.majorVersion)
    (h : Holds s node keyImage) :
    Holds (applyBlocks env s inputs) node keyImage ∨ Expires env s inputs node keyImage ∨
      BlacklistedForLockTime env s inputs node keyImage := by
  induction inputs generalizing s with
  | nil => exact Or.inl h
  | cons input inputs ih =>
    have hblock := Changes.holds (applyBlock_changes env s input) (h16 input mem_cons_self) h
    rcases hblock with hholds | hoverdue | hmoved
    · rcases ih (fun b hb => h16 b (mem_cons_of_mem _ hb)) hholds with
        hholds' | ⟨pre, b, post, rfl, hexpires⟩ | ⟨pre, b, post, rfl, hmoved, hlock⟩
      · exact Or.inl hholds'
      · exact Or.inr (Or.inl ⟨input :: pre, b, post, rfl, hexpires⟩)
      · exact Or.inr (Or.inr ⟨input :: pre, b, post, rfl, hmoved, hlock⟩)
    · exact Or.inr (Or.inl ⟨[], input, inputs, rfl, h, hoverdue⟩)
    · exact Or.inr (Or.inr ⟨[], input, inputs, rfl, hmoved,
        applyBlocks_blacklists env _ inputs hmoved.2⟩)

end Lifetime

/-- A staked key image stays locked in its node, unless a later block finds the
node overdue with the key image still in it, with an unlock height that an accepted
unlock has set, or deregisters it, which blacklists the key image for the full lock
time. While it is locked or blacklisted no transfer that spends it passes. -/
theorem staked_output_stays_locked (env : Env) (height : ℕ) (before after : List BlockInput)
    (h16 : ∀ input ∈ after, 16 ≤ input.block.majorVersion) {node : PublicKey}
    {keyImage : KeyImage} (h : Holds (applyBlocks env { height } before) node keyImage) :
    ((applyBlocks env { height } (before ++ after)).isKeyImageLocked keyImage = true ∨
      (∃ pre input post info, after = pre ++ input :: post ∧
        Holds (applyBlocks env { height } (before ++ pre)) node keyImage ∧
        (applyBlocks env { height } (before ++ pre)).serviceNodesInfos.lookup node = some info ∧
        info.requestedUnlockHeight < getBlockHeight input.block ∧
        ∃ earlier b later, before ++ pre = earlier ++ b :: later ∧
          UnlockAccepted env (applyBlocks env { height } earlier) b node
            info.requestedUnlockHeight) ∨
      BlacklistedForLockTime env (applyBlocks env { height } before) after node keyImage) ∧
    ∀ (view : ChainView) (tx : Transaction), 16 ≤ view.hardForkVersion →
      Unspendable (applyBlocks env { height } (before ++ after)) keyImage →
      tx.isTransfer = true → keyImage ∈ keyImagesOf tx.vin →
      checkTxInputs view (applyBlocks env { height } (before ++ after)) tx = false := by
  refine ⟨?_, fun view tx hversion hstaked htransfer hspends =>
    checkTxInputs_unspendable hversion hstaked htransfer hspends⟩
  rcases applyBlocks_holds h16 h with hholds | ⟨pre, input, post, rfl, hheld, hoverdue⟩ | hmoved
  · rw [applyBlocks_append]
    exact Or.inl (isKeyImageLocked_iff.mpr ⟨node, hholds⟩)
  · obtain ⟨info, hinfo, hset, hpassed⟩ := hoverdue
    rw [← applyBlocks_append] at hinfo hheld
    exact Or.inr (Or.inl ⟨pre, input, post, info, rfl, hheld, hinfo, hpassed,
      unlock_origin env height _ hinfo hset⟩)
  · exact Or.inr (Or.inr hmoved)

section Sample

def registrationBlock : BlockInput where
  history := OrderedTable.empty
  altStates := []
  block := sampleBlock 16 160
  txs := (List.range' 1 11).map fullRegistration

/-- Deregisters the one node that the quorum of `registrationBlock` tests. -/
def deregistrationBlock : BlockInput where
  history := OrderedTable.empty.insert (applyBlocks sampleEnv { height := 159 } [registrationBlock])
  altStates := []
  block := sampleBlock 16 161
  txs := [deregistrationTx 160]

end Sample

theorem registered_output_blacklisted :
    Holds (applyBlocks sampleEnv { height := 159 } [registrationBlock]) 10 10 ∧
    BlacklistedForLockTime sampleEnv (applyBlocks sampleEnv { height := 159 } [registrationBlock])
      [deregistrationBlock] 10 10 ∧
    ∀ (view : ChainView) (tx : Transaction), 16 ≤ view.hardForkVersion → tx.isTransfer = true →
      10 ∈ keyImagesOf tx.vin →
      checkTxInputs view (applyBlocks sampleEnv { height := 159 }
        [registrationBlock, deregistrationBlock]) tx = false := by
  have hholds : Holds (applyBlocks sampleEnv { height := 159 } [registrationBlock]) 10 10 := by
    refine ⟨((applyBlocks sampleEnv { height := 159 } [registrationBlock]).serviceNodesInfos.lookup
      10).getD {}, ?_⟩
    decide +kernel
  have hblacklisted : ∃ e ∈ (applyBlocks sampleEnv { height := 159 }
      [registrationBlock, deregistrationBlock]).keyImageBlacklist, e.keyImage = 10 := by
    decide +kernel
  obtain ⟨hlocked, hrefused⟩ := staked_output_stays_locked sampleEnv 159 [registrationBlock]
    [deregistrationBlock] (by decide) hholds
  refine ⟨hholds, ?_, fun view tx hversion => hrefused view tx hversion (Or.inr hblacklisted)⟩
  rcases hlocked with hlocked | ⟨pre, input, post, info, hsplit, -, -, hpassed, hunlock⟩ | hmoved
  · exact absurd hlocked (by decide +kernel)
  · obtain ⟨earlier, b, later, hearlier, hunlock⟩ := hunlock
    obtain ⟨i, tx, s', info', -, -, -, -, -, hheight⟩ := hunlock
    have hinput : input ∈ [deregistrationBlock] := by simp [hsplit]
    have hpre : pre = [] := by
      cases pre with
      | nil => rfl
      | cons c cs => simp at hsplit
    have hb : b ∈ [registrationBlock] := by
      rw [hpre, append_nil] at hearlier
      simp [hearlier]
    rw [mem_singleton.mp hinput, hheight, mem_singleton.mp hb] at hpassed
    exact absurd hpassed (by decide)
  · exact hmoved

/-- One block after its registration a node is deregistered: its key image is no
longer reported as locked, though no transfer may spend it for the full lock time. -/
theorem deregistered_output_not_locked :
    (applyBlocks sampleEnv { height := 159 } [registrationBlock]).isKeyImageLocked 10 = true ∧
    (applyBlocks sampleEnv { height := 159 }
      [registrationBlock, deregistrationBlock]).isKeyImageLocked 10 = false ∧
    getBlockHeight deregistrationBlock.block <
      getBlockHeight deregistrationBlock.block + stakingNumLockBlocks sampleEnv.nettype := by
  decide +kernel

end Arqma.ServiceNodes
