import Arqma.Finality

/-!
# The point where two chains part

A node that wants to sync lists hashes of its chain: the last eleven, then ever fewer, and the
genesis block. The other node looks for the first of them that it has. What is found is the fork
itself if that is among the last eleven blocks, and otherwise less than twice as deep.
-/
namespace Arqma.Chain
open Arqma.Cryptonote List

section History

/-- The stride is doubled from the eleventh block on. -/
def nextDecr (i decr : ℕ) : ℕ := if 10 ≤ i then decr * 2 else decr

/-- The loop of `get_short_chain_history`, as the heights that are read. -/
def historyLoop (sz : ℕ) : ℕ → ℕ → ℕ → ℕ → List ℕ
  | 0, _, _, _ => []
  | fuel + 1, i, decr, offset =>
    if offset < sz then
      (sz - offset) ::
        historyLoop sz fuel (i + 1) (nextDecr i decr) (offset + nextDecr i decr)
    else []

def historyHeights (sz : ℕ) : List ℕ := historyLoop sz sz 0 1 1 ++ [0]

namespace ChainState

/-- Nothing is thrown below the height of the chain. -/
def blockHashFromHeight (s : ChainState) (height : ℕ) : Option Hash :=
  s.main[height]?.map fun entry => entry.block.hash

def getShortChainHistory (s : ChainState) : Option (List Hash) :=
  if s.height = 0 then some [] else (historyHeights s.height).mapM s.blockHashFromHeight

/-- `block_exists` with the height of the block. -/
def findBlockHeight (s : ChainState) (id : Hash) : Option ℕ :=
  s.main.findIdx? fun entry => entry.block.hash = id

/-- A list that does not end with the genesis block is refused. -/
def findBlockchainSupplement (s : ChainState) (qblockIds : List Hash) : Option ℕ :=
  match qblockIds.getLast? with
  | none => none
  | some last =>
    if s.blockHashFromHeight 0 ≠ some last then none else qblockIds.findSome? s.findBlockHeight

end ChainState

/-- What holds of the counters whenever the loop comes round. -/
structure Stride (i decr offset : ℕ) : Prop where
  pos : 0 < decr
  near : i ≤ 10 → decr = 1 ∧ offset = i + 1
  far : 10 ≤ i → 2 * decr ≤ offset ∧ 10 < offset

theorem stride_start : Stride 0 1 1 := ⟨by decide, fun _ => ⟨rfl, rfl⟩, fun h => by omega⟩

theorem Stride.step {i decr offset : ℕ} (h : Stride i decr offset) :
    Stride (i + 1) (nextDecr i decr) (offset + nextDecr i decr) := by
  obtain ⟨hpos, hnear, hfar⟩ := h
  unfold nextDecr
  split_ifs with hi
  · exact ⟨by omega, fun _ => by omega, fun _ => by have := hfar hi; omega⟩
  · obtain ⟨hdecr, hoffset⟩ := hnear (by omega)
    exact ⟨hpos, fun _ => ⟨hdecr, by omega⟩, fun _ => by omega⟩

/-- The heights go down from the offset and stay above the genesis block. -/
theorem historyLoop_sorted (sz fuel : ℕ) {i decr offset : ℕ} (h : Stride i decr offset) :
    (historyLoop sz fuel i decr offset).Pairwise (· > ·) ∧
      ∀ height ∈ historyLoop sz fuel i decr offset, 0 < height ∧ height + offset ≤ sz := by
  induction fuel generalizing i decr offset with
  | zero => exact ⟨List.Pairwise.nil, fun _ hmem => absurd hmem not_mem_nil⟩
  | succ fuel ih =>
    rw [historyLoop]
    split_ifs with hlt
    · have hnext := h.step
      obtain ⟨hsorted, hbelow⟩ := ih hnext
      have hstep := hnext.pos
      refine ⟨pairwise_cons.mpr ⟨fun height hheight => ?_, hsorted⟩, ?_⟩
      · have := (hbelow height hheight).2
        omega
      · refine forall_mem_cons.mpr ⟨by omega, fun height hheight => ?_⟩
        obtain ⟨hpos, hle⟩ := hbelow height hheight
        omega
    · exact ⟨List.Pairwise.nil, fun _ hmem => absurd hmem not_mem_nil⟩

theorem historyHeights_sorted (sz : ℕ) :
    (historyHeights sz).Pairwise (· > ·) ∧ (historyHeights sz).getLast? = some 0 ∧
      ∀ height ∈ historyHeights sz, height < sz ∨ height = 0 := by
  obtain ⟨hsorted, hbelow⟩ := historyLoop_sorted sz sz stride_start
  refine ⟨?_, by rw [historyHeights, getLast?_concat], ?_⟩ <;> grind [historyHeights]

/-- Where the search for a fork at height `f`, `d` blocks below the tip, may end. -/
structure NearFork (f d s : ℕ) : Prop where
  le : s ≤ f
  exact_of_shallow : d ≤ 10 → s = f
  depth_le : f + d ≤ s + 2 * d

/-- An offset that the search may come to. -/
structure InReach (d offset : ℕ) : Prop where
  le : offset ≤ 2 * d + 1
  le_of_shallow : d ≤ 10 → offset ≤ d + 1

theorem InReach.step {i decr offset d : ℕ} (hstride : Stride i decr offset) (hle : offset ≤ d) :
    InReach d (offset + nextDecr i decr) := by
  unfold nextDecr
  split_ifs with hi
  · have := hstride.far hi
    exact ⟨by omega, fun _ => by omega⟩
  · have := hstride.near (by omega)
    exact ⟨by omega, fun _ => by omega⟩

/-- A height at or below the fork that is not deeper than the offset. -/
theorem InReach.nearFork {d offset f s : ℕ} (h : InReach d offset) (hle : s ≤ f)
    (hdeep : f + d + 1 ≤ s + offset) : NearFork f d s := by
  have hreach := h.le
  refine ⟨hle, fun hd => ?_, by omega⟩
  have := h.le_of_shallow hd
  omega

/-- The first height at or below the fork that is read. The stride is at most the offset before it,
so that the search passes the fork by less than its depth. -/
theorem find_historyLoop {sz fuel i decr offset f d : ℕ} (hstride : Stride i decr offset)
    (hfuel : sz ≤ fuel + offset) (hdepth : f + d + 1 = sz) (hreach : InReach d offset) :
    ∃ s, (historyLoop sz fuel i decr offset ++ [0]).find? (· ≤ f) = some s ∧ NearFork f d s := by
  induction fuel generalizing i decr offset with
  | zero => exact ⟨0, by simp [historyLoop], hreach.nearFork (Nat.zero_le f) (by omega)⟩
  | succ fuel ih =>
    rw [historyLoop]
    split_ifs with hlt
    · by_cases hfound : sz - offset ≤ f
      · exact ⟨sz - offset, by simp [hfound], hreach.nearFork hfound (by omega)⟩
      · have hnext := hstride.step
        have hpos := hnext.pos
        grind [InReach.step]
    · exact ⟨0, by simp, hreach.nearFork (Nat.zero_le f) (by omega)⟩

theorem find_historyHeights {sz f d : ℕ} (hdepth : f + d + 1 = sz) :
    ∃ s, (historyHeights sz).find? (· ≤ f) = some s ∧ NearFork f d s :=
  find_historyLoop stride_start (by omega) hdepth ⟨by omega, fun _ => by omega⟩

end History

section Fork

/-- The chains agree up to height `f`, and the other chain has none of the later blocks. Blocks
with the same hash are the same, and a chain has no block twice. -/
structure ForkAt (a b : ChainState) (f : ℕ) : Prop where
  lt : f < a.height
  shared : a.blocks.take (f + 1) <+: b.blocks
  parted : ∀ block ∈ a.blocks.drop (f + 1), block ∉ b.blocks
  nodup : b.blocks.Nodup
  hash_inj : ∀ block ∈ a.blocks ++ b.blocks, ∀ other ∈ b.blocks,
    block.hash = other.hash → block = other

variable {a b : ChainState} {f : ℕ}

theorem blockHashFromHeight_eq (s : ChainState) (height : ℕ) :
    s.blockHashFromHeight height = s.blocks[height]?.map Block.hash := by
  rw [ChainState.blockHashFromHeight, ChainState.blocks, getElem?_map, Option.map_map]
  rfl

theorem findBlockHeight_eq (s : ChainState) (id : Hash) :
    s.findBlockHeight id = s.blocks.findIdx? fun block => block.hash = id := by
  rw [ChainState.findBlockHeight, ChainState.blocks, findIdx?_map]
  rfl

theorem length_blocks (s : ChainState) : s.blocks.length = s.height := length_map _

theorem ForkAt.getElem? (h : ForkAt a b f) {height : ℕ} (hle : height ≤ f) :
    b.blocks[height]? = a.blocks[height]? := by
  have hlt := h.lt
  rw [← length_blocks] at hlt
  obtain ⟨rest, hrest⟩ := h.shared
  rw [← hrest, getElem?_append_left (by rw [length_take]; omega), getElem?_take_of_lt (by omega)]

/-- The other chain has a listed block exactly if it is not above the fork, and at its height. -/
theorem ForkAt.findBlockHeight (h : ForkAt a b f) {height : ℕ} {id : Hash}
    (hid : a.blockHashFromHeight height = some id) :
    b.findBlockHeight id = if height ≤ f then some height else none := by
  rw [blockHashFromHeight_eq] at hid
  obtain ⟨block, hblock, rfl⟩ := Option.map_eq_some_iff.mp hid
  rw [findBlockHeight_eq]
  split_ifs with hle
  · have hother : b.blocks[height]? = some block := (h.getElem? hle).trans hblock
    obtain ⟨hlt, hget⟩ := List.getElem?_eq_some_iff.mp hother
    rw [List.findIdx?_eq_some_iff_getElem]
    refine ⟨hlt, by rw [hget]; exact decide_eq_true rfl, fun i hi => ?_⟩
    -- An earlier block with the hash would be the same block.
    intro hsame
    have hmem : b.blocks[i] ∈ b.blocks := getElem_mem _
    have heq := h.hash_inj b.blocks[i] (mem_append_right _ hmem) block
      (mem_of_getElem? hother) (of_decide_eq_true hsame)
    rw [← hget] at heq
    exact absurd ((List.Nodup.getElem_inj_iff h.nodup).mp heq) (by omega)
  · rw [findIdx?_eq_none_iff]
    intro other hother
    refine decide_eq_false fun hsame => ?_
    have heq := h.hash_inj block (mem_append_left _ (mem_of_getElem? hblock)) other hother
      hsame.symm
    have hlater : block ∈ a.blocks.drop (f + 1) := by
      rw [mem_iff_getElem?]
      refine ⟨height - (f + 1), ?_⟩
      rw [getElem?_drop, ← hblock]
      congr 1
      omega
    exact h.parted block hlater (heq ▸ hother)

theorem mapM_blockHashFromHeight (s : ChainState) (heights : List ℕ)
    (h : ∀ height ∈ heights, height < s.height) :
    ∃ ids, heights.mapM s.blockHashFromHeight = some ids ∧
      List.Forall₂ (fun id height => s.blockHashFromHeight height = some id) ids heights := by
  induction heights with
  | nil => exact ⟨[], rfl, List.Forall₂.nil⟩
  | cons height rest ih =>
    obtain ⟨hfirst, hrest⟩ := forall_mem_cons.mp h
    obtain ⟨ids, hids, hforall⟩ := ih hrest
    obtain ⟨id, hid⟩ : ∃ id, s.blockHashFromHeight height = some id := by
      rw [ChainState.blockHashFromHeight, getElem?_eq_getElem hfirst]
      exact ⟨_, rfl⟩
    refine ⟨id :: ids, ?_, List.Forall₂.cons hid hforall⟩
    rw [mapM_cons, hid, hids]
    rfl

theorem forall₂_getLast? {α β : Type*} {r : α → β → Prop} {l : List α} {l' : List β}
    (h : List.Forall₂ r l l') {y : β} (hy : l'.getLast? = some y) :
    ∃ x, l.getLast? = some x ∧ r x y := by
  have hreverse := forall₂_reverse_iff.mpr h
  rw [← head?_reverse] at hy ⊢
  generalize l.reverse = back, l'.reverse = back' at hy hreverse ⊢
  cases hreverse with
  | nil => cases hy
  | cons hfirst _ => exact ⟨_, rfl, Option.some.inj hy ▸ hfirst⟩

theorem ForkAt.findSome? (h : ForkAt a b f) {ids : List Hash} {heights : List ℕ}
    (hids : List.Forall₂ (fun id height => a.blockHashFromHeight height = some id) ids heights) :
    ids.findSome? b.findBlockHeight = heights.find? (· ≤ f) := by
  induction hids with
  | nil => rfl
  | cons hid _ ih =>
    grind [h.findBlockHeight]

/-- The list of one node and the search of the other find a common block: the fork itself if it is
at most ten blocks deep, and otherwise one at most twice as deep. -/
theorem sync_finds_fork_point (a b : ChainState) (f : ℕ) (h : ForkAt a b f) :
    let tip := a.height - 1
    let d := tip - f
    ∃ ids heights s, a.getShortChainHistory = some ids ∧
      List.Forall₂ (fun id height => a.blockHashFromHeight height = some id) ids heights ∧
      heights.Pairwise (· > ·) ∧ heights.getLast? = some 0 ∧
      b.findBlockchainSupplement ids = some s ∧
      a.blocks[s]? = b.blocks[s]? ∧ s ≤ f ∧ (d ≤ 10 → s = f) ∧ tip - s ≤ 2 * d := by
  intro tip d
  have hlt := h.lt
  have hdepth : f + d + 1 = a.height := by omega
  obtain ⟨hsorted, hlast, hbelow⟩ := historyHeights_sorted a.height
  obtain ⟨ids, hids, hforall⟩ := mapM_blockHashFromHeight a (historyHeights a.height)
    fun height hheight => by have := hbelow height hheight; omega
  obtain ⟨s, hfind, hnear⟩ := find_historyHeights hdepth
  refine ⟨ids, historyHeights a.height, s, ?_, hforall, hsorted, hlast, ?_, ?_, hnear.le,
    hnear.exact_of_shallow, ?_⟩
  · rw [ChainState.getShortChainHistory, if_neg (by omega), hids]
  · obtain ⟨id, hid, hgenesis⟩ := forall₂_getLast? hforall hlast
    have hsame : b.blockHashFromHeight 0 = some id := by
      rw [blockHashFromHeight_eq, h.getElem? (Nat.zero_le f), ← blockHashFromHeight_eq, hgenesis]
    rw [ChainState.findBlockchainSupplement, hid]
    simp only [hsame, ne_eq, not_true_eq_false, if_false]
    rw [h.findSome? hforall, hfind]
  · exact (h.getElem? hnear.le).symm
  · have := hnear.depth_le
    omega

/-- A chain of 30 blocks asks one that has only the first 13 of them. -/
theorem deep_fork_found :
    ∃ ids heights s, (sampleChain 17 30 OrderedTable.empty).getShortChainHistory = some ids ∧
      List.Forall₂ (fun id height =>
        (sampleChain 17 30 OrderedTable.empty).blockHashFromHeight height = some id) ids heights ∧
      heights.Pairwise (· > ·) ∧ heights.getLast? = some 0 ∧
      (sampleChain 17 13 OrderedTable.empty).findBlockchainSupplement ids = some s ∧
      (sampleChain 17 30 OrderedTable.empty).blocks[s]? =
        (sampleChain 17 13 OrderedTable.empty).blocks[s]? ∧
      s ≤ 12 ∧ (29 - 12 ≤ 10 → s = 12) ∧ 29 - s ≤ 2 * (29 - 12) :=
  sync_finds_fork_point (sampleChain 17 30 OrderedTable.empty)
    (sampleChain 17 13 OrderedTable.empty) 12
    ⟨by decide, by decide, by decide, by decide,
      by decide⟩

end Fork

end Arqma.Chain
