import Arqma.Finality

/-!
# The difficulty of the next block

The difficulty is computed from the timestamps and the cumulative difficulties of the last blocks,
the genesis block apart. On the main chain the window is kept and moved on by one block at a time;
for an alternative chain it is put together from the branch and the main chain below it. Both give
the last blocks of the chain that the next block extends. The algorithms that read the window are
parameters.
-/
namespace Arqma.Chain
open Arqma.Cryptonote List

/-- Zero stands for no fixed difficulty. -/
structure DifficultyEnv where
  fixedDifficulty : ℕ
  nextDifficulty : List UInt64 → List ℕ → ℕ → ℕ
  nextDifficultyLwma : List UInt64 → List ℕ → ℕ → ℕ
  nextDifficultyLwma4 : List UInt64 → List ℕ → ℕ
  nextDifficultyV16 : List UInt64 → List ℕ → ℕ

def difficultyTargetV2 : ℕ := 240

def getDifficultyBlocksCount (version : ℕ) : ℕ :=
  if version < 7 then 735
  else if version < 9 then 31
  else if version < 10 then 18
  else 91

/-- The genesis block is never read. -/
def skipGenesis (offset : ℕ) : ℕ := if offset = 0 then offset + 1 else offset

theorem skipGenesis_eq (offset : ℕ) : skipGenesis offset = max 1 offset := by
  unfold skipGenesis
  split_ifs <;> omega

/-- How both functions end. -/
def selectDifficulty (env : DifficultyEnv) (version : ℕ) (timestamps : List UInt64)
    (difficulties : List ℕ) : ℕ :=
  if 16 ≤ version then env.nextDifficultyV16 timestamps difficulties
  else if 10 ≤ version then env.nextDifficultyLwma4 timestamps difficulties
  else if 7 ≤ version then env.nextDifficultyLwma timestamps difficulties version
  else env.nextDifficulty timestamps difficulties difficultyTargetV2

section Window

variable {α : Type*}

/-- What is left of a list when entries are erased at the front until `count` are left. -/
def lastEntries (count : ℕ) (l : List α) : List α := l.drop (l.length - count)

/-- The last `count` entries, but never the first of all. -/
def window (count : ℕ) (l : List α) : List α := l.drop (max 1 (l.length - count))

theorem map_lastEntries {β : Type*} (f : α → β) (count : ℕ) (l : List α) :
    (lastEntries count l).map f = lastEntries count (l.map f) := by
  simp only [lastEntries, map_drop, length_map]

theorem length_window (count : ℕ) (l : List α) :
    (window count l).length = min count (l.length - 1) := by
  rw [window, length_drop]
  omega

/-- A full window moves on with the list. -/
theorem lastEntries_window_append {count old : ℕ} {l : List α} (last : α)
    (hfull : count ≤ (window old l).length) :
    lastEntries count (window old l ++ [last]) = window count (l ++ [last]) := by
  have hlength := length_window old l
  have hstart : max 1 (l.length - old) ≤ l.length ∨ window old l = [] := by
    by_cases hle : max 1 (l.length - old) ≤ l.length
    · exact Or.inl hle
    · exact Or.inr (drop_eq_nil_of_le (by omega))
  obtain hle | hnil := hstart
  · have happend : window old l ++ [last] = (l ++ [last]).drop (max 1 (l.length - old)) := by
      rw [window, drop_append_of_le_length hle]
    rw [lastEntries, happend, drop_drop, length_drop, window, length_append, length_singleton]
    congr 1
    omega
  · rw [hnil, length_nil] at hfull
    obtain rfl : count = 0 := by omega
    rw [hnil, lastEntries, window]
    simp

/-- The window of a chain that is made of two parts. -/
theorem window_append {count : ℕ} {low high : List α} (hlow : low ≠ [])
    (hhigh : high.length < count) :
    window count (low ++ high) = low.drop (max 1 (low.length - (count - high.length))) ++ high := by
  have hpos := length_pos_of_ne_nil hlow
  rw [window, length_append, ← drop_append_of_le_length (by omega)]
  congr 1
  omega

theorem window_append_of_le {count : ℕ} {low high : List α} (hlow : low ≠ [])
    (hhigh : count ≤ high.length) : window count (low ++ high) = lastEntries count high := by
  have hpos := length_pos_of_ne_nil hlow
  rw [window, length_append, lastEntries, drop_append]
  grind [drop_eq_nil_of_le]

end Window

section Main

/-- The timestamps and difficulties kept from the last call, for a chain of this height. -/
structure DifficultyCache where
  height : ℕ := 0
  timestamps : List UInt64 := []
  difficulties : List ℕ := []

def MainBlock.timestamp (entry : MainBlock) : UInt64 := entry.block.timestamp

/-- The null hash if the chain is empty. -/
def tailHash (main : List MainBlock) : Hash :=
  match main.getLast? with
  | some entry => entry.block.hash
  | none => 0

variable (env : DifficultyEnv) (version : ℕ)

/-- The top hash the difficulty was kept for is the null hash and is never set, with the difficulty
one. -/
def getDifficultyForNextBlock (cache : DifficultyCache) (main : List MainBlock) :
    ℕ × DifficultyCache :=
  if env.fixedDifficulty ≠ 0 then (if main.length ≠ 0 then env.fixedDifficulty else 1, cache)
  else if tailHash main = 0 then (1, cache)
  else
    let height := main.length
    let count := getDifficultyBlocksCount version
    let next : DifficultyCache :=
      if cache.height ≠ 0 ∧ height = cache.height + 1 ∧ count ≤ cache.timestamps.length then
        let index := height - 1
        { height
          timestamps :=
            lastEntries count (cache.timestamps ++ (main.drop index).map MainBlock.timestamp)
          difficulties := lastEntries count
            (cache.difficulties ++ (main.drop index).map MainBlock.cumulativeDifficulty) }
      else
        let offset := skipGenesis (height - min height count)
        { height
          timestamps := (main.drop offset).map MainBlock.timestamp
          difficulties := (main.drop offset).map MainBlock.cumulativeDifficulty }
    (selectDifficulty env version next.timestamps next.difficulties, next)

/-- The first height that is not read from the main chain. -/
def mainChainStopOffset (altChain : List AltBlock) (altBlockHeight : ℕ) : ℕ :=
  match altChain with
  | front :: _ => front.height
  | [] => altBlockHeight

/-- None where a block above the main chain is read, which throws. Zero is the value after a failed
check. -/
def getNextDifficultyForAlternativeChain (main : List MainBlock) (altChain : List AltBlock)
    (altBlockHeight : ℕ) : Option ℕ :=
  if env.fixedDifficulty ≠ 0 then some (if main.length ≠ 0 then env.fixedDifficulty else 1)
  else
    let count := getDifficultyBlocksCount version
    if altChain.length < count then
      let stop := mainChainStopOffset altChain altBlockHeight
      let mainCount := min (count - min count altChain.length) stop
      let start := skipGenesis (stop - mainCount)
      if start < stop ∧ main.length < stop then none
      else
        let blocks := (main.take stop).drop start
        if count < altChain.length + blocks.length then some 0
        else
          some (selectDifficulty env version
            (blocks.map MainBlock.timestamp ++ altChain.map fun entry => entry.block.timestamp)
            (blocks.map MainBlock.cumulativeDifficulty ++
              altChain.map AltBlock.cumulativeDifficulty))
    else
      let blocks := lastEntries count altChain
      some (selectDifficulty env version (blocks.map fun entry => entry.block.timestamp)
        (blocks.map AltBlock.cumulativeDifficulty))

end Main

section Cache

/-- The chain and the kept window. -/
structure DifficultyState where
  main : List MainBlock
  cache : DifficultyCache := {}

inductive DifficultyEvent
  | ask (version : ℕ)
  | add (entry : MainBlock)
  | pop
  /-- An alternative block, a switch or a rollback. -/
  | reset

def DifficultyState.step (env : DifficultyEnv) (s : DifficultyState) :
    DifficultyEvent → DifficultyState
  | .ask version => { s with cache := (getDifficultyForNextBlock env version s.cache s.main).2 }
  | .add entry => { s with main := s.main ++ [entry] }
  | .pop => { main := s.main.dropLast, cache := { s.cache with height := 0 } }
  | .reset => { s with cache := { s.cache with height := 0 } }

def DifficultyState.after (env : DifficultyEnv) (s : DifficultyState)
    (events : List DifficultyEvent) : DifficultyState :=
  events.foldl (DifficultyState.step env) s

/-- What is kept is a window of the chain as it was at the kept height. -/
def CacheOk (main : List MainBlock) (cache : DifficultyCache) : Prop :=
  cache.height ≠ 0 → cache.height ≤ main.length ∧ ∃ count,
    cache.timestamps = (window count (main.take cache.height)).map MainBlock.timestamp ∧
    cache.difficulties = (window count (main.take cache.height)).map MainBlock.cumulativeDifficulty

variable {env : DifficultyEnv} {main : List MainBlock} {cache : DifficultyCache}

/-- With a window that belongs to the chain, the last blocks of the chain are read. -/
theorem getDifficultyForNextBlock_spec (env : DifficultyEnv) (version : ℕ)
    (hcache : CacheOk main cache) (hfixed : env.fixedDifficulty = 0) (htail : tailHash main ≠ 0) :
    let blocks := window (getDifficultyBlocksCount version) main
    getDifficultyForNextBlock env version cache main =
      (selectDifficulty env version (blocks.map MainBlock.timestamp)
          (blocks.map MainBlock.cumulativeDifficulty),
        { height := main.length
          timestamps := blocks.map MainBlock.timestamp
          difficulties := blocks.map MainBlock.cumulativeDifficulty }) := by
  intro blocks
  have hlength : main.length ≠ 0 := by
    intro hzero
    obtain rfl := length_eq_zero_iff.mp hzero
    exact htail rfl
  simp only [getDifficultyForNextBlock, hfixed, ne_eq, not_true_eq_false, if_false, htail]
  split_ifs with hkept
  · -- One block has come since the last call.
    obtain ⟨hheight, hnext, hcount⟩ := hkept
    obtain ⟨-, old, htimestamps, hdifficulties⟩ := hcache hheight
    obtain ⟨last, hlast⟩ := length_eq_one_iff.mp
      (show (main.drop cache.height).length = 1 by rw [length_drop]; omega)
    have hmain : main = main.take cache.height ++ [last] := by
      rw [← hlast, take_append_drop]
    have hmoved : lastEntries (getDifficultyBlocksCount version)
        (window old (main.take cache.height) ++ [last]) = blocks := by
      rw [htimestamps, length_map] at hcount
      rw [lastEntries_window_append last hcount, ← hmain]
    have hindex : main.length - 1 = cache.height := by omega
    simp only [hindex, hlast, htimestamps, hdifficulties, ← map_append, ← map_lastEntries, hmoved]
  · have hoffset : skipGenesis (main.length - min main.length (getDifficultyBlocksCount version)) =
        max 1 (main.length - getDifficultyBlocksCount version) := by
      rw [skipGenesis_eq]
      omega
    rw [hoffset]
    rfl

theorem cacheOk_getDifficultyForNextBlock (env : DifficultyEnv) (version : ℕ)
    (hcache : CacheOk main cache) :
    CacheOk main (getDifficultyForNextBlock env version cache main).2 := by
  by_cases hfixed : env.fixedDifficulty = 0
  · grind [CacheOk, getDifficultyForNextBlock, getDifficultyForNextBlock_spec]
  · simpa only [getDifficultyForNextBlock, ne_eq, hfixed, not_false_eq_true, if_true] using hcache

theorem CacheOk.step {s : DifficultyState} (h : CacheOk s.main s.cache) (event : DifficultyEvent) :
    CacheOk (s.step env event).main (s.step env event).cache := by
  cases event <;> grind [CacheOk, DifficultyState.step, cacheOk_getDifficultyForNextBlock]

theorem CacheOk.after {s : DifficultyState} (h : CacheOk s.main s.cache)
    (events : List DifficultyEvent) :
    CacheOk (s.after env events).main (s.after env events).cache := by
  induction events generalizing s with
  | nil => exact h
  | cons event events ih => exact ih (h.step event)

/-- After any run the answer is the one with nothing kept, and what is kept from then on is just the
window of the last blocks. -/
theorem difficulty_cache_transparent (env : DifficultyEnv) (start : List MainBlock)
    (events : List DifficultyEvent) (version : ℕ) :
    let s := DifficultyState.after env { main := start } events
    let asked := getDifficultyForNextBlock env version s.cache s.main
    let blocks := window (getDifficultyBlocksCount version) s.main
    asked.1 = (getDifficultyForNextBlock env version {} s.main).1 ∧
      (env.fixedDifficulty = 0 → tailHash s.main ≠ 0 →
        asked.1 = selectDifficulty env version (blocks.map MainBlock.timestamp)
            (blocks.map MainBlock.cumulativeDifficulty) ∧
          asked.2.height = s.main.length ∧
          asked.2.timestamps = blocks.map MainBlock.timestamp ∧
          asked.2.difficulties = blocks.map MainBlock.cumulativeDifficulty) := by
  intro s asked blocks
  have hnothing : ∀ main, CacheOk main {} := fun _ hheight => absurd rfl hheight
  have hcache : CacheOk s.main s.cache := (hnothing start).after (s := { main := start }) events
  refine ⟨?_, fun hfixed htail => ?_⟩
  · by_cases hfixed : env.fixedDifficulty = 0
    · by_cases htail : tailHash s.main = 0
      · simp only [asked, getDifficultyForNextBlock, hfixed, ne_eq, not_true_eq_false, if_false,
          htail, if_true]
      · simp only [asked, getDifficultyForNextBlock_spec env version hcache hfixed htail,
          getDifficultyForNextBlock_spec env version (hnothing s.main) hfixed htail]
    · simp only [asked, getDifficultyForNextBlock, ne_eq, hfixed, not_false_eq_true, if_true]
  · have hasked := getDifficultyForNextBlock_spec env version hcache hfixed htail
    exact ⟨congrArg Prod.fst hasked, congrArg (fun r => r.2.height) hasked,
      congrArg (fun r => r.2.timestamps) hasked, congrArg (fun r => r.2.difficulties) hasked⟩

end Cache

section Alternative

def AltBlock.toMain (entry : AltBlock) : MainBlock where
  block := entry.block
  cumulativeDifficulty := entry.cumulativeDifficulty
  alreadyGeneratedCoins := entry.alreadyGeneratedCoins

variable {env : DifficultyEnv} {main : List MainBlock} {altChain : List AltBlock} {split : ℕ}

/-- A branch that leaves the main chain at its height is read as the end of one chain. -/
theorem getNextDifficultyForAlternativeChain_spec (env : DifficultyEnv) (version : ℕ)
    (hfixed : env.fixedDifficulty = 0) (hpos : split ≠ 0) (hsplit : split ≤ main.length)
    (hfront : ∀ front ∈ altChain.head?, front.height = split) :
    let blocks := window (getDifficultyBlocksCount version)
      (main.take split ++ altChain.map AltBlock.toMain)
    getNextDifficultyForAlternativeChain env version main altChain (split + altChain.length) =
      some (selectDifficulty env version (blocks.map MainBlock.timestamp)
        (blocks.map MainBlock.cumulativeDifficulty)) := by
  intro blocks
  have hlength : (main.take split).length = split := length_take_of_le hsplit
  have hlow : main.take split ≠ [] := by
    rw [← length_pos_iff, hlength]
    omega
  have hstop : mainChainStopOffset altChain (split + altChain.length) = split := by
    cases altChain with
    | nil => rfl
    | cons front rest => exact hfront front rfl
  simp only [getNextDifficultyForAlternativeChain, hfixed, ne_eq, not_true_eq_false, if_false,
    hstop]
  by_cases hshort : altChain.length < getDifficultyBlocksCount version
  · -- The rest of the window is read from the main chain.
    have hstart : skipGenesis (split - min (getDifficultyBlocksCount version -
          min (getDifficultyBlocksCount version) altChain.length) split) =
        max 1 (split - (getDifficultyBlocksCount version - altChain.length)) := by
      rw [skipGenesis_eq]
      omega
    have hblocks : blocks = (main.take split).drop
        (max 1 ((main.take split).length -
          (getDifficultyBlocksCount version - (altChain.map AltBlock.toMain).length))) ++
            altChain.map AltBlock.toMain :=
      window_append hlow (by rwa [length_map])
    rw [hlength, length_map] at hblocks
    rw [if_pos hshort, hstart, if_neg (by omega), if_neg, hblocks]
    · simp only [map_append, map_map]
      rfl
    · rw [length_drop, hlength]
      omega
  · have hblocks : blocks = lastEntries (getDifficultyBlocksCount version)
        (altChain.map AltBlock.toMain) :=
      window_append_of_le hlow (by rw [length_map]; omega)
    rw [if_neg hshort, hblocks, ← map_lastEntries]
    simp only [map_map]
    rfl

theorem getDifficultyForNextBlock_fixed (version : ℕ) (cache : DifficultyCache)
    (hfixed : env.fixedDifficulty ≠ 0) (hmain : main ≠ []) :
    (getDifficultyForNextBlock env version cache main).1 = env.fixedDifficulty := by
  rw [getDifficultyForNextBlock, if_pos hfixed]
  exact if_pos (length_pos_iff.mpr hmain).ne'

/-- The difficulty for the next block of a branch is the one that the main chain would ask for if
it were the branch, whatever window it has kept. -/
theorem alternative_difficulty_eq (env : DifficultyEnv) (version : ℕ) (main : List MainBlock)
    (split : ℕ) (altChain : List AltBlock) (start : List MainBlock)
    (events : List DifficultyEvent) (hpos : split ≠ 0) (hsplit : split ≤ main.length)
    (hfront : ∀ front ∈ altChain.head?, front.height = split)
    (hchain : (DifficultyState.after env { main := start } events).main =
      main.take split ++ altChain.map AltBlock.toMain)
    (hnull : tailHash (main.take split ++ altChain.map AltBlock.toMain) ≠ 0) :
    let s := DifficultyState.after env { main := start } events
    getNextDifficultyForAlternativeChain env version main altChain (split + altChain.length) =
      some (getDifficultyForNextBlock env version s.cache s.main).1 := by
  intro s
  have hcache : CacheOk s.main s.cache :=
    CacheOk.after (s := { main := start }) (fun hheight => absurd rfl hheight) events
  have hmain : s.main = main.take split ++ altChain.map AltBlock.toMain := hchain
  by_cases hfixed : env.fixedDifficulty = 0
  · rw [getNextDifficultyForAlternativeChain_spec env version hfixed hpos hsplit hfront,
      getDifficultyForNextBlock_spec env version hcache hfixed (hmain ▸ hnull), hmain]
  · have hlow : main ≠ [] := by
      rw [← length_pos_iff]
      omega
    have hwhole : s.main ≠ [] := by
      rw [hmain, ← length_pos_iff, length_append, length_take]
      omega
    rw [getDifficultyForNextBlock_fixed version s.cache hfixed hwhole,
      getNextDifficultyForAlternativeChain, if_pos hfixed,
      if_pos (length_pos_iff.mpr hlow).ne']

/-- An algorithm that tells windows apart. -/
def sampleDifficultyEnv : DifficultyEnv where
  fixedDifficulty := 0
  nextDifficulty _ _ _ := 1
  nextDifficultyLwma _ _ _ := 1
  nextDifficultyLwma4 _ _ := 1
  nextDifficultyV16 _ difficulties := difficulties.sum

def sampleBranch : List AltBlock :=
  [{ block := childBlock 17 5 4 1005, height := 5, cumulativeDifficulty := 105 },
    { block := childBlock 17 6 1005 1006, height := 6, cumulativeDifficulty := 206 }]

/-- The blocks of the branch are added to a main chain, with a window from before. -/
def sampleEvents : List DifficultyEvent :=
  [.ask 17] ++ sampleBranch.map fun entry => .add entry.toMain

theorem sampleBranch_difficulty :
    let s := DifficultyState.after sampleDifficultyEnv
      { main := (sampleChain 17 5 OrderedTable.empty).main } sampleEvents
    getNextDifficultyForAlternativeChain sampleDifficultyEnv 17
        (sampleChain 17 14 OrderedTable.empty).main sampleBranch (5 + sampleBranch.length) =
      some (getDifficultyForNextBlock sampleDifficultyEnv 17 s.cache s.main).1 :=
  alternative_difficulty_eq sampleDifficultyEnv 17 (sampleChain 17 14 OrderedTable.empty).main 5
    sampleBranch (sampleChain 17 5 OrderedTable.empty).main sampleEvents (by decide) (by decide)
    (fun front hfront => by
      obtain rfl := Option.some.inj hfront
      rfl)
    (by decide) (by decide)

end Alternative

end Arqma.Chain
