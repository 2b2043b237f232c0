import Arqma.CheckpointRange
import Arqma.Finality

/-!
# Checkpoints from a file

A file lists heights with the hashes of their blocks. Those above the highest stored checkpoint
are added as hard-coded checkpoints, and the main chain is then compared with them. The
comparison is the wrong way round: the chain is rolled back at a height where it has the block
that the checkpoint names.
-/
namespace Arqma.Chain
open Arqma.Cryptonote

variable {height : ℕ} {heights : List UInt64}

/-- The value of a hexadecimal digit. -/
def isx (c : UInt8) : Option ℕ :=
  if 48 ≤ c ∧ c ≤ 57 then some (c - 48).toNat
  else if 65 ≤ c ∧ c ≤ 70 then some (c - 55).toNat
  else if 97 ≤ c ∧ c ≤ 102 then some (c - 87).toNat
  else none

/-- The first byte is taken as the most significant one of a hash. -/
def toBufferUnchecked : ℕ → List UInt8 → Option Hash
  | value, high :: low :: rest =>
    match isx high, isx low with
    | some high, some low => toBufferUnchecked (value * 256 + (high * 16 + low)) rest
    | _, _ => none
  | value, _ => some (BitVec.ofNat 256 value)

def hexToPod (hex : List UInt8) : Option Hash :=
  if hex.length / 2 ≠ 32 then none
  else if hex.length % 2 ≠ 0 then none
  else toBufferUnchecked 0 hex

structure HeightToHash where
  height : UInt64
  hash : List UInt8
deriving DecidableEq

namespace Checkpoints

def getMaxHeight (c : Checkpoints) : ℕ :=
  match c.db.getTopCheckpoint with
  | some top => top.height
  | none => 0

/-- None if the hash is not one, or if another checkpoint is stored at the height. -/
def addCheckpoint (c : Checkpoints) (height : ℕ) (hash : List UInt8) : Option Checkpoints :=
  match hexToPod hash with
  | none => none
  | some blockHash =>
    match c.db.find? height with
    | some checkpoint => if blockHash = checkpoint.blockHash then some c else none
    | none => some (c.updateCheckpoint { type := .hardcoded, height, blockHash })

/-- The loop that adds the checkpoints of a file, and the entries it leaves for the comparison:
from the first one above `prevMaxHeight` (`started`) to the one that could not be added. -/
def addCheckpoints (prevMaxHeight : ℕ) :
    Checkpoints → Bool → List HeightToHash → Checkpoints × List HeightToHash
  | c, _, [] => (c, [])
  | c, started, entry :: rest =>
    if entry.height.toNat ≤ prevMaxHeight then
      let (c, toCheck) := addCheckpoints prevMaxHeight c started rest
      (c, if started then entry :: toCheck else toCheck)
    else
      match c.addCheckpoint entry.height.toNat entry.hash with
      | none => (c, [])
      | some c =>
        let (c, toCheck) := addCheckpoints prevMaxHeight c true rest
        (c, entry :: toCheck)

end Checkpoints

/-- The unsigned difference: below two it is above every chain. -/
def rollbackHeight (height : UInt64) : ℕ := (height - 2).toNat

section Update

variable (env : ChainEnv)

/-- The loop that compares. Popping the genesis block throws. -/
def checkAgainstChain : ChainState → Bool → List HeightToHash → ChainState × Outcome
  | s, result, [] => (s, .returned result)
  | s, result, entry :: rest =>
    match s.main[entry.height.toNat]? with
    | none => (s, .returned result)
    | some top =>
      if s.checkpoints.checkBlock entry.height.toNat top.block.hash then
        if rollbackHeight entry.height = 0 then ({ s with main := s.main.take 1 }, .threw)
        else
          checkAgainstChain
            (rollbackBlockchainSwitching env s [] (rollbackHeight entry.height)) false rest
      else checkAgainstChain s result rest

/-- The entries of the file are none if it cannot be read. -/
def updateCheckpointsFromJsonFile (s : ChainState) (file : Option (List HeightToHash)) :
    ChainState × Outcome :=
  match file with
  | none => (s, .returned false)
  | some entries =>
    let (checkpoints, toCheck) :=
      s.checkpoints.addCheckpoints s.checkpoints.getMaxHeight false entries
    checkAgainstChain env { s with checkpoints } true toCheck

end Update

section Agreement

/-- Every stored checkpoint at a height of the chain names the block there. -/
def TableAgrees (main : List MainBlock) (table : CheckpointTable) : Prop :=
  ∀ c ∈ table.rows, ∀ entry ∈ main[c.height]?, c.blockHash = entry.block.hash

/-- Every listed checkpoint at a height of the chain names the block there. -/
def FileAgrees (main : List MainBlock) (entries : List HeightToHash) : Prop :=
  ∀ listed ∈ entries, ∀ entry ∈ main[listed.height.toNat]?,
    hexToPod listed.hash = some entry.block.hash

instance (main : List MainBlock) (table : CheckpointTable) : Decidable (TableAgrees main table) :=
  inferInstanceAs (Decidable (∀ c ∈ table.rows, ∀ entry ∈ main[c.height]?,
    c.blockHash = entry.block.hash))

instance (main : List MainBlock) (entries : List HeightToHash) :
    Decidable (FileAgrees main entries) :=
  inferInstanceAs (Decidable (∀ listed ∈ entries, ∀ entry ∈ main[listed.height.toNat]?,
    hexToPod listed.hash = some entry.block.hash))

end Agreement

/-! ## What is added -/

section Added

def HeightToHash.withHash (listed : HeightToHash) (blockHash : Hash) : Checkpoint :=
  { type := .hardcoded, height := listed.height.toNat, blockHash }

/-- The checkpoint that an entry stands for. -/
def HeightToHash.checkpoint? (listed : HeightToHash) : Option Checkpoint :=
  (hexToPod listed.hash).map listed.withHash

/-- The entries of a file that are added: those above the stored checkpoints, up to the first one
without a hash. -/
def Checkpoints.accepted (c : Checkpoints) (entries : List HeightToHash) : List HeightToHash :=
  (entries.filter fun listed => c.getMaxHeight < listed.height.toNat).takeWhile fun listed =>
    (hexToPod listed.hash).isSome

/-- The table after some entries were added to it. -/
structure Added (c : Checkpoints) (taken : List HeightToHash)
    (after : Checkpoints × List HeightToHash) : Prop where
  compared : after.2 = taken
  mem_rows : ∀ row, row ∈ after.1.db.rows ↔
    row ∈ c.db.rows ∨ ∃ listed ∈ taken, listed.checkpoint? = some row

variable {c : Checkpoints} {entries : List HeightToHash} {prevMaxHeight : ℕ}

theorem addCheckpoint_of_free {listed : HeightToHash} {blockHash : Hash}
    (hhash : hexToPod listed.hash = some blockHash)
    (hfree : ∀ row ∈ c.db.rows, row.height < listed.height.toNat) :
    c.addCheckpoint listed.height.toNat listed.hash =
      some (c.updateCheckpoint (listed.withHash blockHash)) := by
  have hnone : c.db.find? listed.height.toNat = none :=
    OrderedTable.find?_eq_none.mpr fun row hrow => (hfree row hrow).ne
  unfold Checkpoints.addCheckpoint
  rw [hhash, hnone]
  rfl

/-- Ascending entries above everything stored are added up to one that is no hash. -/
theorem added_of_above (started : Bool)
    (habove : ∀ listed ∈ entries, prevMaxHeight < listed.height.toNat)
    (hascending : entries.Pairwise fun a b => a.height < b.height)
    (hfree : ∀ row ∈ c.db.rows, ∀ listed ∈ entries, row.height < listed.height.toNat) :
    Added c (entries.takeWhile fun listed => (hexToPod listed.hash).isSome)
      (c.addCheckpoints prevMaxHeight started entries) := by
  induction entries generalizing c started with
  | nil => exact ⟨rfl, fun row => by simp [Checkpoints.addCheckpoints]⟩
  | cons listed rest ih =>
    obtain ⟨hfirst, hrest⟩ := List.pairwise_cons.mp hascending
    unfold Checkpoints.addCheckpoints
    rw [if_neg (not_le.mpr (habove listed List.mem_cons_self))]
    cases hhash : hexToPod listed.hash with
    | none =>
      rw [show c.addCheckpoint listed.height.toNat listed.hash = none by
        rw [Checkpoints.addCheckpoint, hhash], List.takeWhile_cons_of_neg (by simp [hhash])]
      exact ⟨rfl, fun row => by simp⟩
    | some blockHash =>
      rw [addCheckpoint_of_free hhash fun row hrow => hfree row hrow listed List.mem_cons_self,
        List.takeWhile_cons_of_pos (by simp [hhash])]
      have hmem : ∀ row, row ∈ (c.updateCheckpoint (listed.withHash blockHash)).db.rows ↔
          row ∈ c.db.rows ∨ listed.checkpoint? = some row := by
        intro row
        rw [HeightToHash.checkpoint?, hhash, Option.map_some, Option.some_inj, eq_comm (b := row)]
        refine OrderedTable.mem_put.trans (or_comm.trans (or_congr_left ?_))
        exact and_iff_left_of_imp fun hrow => (hfree row hrow listed List.mem_cons_self).ne
      have hadded := @ih (c.updateCheckpoint (listed.withHash blockHash)) true
        (fun l hl => habove l (List.mem_cons_of_mem _ hl)) hrest fun row hrow l hl => ?_
      · refine ⟨congrArg (listed :: ·) hadded.compared, fun row => ?_⟩
        rw [hadded.mem_rows, hmem, or_assoc, List.exists_mem_cons_iff]
      · rcases (hmem row).mp hrow with hold | hnew
        · exact hfree row hold l (List.mem_cons_of_mem _ hl)
        · rw [HeightToHash.checkpoint?, hhash] at hnew
          rw [← Option.some.inj hnew]
          exact UInt64.lt_iff_toNat_lt.mp (hfirst l hl)

/-- Of ascending entries those below are passed over. -/
theorem added_of_ascending (hascending : entries.Pairwise fun a b => a.height < b.height)
    (hmax : ∀ row ∈ c.db.rows, row.height ≤ prevMaxHeight) :
    Added c ((entries.filter fun listed => prevMaxHeight < listed.height.toNat).takeWhile
        fun listed => (hexToPod listed.hash).isSome)
      (c.addCheckpoints prevMaxHeight false entries) := by
  induction entries with
  | nil => exact ⟨rfl, fun row => by simp [Checkpoints.addCheckpoints]⟩
  | cons listed rest ih =>
    obtain ⟨hfirst, hrest⟩ := List.pairwise_cons.mp hascending
    by_cases hlow : listed.height.toNat ≤ prevMaxHeight
    · have hadded := ih hrest
      rw [List.filter_cons_of_neg (by simpa using hlow)]
      unfold Checkpoints.addCheckpoints
      rw [if_pos hlow]
      exact hadded
    · have habove : ∀ l ∈ listed :: rest, prevMaxHeight < l.height.toNat := by
        refine List.forall_mem_cons.mpr ⟨not_le.mp hlow, fun l hl => ?_⟩
        exact (not_le.mp hlow).trans (UInt64.lt_iff_toNat_lt.mp (hfirst l hl))
      rw [List.filter_eq_self.mpr (by simpa using habove)]
      exact added_of_above false habove hascending fun row hrow l hl =>
        (hmax row hrow).trans_lt (habove l hl)

theorem height_le_getMaxHeight (c : Checkpoints) :
    ∀ row ∈ c.db.rows, row.height ≤ c.getMaxHeight := by
  intro row hrow
  unfold Checkpoints.getMaxHeight
  split
  · next top htop => exact height_le_getTopCheckpoint htop hrow
  · next hnone =>
    rw [List.getLast?_eq_none_iff.mp hnone] at hrow
    cases hrow

end Added

section HeightLeft

/-- The height of the chain after the comparison of some heights, where `agrees` tells whether the
checkpoint at a height, if there is one, names the block there. -/
def heightLeft (agrees : ℕ → Bool) : ℕ → List UInt64 → ℕ
  | height, [] => height
  | height, checked :: rest =>
    if height ≤ checked.toNat then height
    else if agrees checked.toNat then
      if rollbackHeight checked = 0 then 1
      else heightLeft agrees (min height (rollbackHeight checked)) rest
    else heightLeft agrees height rest

variable {agrees : ℕ → Bool}

theorem heightLeft_le : heightLeft agrees height heights ≤ height := by
  induction heights generalizing height <;> grind [heightLeft]

theorem heightLeft_of_above (h : ∀ checked ∈ heights, height ≤ checked.toNat) :
    heightLeft agrees height heights = height := by
  cases heights with
  | nil => rfl
  | cons checked rest => exact if_pos (h checked List.mem_cons_self)

/-- Ascending heights: the first one that agrees, from two on, decides. -/
theorem heightLeft_le_iff {k : ℕ} (hk : k < height) (hheight : height < 2 ^ 64)
    (hascending : heights.Pairwise (· < ·)) (hpos : ∀ checked ∈ heights, 0 < checked.toNat) :
    heightLeft agrees height heights ≤ k ↔
      ∃ checked ∈ heights, agrees checked.toNat = true ∧ 2 ≤ checked.toNat ∧
        checked.toNat < height ∧ max (checked.toNat - 2) 1 ≤ k := by
  induction heights with
  | nil => simpa [heightLeft] using hk
  | cons checked rest ih =>
    obtain ⟨hfirst, hrest⟩ := List.pairwise_cons.mp hascending
    obtain ⟨hone, hlater⟩ := List.forall_mem_cons.mp hpos
    have hlarger : ∀ h ∈ rest, checked.toNat < h.toNat := fun h hh =>
      UInt64.lt_iff_toNat_lt.mp (hfirst h hh)
    have hroll : rollbackHeight checked = (checked.toNat + (2 ^ 64 - 2)) % 2 ^ 64 := by
      rw [rollbackHeight, UInt64.toNat_sub, Nat.add_comm]
      rfl
    have hbound := checked.toNat_lt
    rw [heightLeft, List.exists_mem_cons_iff]
    split_ifs with hoff hagrees hgenesis
    · refine iff_of_false (by omega) ?_
      rintro (⟨-, -, hlt, -⟩ | ⟨h, hh, -, -, hlt, -⟩)
      · omega
      · have := hlarger h hh
        omega
    · have htwo : checked.toNat = 2 := by omega
      constructor
      · exact fun hle => .inl ⟨hagrees, htwo.ge, not_le.mp hoff, by omega⟩
      · rintro (⟨-, -, -, hle⟩ | ⟨h, hh, -, -, -, hle⟩) <;> omega
    · rcases Nat.lt_or_ge 1 checked.toNat with hlarge | hsmall
      · have hleft : min height (rollbackHeight checked) = checked.toNat - 2 := by omega
        rw [hleft, heightLeft_of_above fun h hh => by have := hlarger h hh; omega]
        constructor
        · exact fun hle => .inl ⟨hagrees, hlarge, not_le.mp hoff, by omega⟩
        · rintro (⟨-, -, -, hle⟩ | ⟨h, hh, -, -, -, hle⟩)
          · omega
          · have := hlarger h hh
            omega
      · rw [min_eq_left (by omega), ih hrest hlater]
        exact (or_iff_right (by omega)).symm
    · rw [ih hrest hlater]
      exact (or_iff_right fun hfalse => hagrees hfalse.1).symm

end HeightLeft

section Comparison

theorem find?_blockchainDetached (c : Checkpoints) {height k : ℕ} (hlt : k < height) :
    (c.blockchainDetached height).db.find? k = c.db.find? k := by
  have hremove : ∀ fuel deleteHeight (table : CheckpointTable),
      (Checkpoints.removeDownTo height fuel deleteHeight table).find? k = table.find? k := by
    intro fuel
    induction fuel with
    | zero => exact fun _ _ => rfl
    | succ fuel ih =>
      grind [OrderedTable.find?_remove_of_ne, Checkpoints.removeDownTo]
  unfold Checkpoints.blockchainDetached
  dsimp only
  split
  · rfl
  · exact hremove _ _ _

def agreesAt (main : List MainBlock) (table : CheckpointTable) (height : ℕ) : Bool :=
  main[height]?.all fun entry => (table.find? height).all fun c => c.check entry.block.hash

theorem agreesAt_iff {main : List MainBlock} {table : CheckpointTable} :
    agreesAt main table height = true ↔
      ∀ c ∈ table.rows, c.height = height → ∀ entry ∈ main[height]?,
        c.blockHash = entry.block.hash := by
  simp only [agreesAt, Option.all_eq_true, OrderedTable.find?_eq_some, Checkpoint.check,
    decide_eq_true_eq]
  grind

variable (env : ChainEnv) {s : ChainState} {main : List MainBlock} {table : CheckpointTable}
  {height : ℕ}

/-- The state is what a chain is after a rollback to a height: its checkpoints below that are
those of `table`. -/
structure RolledBack (main : List MainBlock) (table : CheckpointTable) (height : ℕ)
    (s : ChainState) : Prop where
  main_eq : s.main = main.take height
  find?_eq : ∀ k < height, s.checkpoints.db.find? k = table.find? k

theorem RolledBack.rollback (h : RolledBack main table height s) (target : ℕ) :
    RolledBack main table (min height target) (rollbackBlockchainSwitching env s [] target) := by
  unfold rollbackBlockchainSwitching
  split_ifs with hhigh
  · have hlength : s.main.length < target := hhigh
    refine ⟨?_, fun k hk => h.find?_eq k (by omega)⟩
    rw [min_comm, ← List.take_take, ← h.main_eq, List.take_of_length_le hlength.le]
  · refine ⟨?_, fun k hk => ?_⟩
    · rw [min_comm, ← List.take_take, ← h.main_eq]
      rfl
    · exact (find?_blockchainDetached _ (by omega)).trans (h.find?_eq k (by omega))

theorem RolledBack.checkAgainstChain (h : RolledBack main table height s)
    (hle : height ≤ main.length) (result : Bool) (toCheck : List HeightToHash) :
    RolledBack main table
      (heightLeft (agreesAt main table) height (toCheck.map HeightToHash.height))
      (checkAgainstChain env s result toCheck).1 := by
  induction toCheck generalizing s height result with
  | nil => exact h
  | cons listed rest ih =>
    rw [List.map_cons, heightLeft, Chain.checkAgainstChain]
    by_cases hoff : height ≤ listed.height.toNat
    · rw [if_pos hoff, h.main_eq, List.getElem?_take_eq_none hoff]
      exact h
    · have hon : listed.height.toNat < height := not_le.mp hoff
      obtain ⟨entry, hentry⟩ : ∃ entry, main[listed.height.toNat]? = some entry :=
        ⟨_, List.getElem?_eq_getElem (hon.trans_le hle)⟩
      have hcheck : s.checkpoints.checkBlock listed.height.toNat entry.block.hash =
          agreesAt main table listed.height.toNat := by
        rw [Checkpoints.checkBlock, h.find?_eq _ hon, agreesAt, hentry]
        rfl
      rw [if_neg hoff, h.main_eq, List.getElem?_take_of_lt hon, hentry]
      dsimp only
      rw [hcheck]
      by_cases hagrees : agreesAt main table listed.height.toNat = true
      · rw [if_pos hagrees, if_pos hagrees]
        by_cases hgenesis : rollbackHeight listed.height = 0
        · rw [if_pos hgenesis, if_pos hgenesis]
          refine ⟨?_, fun k hk => h.find?_eq k (by omega)⟩
          grind
        · rw [if_neg hgenesis, if_neg hgenesis]
          exact ih (h.rollback env _) ((min_le_left _ _).trans hle) false
      · rw [if_neg hagrees, if_neg hagrees]
        exact ih h hle result

theorem RolledBack.tableAgrees_iff (h : RolledBack main table height s)
    (hle : height ≤ main.length) :
    TableAgrees s.main s.checkpoints.db ↔ ∀ k < height, agreesAt main table k = true := by
  have hsame : ∀ k < height, agreesAt main table k = agreesAt s.main s.checkpoints.db k :=
    fun k hk => by rw [agreesAt, agreesAt, h.find?_eq k hk, h.main_eq, List.getElem?_take_of_lt hk]
  grind [TableAgrees, h.main_eq, agreesAt_iff]

end Comparison

/-- The entry names the block of the chain at its height. -/
def HeightToHash.Names (listed : HeightToHash) (main : List MainBlock) : Prop :=
  ∃ entry ∈ main[listed.height.toNat]?, hexToPod listed.hash = some entry.block.hash

/-- A stored checkpoint or one of the entries names another block than the one of the chain at a
height. -/
def ConflictAt (main : List MainBlock) (table : CheckpointTable) (listed : List HeightToHash)
    (height : ℕ) : Prop :=
  ∃ entry ∈ main[height]?, (∃ c ∈ table.rows, c.height = height ∧ c.blockHash ≠ entry.block.hash) ∨
    ∃ l ∈ listed, l.height.toNat = height ∧ hexToPod l.hash ≠ some entry.block.hash

section Rightly

variable {c : Checkpoints} {taken : List HeightToHash} {after : Checkpoints × List HeightToHash}
  {main : List MainBlock}

theorem Added.agreesAt_iff (h : Added c taken after)
    (htaken : ∀ listed ∈ taken, (hexToPod listed.hash).isSome) :
    agreesAt main after.1.db height = true ↔ ¬ConflictAt main c.db taken height := by
  rw [Chain.agreesAt_iff]
  constructor
  · rintro hagrees ⟨entry, hentry, ⟨row, hrow, hheight, hne⟩ | ⟨listed, hmem, hheight, hne⟩⟩
    · exact hne (hagrees row ((h.mem_rows row).mpr (.inl hrow)) hheight entry hentry)
    · obtain ⟨blockHash, hhash⟩ := Option.isSome_iff_exists.mp (htaken listed hmem)
      have hstored := (h.mem_rows (listed.withHash blockHash)).mpr
        (.inr ⟨listed, hmem, by rw [HeightToHash.checkpoint?, hhash]; rfl⟩)
      exact hne (hhash.trans (congrArg some (hagrees _ hstored hheight entry hentry)))
  · intro hnone row hrow hheight entry hentry
    by_contra hne
    rcases (h.mem_rows row).mp hrow with hold | ⟨listed, hmem, hlisted⟩
    · exact hnone ⟨entry, hentry, .inl ⟨row, hold, hheight, hne⟩⟩
    · obtain ⟨blockHash, hhash, rfl⟩ := Option.map_eq_some_iff.mp hlisted
      refine hnone ⟨entry, hentry, .inr ⟨listed, hmem, hheight, fun heq => hne ?_⟩⟩
      exact Option.some.inj (hhash.symm.trans heq)

/-- An entry that was added is compared with its own hash. -/
theorem Added.agreesAt_listed (h : Added c taken after)
    (hfree : ∀ row ∈ c.db.rows, ∀ listed ∈ taken, row.height < listed.height.toNat)
    (hascending : taken.Pairwise fun a b => a.height < b.height)
    (htaken : ∀ listed ∈ taken, (hexToPod listed.hash).isSome) {listed : HeightToHash}
    (hlisted : listed ∈ taken) :
    agreesAt main after.1.db listed.height.toNat = true ∧ listed.height.toNat < main.length ↔
      listed.Names main := by
  rw [h.agreesAt_iff htaken]
  constructor
  · rintro ⟨hnone, hon⟩
    refine ⟨main[listed.height.toNat], List.getElem?_eq_getElem hon, by_contra fun hne => ?_⟩
    exact hnone ⟨_, List.getElem?_eq_getElem hon, .inr ⟨listed, hlisted, rfl, hne⟩⟩
  · rintro ⟨entry, hentry, hhash⟩
    refine ⟨?_, (List.getElem?_eq_some_iff.mp hentry).1⟩
    rintro ⟨entry', hentry', ⟨row, hrow, hheight, -⟩ | ⟨l, hl, hheight, hne⟩⟩
    · exact (hfree row hrow listed hlisted).ne hheight
    · obtain rfl := Option.some.inj (hentry.symm.trans hentry')
      have hnodup : (taken.map HeightToHash.height).Nodup :=
        List.pairwise_map.mpr (hascending.imp fun hless => UInt64.ne_of_lt hless)
      obtain rfl := List.inj_on_of_nodup_map hnodup hl hlisted (UInt64.toNat_inj.mp hheight)
      exact hne hhash

end Rightly

section Sample

/-- The hash of a block of `sampleChain` in digits. -/
def sampleDigits (high low : UInt8) : List UInt8 := List.replicate 62 48 ++ [high, low]

/-- Another block at height four, and the one of the chain at height five. -/
def mixedFile : List HeightToHash := [⟨4, sampleDigits 48 54⟩, ⟨5, sampleDigits 48 53⟩]

end Sample

end Arqma.Chain
