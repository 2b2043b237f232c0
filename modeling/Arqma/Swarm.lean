import Arqma.UpdateFromBlock

/-!
# Reassignment of nodes to swarms

`calc_swarm_changes` on an arbitrary stream of random values, with every access
checked. The order that `std::sort` leaves among swarms of equal size is arbitrary.
Beside the swarms and the position in the stream the state keeps, for the proofs,
the maps for which an id of a new swarm was looked up.
-/
namespace Arqma.ServiceNodes
open Arqma.Cryptonote

def minSwarmSize : ℕ := 5
def idealSwarmMargin : ℕ := 2
def idealSwarmSize : ℕ := minSwarmSize + idealSwarmMargin
def excessBase : ℕ := minSwarmSize
def newSwarmSize : ℕ := idealSwarmSize
def fillSwarmLowerPercentile : ℕ := 25
def decommissionedRedistributionLowerPercentile : ℕ := 0
def stealingSwarmUpperPercentile : ℕ := 75

/-- `MAX_ID`: the id above it stands for nodes without a swarm. -/
def maxSwarmId : UInt64 := 0xfffffffffffffffe

structure SwarmSize where
  swarmId : UInt64
  size : ℕ
deriving DecidableEq, Repr

structure ExcessPoolSnode where
  publicKey : PublicKey
  swarmId : UInt64
deriving DecidableEq, Repr

/-- A `std::sort` by size, which leaves equal sizes in any order. -/
structure SizeSort where
  sort : List SwarmSize → List SwarmSize
  perm : ∀ l, (sort l).Perm l
  sorted : ∀ l, (sort l).Pairwise fun a b => a.size ≤ b.size

instance : Std.Total fun a b : SwarmSize => a.size ≤ b.size :=
  ⟨fun a b => Nat.le_total a.size b.size⟩

instance : IsTrans SwarmSize fun a b => a.size ≤ b.size := ⟨fun _ _ _ => Nat.le_trans⟩

def SizeSort.byInsertion : SizeSort where
  sort l := l.insertionSort fun a b => a.size ≤ b.size
  perm l := List.perm_insertionSort _ l
  sorted l := List.pairwise_insertionSort _ l

/-- The state of a reassignment. -/
structure Assignment where
  swarms : SwarmMap
  pos : ℕ := 0
  created : List SwarmMap := []
deriving DecidableEq

namespace SwarmMap

def ids (swarms : SwarmMap) : List UInt64 := swarms.rows.map Prod.fst

def nodes (swarms : SwarmMap) : List PublicKey := swarms.rows.flatMap Prod.snd

/-- `swarm_to_snodes.at(id)`. -/
def get (swarms : SwarmMap) (id : UInt64) : Checked (List PublicKey) :=
  match swarms.find? id.toNat with
  | none => .error .outOfRange
  | some entry => .ok entry.2

def set (swarms : SwarmMap) (id : UInt64) (snodes : List PublicKey) : SwarmMap :=
  swarms.put (id, snodes)

/-- `swarm_to_snodes.insert`, which does nothing for an id that is taken. -/
def add (swarms : SwarmMap) (id : UInt64) (snodes : List PublicKey) : SwarmMap :=
  swarms.insert (id, snodes)

def erase (swarms : SwarmMap) (id : UInt64) : SwarmMap := swarms.remove id.toNat

end SwarmMap

/-- One round of the scan for the widest gap between neighbours. -/
def widestGapStep (allIds : List UInt64) (best : UInt64 × ℕ) (idx : ℕ) : UInt64 × ℕ :=
  let dist := allIds.getD (idx + 1) 0 - allIds.getD idx 0
  if best.1 < dist then (dist, idx) else best

/-- The scan of the gaps, whose index has 32 bits and starts over behind the last of them. -/
def scanGaps (allIds : List UInt64) : ℕ → UInt32 → UInt64 × ℕ → Checked (UInt64 × ℕ)
  | 0, _, _ => .error .outOfFuel
  | fuel + 1, idx, best =>
    if idx.toNat < allIds.length - 1 then
      scanGaps allIds fuel (idx + 1) (widestGapStep allIds best idx.toNat)
    else .ok best

/-- The middle of the widest gap, the one over the end included. -/
def middleOfGap (allIds : List UInt64) (inner : UInt64 × ℕ) : UInt64 :=
  let dist := maxSwarmId - allIds.getLastD 0 + allIds.headD 0 + 1
  let best := if inner.1 < dist then (dist, allIds.length - 1) else inner
  let diff := best.1 / 2
  let toMax := maxSwarmId - allIds.getD best.2 0
  if toMax < diff then diff - toMax - 1 else allIds.getD best.2 0 + diff

/-- The map hands out its keys in order, so sorting them changes nothing. The fuel is for one
round at each value of the index. -/
def getNewSwarmId (swarms : SwarmMap) : Checked UInt64 :=
  if swarms.ids.length = 0 then .ok 0
  else if swarms.ids.length = 1 then .ok (maxSwarmId / 2)
  else do
    let inner ← scanGaps swarms.ids (2 ^ 32) 0 (0, 0)
    .ok (middleOfGap swarms.ids inner)

def calcExcess (swarms : SwarmMap) : ℕ :=
  (swarms.rows.map fun entry => entry.2.length - excessBase).sum

def calcThreshold (swarms : SwarmMap) : ℕ :=
  newSwarmSize + swarms.rows.length * idealSwarmMargin

/-- The nodes of the swarms above a size, and how many of them could be taken; the
number is not set for a threshold below the smallest size. -/
def getExcessPool (threshold : ℕ) (swarms : SwarmMap) : List ExcessPoolSnode × Option ℕ :=
  if threshold < minSwarmSize then ([], none)
  else
    let rich := swarms.rows.filter fun entry => threshold < entry.2.length
    (rich.flatMap fun entry => entry.2.map fun key => ⟨key, entry.1⟩,
      some (rich.map fun entry => entry.2.length - minSwarmSize).sum)

def removeExcessSnodeFromSwarm (snode : ExcessPoolSnode) (swarms : SwarmMap) :
    Checked SwarmMap := do
  let snodes ← swarms.get snode.swarmId
  pure (swarms.set snode.swarmId (snodes.filter fun key => key ≠ snode.publicKey))

/-- `swarm_to_snodes.at(id).push_back(key)`. -/
def pushToSwarm (id : UInt64) (key : PublicKey) (swarms : SwarmMap) : Checked SwarmMap := do
  let snodes ← swarms.get id
  pure (swarms.set id (snodes ++ [key]))

def hasStarvingSwarms (swarms : SwarmMap) : Bool :=
  swarms.rows.any fun entry => entry.2.length < minSwarmSize

section Code

variable (order : SizeSort) (out : ℕ → UInt64) (fuel : ℕ)

def pickFromExcessPool (pool : List ExcessPoolSnode) (pos : ℕ) :
    Checked (ExcessPoolSnode × ℕ) := do
  let choice ← RandomEngine.drawBelow out pool.length fuel pos
  let snode ← Checked.entry pool choice.1
  pure (snode, choice.2)

/-- Take a random node out of the swarms above a size. -/
def takeFromPool (pool : List ExcessPoolSnode) (swarms : SwarmMap) (pos : ℕ) :
    Checked (ExcessPoolSnode × SwarmMap × ℕ) := do
  let picked ← pickFromExcessPool out fuel pool pos
  let rest ← removeExcessSnodeFromSwarm picked.1 swarms
  pure (picked.1, rest, picked.2)

/-- The loop that collects the nodes of a new swarm, `missing` of which are still to
come. Where there is nobody left to take, those already taken are gone. -/
def fillNewSwarm : ℕ → List PublicKey → SwarmMap → ℕ →
    Checked (SwarmMap × ℕ × Option (List PublicKey))
  | 0, newSnodes, swarms, pos => .ok (swarms, pos, some newSnodes)
  | missing + 1, newSnodes, swarms, pos =>
    let pool := (getExcessPool excessBase swarms).1
    if pool.length = 0 then .ok (swarms, pos, none)
    else do
      let taken ← takeFromPool out fuel pool swarms pos
      fillNewSwarm missing (newSnodes ++ [taken.1.publicKey]) taken.2.1 taken.2.2

/-- The loop of `create_new_swarm_from_excess`. -/
def createLoop : ℕ → Assignment → Checked Assignment
  | 0, _ => .error .outOfFuel
  | rounds + 1, s =>
    if calcThreshold s.swarms ≤ calcExcess s.swarms then do
      let filled ← fillNewSwarm out fuel newSwarmSize [] s.swarms s.pos
      match filled.2.2 with
      | none => pure { s with swarms := filled.1, pos := filled.2.1 }
      | some newSnodes =>
        let id ← getNewSwarmId filled.1
        createLoop rounds {
          swarms := filled.1.add id newSnodes
          pos := filled.2.1
          created := s.created ++ [filled.1] }
    else pure s

def createNewSwarmFromExcess (s : Assignment) : Checked Assignment :=
  if hasStarvingSwarms s.swarms then pure s else createLoop out fuel fuel s

def calcSwarmSizes (swarms : SwarmMap) : List SwarmSize :=
  order.sort (swarms.rows.map fun entry => ⟨entry.1, entry.2.length⟩)

/-- `percentile * (count - 1) / 100` on 64 bits. -/
def percentileIndex (percentile count : ℕ) : ℕ :=
  percentile * ((count + (2 ^ 64 - 1)) % 2 ^ 64) % 2 ^ 64 / 100

/-- The last swarm with the size at the percentile. -/
def upperIndex (sizes : List SwarmSize) (index value : ℕ) : ℕ :=
  index + (sizes.drop index).findIdx (fun swarm => value < swarm.size) - 1

/-- One node of `assign_snodes`. -/
def assignSnode (percentile : ℕ) (s : Assignment) (key : PublicKey) : Checked Assignment := do
  let sizes := calcSwarmSizes order s.swarms
  let index := percentileIndex percentile sizes.length
  let value ← Checked.entry sizes index
  let choice ← RandomEngine.drawBelow out (upperIndex sizes index value.size + 1) fuel s.pos
  let swarm ← Checked.entry sizes choice.1
  let swarms ← pushToSwarm swarm.swarmId key s.swarms
  createNewSwarmFromExcess out fuel { s with swarms, pos := choice.2 }

def assignSnodes (percentile : ℕ) (snodes : List PublicKey) (s : Assignment) :
    Checked Assignment :=
  snodes.foldlM (assignSnode order out fuel percentile) s

/-- `max(MIN_SWARM_SIZE, size - 1)` on 64 bits. -/
def stealingThreshold (size : ℕ) : ℕ := max minSwarmSize ((size + (2 ^ 64 - 1)) % 2 ^ 64)

/-- `MIN_SWARM_SIZE - size` on 64 bits. -/
def swarmDeficit (size : ℕ) : ℕ := (minSwarmSize + (2 ^ 64 - size % 2 ^ 64)) % 2 ^ 64

/-- The loop that fills one starving swarm; the flag says that there was not enough. -/
def stealLoop (sizes : List SwarmSize) (poor : UInt64) : ℕ → Assignment →
    Checked (Assignment × Bool)
  | 0, _ => .error .outOfFuel
  | rounds + 1, s => do
    let value ← Checked.entry sizes (percentileIndex stealingSwarmUpperPercentile sizes.length)
    let pool := getExcessPool (stealingThreshold value.size) s.swarms
    let snodes ← s.swarms.get poor
    let excess ← Checked.initialised pool.2
    if excess < swarmDeficit snodes.length then pure (s, true)
    else do
      let taken ← takeFromPool out fuel pool.1 s.swarms s.pos
      let swarms ← pushToSwarm poor taken.1.publicKey taken.2.1
      let snodes ← swarms.get poor
      if snodes.length < minSwarmSize then
        stealLoop sizes poor rounds { s with swarms, pos := taken.2.2 }
      else pure ({ s with swarms, pos := taken.2.2 }, false)

def robinHoodRound (sizes : List SwarmSize) : List SwarmSize → Assignment → Checked Assignment
  | [], s => .ok s
  | swarm :: rest, s =>
    if minSwarmSize ≤ swarm.size then .ok s
    else do
      let stolen ← stealLoop out fuel sizes swarm.swarmId fuel s
      if stolen.2 then pure stolen.1 else robinHoodRound sizes rest stolen.1

/-- Dissolve the first starving swarm until there is none. -/
def decommissionLoop : ℕ → Assignment → Checked Assignment
  | 0, _ => .error .outOfFuel
  | rounds + 1, s =>
    match s.swarms.rows.find? fun entry => entry.2.length < minSwarmSize with
    | none => .ok s
    | some entry => do
      let assigned ← assignSnodes order out fuel decommissionedRedistributionLowerPercentile
        entry.2 { s with swarms := s.swarms.erase entry.1 }
      decommissionLoop rounds assigned

/-- The swarms at the start of a reassignment: without those that have no swarm, and
at least one. -/
def startingSwarms (swarms : SwarmMap) : SwarmMap :=
  let assigned := swarms.erase unassignedSwarmId
  if assigned.rows.length = 0 then assigned.add 0 [] else assigned

def unassignedSnodes (swarms : SwarmMap) : List PublicKey :=
  match swarms.find? unassignedSwarmId.toNat with
  | none => []
  | some entry => entry.2

/-- `calc_swarm_changes` with the stream of the seeded generator. -/
def calcSwarmChanges (swarms : SwarmMap) : Checked Assignment :=
  if swarms.rows.length = 0 then .ok { swarms }
  else do
    let s ← assignSnodes order out fuel fillSwarmLowerPercentile (unassignedSnodes swarms)
      { swarms := startingSwarms swarms }
    let sizes := calcSwarmSizes order s.swarms
    let s ← robinHoodRound out fuel sizes sizes s
    let s ← createNewSwarmFromExcess out fuel s
    if 1 < s.swarms.rows.length then decommissionLoop order out fuel fuel s else pure s

end Code

end Arqma.ServiceNodes
