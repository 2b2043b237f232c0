import Arqma.DecommissionMachine

/-!
# The walk over the workers of a quorum

A validator of an obligations quorum goes through the workers and the states of those that
are still registered at the same time. The iterator over the states is read before it is
compared with its end, so that the walk needs the last worker to be registered.
-/
namespace Arqma.ServiceNodes
open Arqma.Cryptonote List

variable {workerStates : List (PublicKey × ServiceNodeInfo)}

section Vote

structure ServiceNodeTestResults where
  uptimeProved : Bool := true
  singleIp : Bool := true
  votedInCheckpoints : Bool := true
  storageServerReachable : Bool := true
deriving DecidableEq, Repr

def ServiceNodeTestResults.passed (results : ServiceNodeTestResults) : Bool :=
  results.uptimeProved && results.votedInCheckpoints && results.storageServerReachable

def decommissionCreditPerDay : ℤ := blocksExpectedInHours 24 / 30
def decommissionInitialCredit : ℤ := blocksExpectedInHours 2
def decommissionMaxCredit : ℤ := blocksExpectedInHours 24
def decommissionMinimum : ℤ := blocksExpectedInHours 2

/-- The blocks of downtime that a node has earned, less those it has used up. -/
def calculateDecommissionCredit (info : ServiceNodeInfo) (currentHeight : ℕ) : ℤ :=
  let blocksUp : ℤ :=
    if info.isDecommissioned then info.lastDecommissionHeight - -info.activeSinceHeight
    else currentHeight - info.activeSinceHeight
  let credit : ℤ :=
    if 0 ≤ blocksUp then
      let earned := (blocksUp * decommissionCreditPerDay).tdiv (blocksExpectedInHours 24)
      let started :=
        if info.decommissionCount ≤ info.isDecommissioned.toNat then
          earned + decommissionInitialCredit
        else earned
      min started decommissionMaxCredit
    else 0
  if info.isDecommissioned then credit - (currentHeight - info.lastDecommissionHeight) else credit

/-- What a validator votes for, if it does not abstain. -/
def voteForState (obligationsHeight latestHeight : ℕ) (info : ServiceNodeInfo)
    (testResults : ServiceNodeTestResults) : Option NewState :=
  if !info.canBeVotedOn obligationsHeight then none
  else if testResults.passed then
    if info.isDecommissioned then some .recommission
    else if !testResults.singleIp then some .ipChangePenalty
    else none
  else
    let credit := calculateDecommissionCredit info latestHeight
    if info.isDecommissioned then
      if 0 ≤ credit then none else some .deregister
    else if decommissionMinimum ≤ credit then some .decommission
    else some .deregister

end Vote

section Walk

/-- The nodes among the given ones that are registered; all nodes, if none are given. -/
def State.getServiceNodeListState (s : State) (pubkeys : List PublicKey) :
    List (PublicKey × ServiceNodeInfo) :=
  if pubkeys = [] then s.serviceNodesInfos.entries.map fun e => (e.1, e.2)
  else pubkeys.filterMap fun key => (s.serviceNodesInfos.lookup key).map fun info => (key, info)

/-- A worker with its index in the quorum and what the validator votes for. -/
structure TestedWorker where
  nodeIndex : ℕ
  pubkey : PublicKey
  vote : Option NewState
deriving DecidableEq, Repr

variable (workers : List PublicKey) (workerStates : List (PublicKey × ServiceNodeInfo))
  (test : PublicKey → ServiceNodeInfo → Option NewState)

/-- The two nested loops from the test of the inner one on, at the iterator `workerIt`. -/
def walkWorkers : ℕ → ℕ → ℕ → List TestedWorker → Checked (List TestedWorker)
  | 0, _, _, _ => .error .outOfFuel
  | fuel + 1, workerIt, nodeIndex, tested => do
    let state ← Checked.initialised workerStates[workerIt]?
    let worker ← Checked.entry workers nodeIndex
    if state.1 ≠ worker ∧ nodeIndex < workers.length then
      walkWorkers fuel workerIt (nodeIndex + 1) tested
    else if nodeIndex = workers.length then return tested
    else
      let tested := tested ++ [⟨nodeIndex, state.1, test state.1 state.2⟩]
      if nodeIndex + 1 < workers.length then
        walkWorkers fuel (workerIt + 1) (nodeIndex + 1) tested
      else return tested

/-- The part of `process_quorums` for a validator of the quorum at `obligationsHeight`. -/
def processWorkers (obligationsHeight latestHeight : ℕ)
    (checkServiceNode : PublicKey → ServiceNodeInfo → ServiceNodeTestResults) (fuel : ℕ) :
    Checked (List TestedWorker) :=
  let test key info := voteForState obligationsHeight latestHeight info (checkServiceNode key info)
  if 0 < workers.length then walkWorkers workers workerStates test fuel 0 0 [] else return []

end Walk

section Outcome

variable (s : State) (test : PublicKey → ServiceNodeInfo → Option NewState)

def State.isRegistered (key : PublicKey) : Bool := (s.serviceNodesInfos.lookup key).isSome

def State.found (key : PublicKey) : Option (PublicKey × ServiceNodeInfo) :=
  (s.serviceNodesInfos.lookup key).map fun info => (key, info)

/-- The workers that are still registered, each with its own index. -/
def registeredWorkers (workers : List PublicKey) (first : ℕ) : List TestedWorker :=
  (workers.zipIdx first).filterMap fun entry =>
    (s.serviceNodesInfos.lookup entry.1).map fun info => ⟨entry.2, entry.1, test entry.1 info⟩

theorem registeredWorkers_cons (worker : PublicKey) (rest : List PublicKey) (first : ℕ) :
    registeredWorkers s test (worker :: rest) first =
      ((s.serviceNodesInfos.lookup worker).map fun info =>
        ⟨first, worker, test worker info⟩).toList ++
        registeredWorkers s test rest (first + 1) := by
  grind [registeredWorkers]

variable {s test} {workers : List PublicKey}

variable {rest : List PublicKey} {workerIt : ℕ} {worker : PublicKey}

theorem isRegistered_of_found {state : PublicKey × ServiceNodeInfo}
    (h : state ∈ rest.filterMap s.found) : state.1 ∈ rest ∧ s.isRegistered state.1 = true := by
  obtain ⟨key, hkey, hfound⟩ := mem_filterMap.mp h
  obtain ⟨info, hinfo, rfl⟩ := Option.map_eq_some_iff.mp hfound
  exact ⟨hkey, by rw [State.isRegistered, hinfo]; rfl⟩

theorem walkWorkers_skip {nodeIndex : ℕ} {state : PublicKey × ServiceNodeInfo}
    (hstate : workerStates[workerIt]? = some state) (hworker : workers[nodeIndex]? = some worker)
    (hne : state.1 ≠ worker) (fuel : ℕ) (tested : List TestedWorker) :
    walkWorkers workers workerStates test (fuel + 1) workerIt nodeIndex tested =
      walkWorkers workers workerStates test fuel workerIt (nodeIndex + 1) tested := by
  have hlt := (List.getElem?_eq_some_iff.mp hworker).1
  simp only [walkWorkers, hstate, Checked.initialised, Checked.entry_eq_ok hworker,
    Checked.ok_bind, if_pos (And.intro hne hlt)]

theorem walkWorkers_match {nodeIndex : ℕ} {info : ServiceNodeInfo}
    (hstate : workerStates[workerIt]? = some (worker, info))
    (hworker : workers[nodeIndex]? = some worker) (fuel : ℕ) (tested : List TestedWorker) :
    walkWorkers workers workerStates test (fuel + 1) workerIt nodeIndex tested =
      if nodeIndex + 1 < workers.length then
        walkWorkers workers workerStates test fuel (workerIt + 1) (nodeIndex + 1)
          (tested ++ [⟨nodeIndex, worker, test worker info⟩])
      else .ok (tested ++ [⟨nodeIndex, worker, test worker info⟩]) := by
  have hlt := (List.getElem?_eq_some_iff.mp hworker).1
  simp only [walkWorkers, hstate, Checked.initialised, Checked.entry_eq_ok hworker,
    Checked.ok_bind, ne_eq, not_true_eq_false, false_and, if_false, if_neg hlt.ne]
  rfl

theorem walkWorkers_end (hstate : workerStates[workerIt]? = none) (fuel nodeIndex : ℕ)
    (tested : List TestedWorker) :
    walkWorkers workers workerStates test (fuel + 1) workerIt nodeIndex tested =
      .error .uninitialised := by
  simp only [walkWorkers, hstate, Checked.initialised]
  rfl

theorem getElem?_of_drop_cons {α : Type} {l rest : List α} {a : α} {i : ℕ}
    (h : l.drop i = a :: rest) : l[i]? = some a ∧ l.drop (i + 1) = rest := by
  constructor
  · have hhead := congrArg List.head? h
    rwa [head?_drop] at hhead
  · rw [← tail_drop, h, tail_cons]

theorem not_isRegistered_getLastD (h : (worker :: rest).filterMap s.found = []) :
    s.isRegistered (rest.getLastD worker) = false := by
  have hmem : rest.getLastD worker ∈ worker :: rest := by
    rw [← getLast_eq_getLastD (cons_ne_nil worker rest)]
    exact getLast_mem _
  have hnone := filterMap_eq_nil_iff.mp h _ hmem
  rw [State.isRegistered, Option.map_eq_none_iff.mp hnone]
  rfl

theorem walkWorkers_eq {nodeIndex fuel : ℕ} (tested : List TestedWorker)
    (hworkers : workers.drop nodeIndex = worker :: rest)
    (hstates : workerStates.drop workerIt = (worker :: rest).filterMap s.found)
    (hfuel : rest.length < fuel) :
    walkWorkers workers workerStates test fuel workerIt nodeIndex tested =
      if s.isRegistered (rest.getLastD worker) then
        .ok (tested ++ registeredWorkers s test (worker :: rest) nodeIndex)
      else .error .uninitialised := by
  induction fuel generalizing worker rest workerIt nodeIndex tested with
  | zero => omega
  | succ fuel ih =>
    obtain ⟨hworker, hrest⟩ := getElem?_of_drop_cons hworkers
    have hmore : nodeIndex + 1 < workers.length ↔ rest ≠ [] := by
      rw [← hrest, Ne, drop_eq_nil_iff, not_le]
    cases hlookup : s.serviceNodesInfos.lookup worker with
    | none =>
      have hskipped : (worker :: rest).filterMap s.found = rest.filterMap s.found := by
        simp [State.found, hlookup]
      cases hstate : workerStates[workerIt]? with
      | none =>
        grind [walkWorkers_end, not_isRegistered_getLastD, drop_eq_nil_iff.mpr]
      | some state =>
        have hmem : state ∈ rest.filterMap s.found := by
          rw [← hskipped, ← hstates]
          refine mem_of_mem_head? ?_
          rw [head?_drop, hstate]
          rfl
        obtain ⟨hin, hregistered⟩ := isRegistered_of_found hmem
        have hne : state.1 ≠ worker := by
          rintro rfl
          rw [State.isRegistered, hlookup] at hregistered
          cases hregistered
        cases rest with
        | nil => exact absurd hin not_mem_nil
        | cons next rest =>
          rw [walkWorkers_skip hstate hworker hne,
            ih tested hrest (hstates.trans hskipped) (Nat.lt_of_succ_lt_succ hfuel),
            registeredWorkers_cons s test worker, hlookup, Option.map_none, Option.toList_none,
            nil_append, getLastD_cons]
    | some info =>
      have hfound : (worker :: rest).filterMap s.found =
          (worker, info) :: rest.filterMap s.found := by
        simp [State.found, hlookup]
      obtain ⟨hstate, hstates'⟩ := getElem?_of_drop_cons (hstates.trans hfound)
      rw [walkWorkers_match hstate hworker]
      cases rest with
      | nil =>
        have hregistered : s.isRegistered worker = true := by
          rw [State.isRegistered, hlookup]
          rfl
        rw [if_neg (fun h => hmore.mp h rfl), getLastD_nil, if_pos hregistered,
          registeredWorkers_cons, hlookup]
        rfl
      | cons next rest =>
        rw [if_pos (hmore.mpr (cons_ne_nil _ _)),
          ih _ hrest hstates' (Nat.lt_of_succ_lt_succ hfuel),
          registeredWorkers_cons s test worker, hlookup, append_assoc, Option.map_some,
          Option.toList_some, getLastD_cons]

theorem mem_registeredWorkers {entry : TestedWorker} :
    entry ∈ registeredWorkers s test workers 0 ↔ workers[entry.nodeIndex]? = some entry.pubkey ∧
      ∃ info, s.serviceNodesInfos.lookup entry.pubkey = some info ∧
        entry.vote = test entry.pubkey info := by
  unfold registeredWorkers
  rw [mem_filterMap]
  constructor
  · rintro ⟨⟨key, i⟩, hmem, hentry⟩
    obtain ⟨info, hinfo, rfl⟩ := Option.map_eq_some_iff.mp hentry
    exact ⟨mem_zipIdx_iff_getElem?.mp hmem, info, hinfo, rfl⟩
  · rintro ⟨hworker, info, hinfo, hvote⟩
    obtain ⟨i, key, vote⟩ := entry
    refine ⟨(key, i), mem_zipIdx_iff_getElem?.mpr hworker, ?_⟩
    simp only at hinfo hvote
    rw [hinfo, hvote]
    rfl

end Outcome

/-- A validator tests the registered workers under their own indices exactly if the last
worker is registered. Otherwise the iterator is read at its end. The workers are never
read past their size. -/
theorem process_workers_outcome (s : State) (workers : List PublicKey)
    (obligationsHeight latestHeight : ℕ)
    (checkServiceNode : PublicKey → ServiceNodeInfo → ServiceNodeTestResults) (extra : ℕ) :
    let test key info :=
      voteForState obligationsHeight latestHeight info (checkServiceNode key info)
    processWorkers workers (s.getServiceNodeListState workers) obligationsHeight latestHeight
        checkServiceNode (workers.length + 1 + extra) =
      (if workers.getLast?.all s.isRegistered then .ok (registeredWorkers s test workers 0)
        else .error .uninitialised) ∧
    ∀ entry, entry ∈ registeredWorkers s test workers 0 ↔
      workers[entry.nodeIndex]? = some entry.pubkey ∧
        ∃ info, s.serviceNodesInfos.lookup entry.pubkey = some info ∧
          entry.vote = test entry.pubkey info := by
  refine ⟨?_, fun entry => mem_registeredWorkers⟩
  unfold processWorkers State.getServiceNodeListState
  cases workers with
  | nil => rfl
  | cons worker rest =>
    rw [if_pos (length_pos_of_ne_nil (cons_ne_nil _ _)), if_neg (cons_ne_nil _ _),
      walkWorkers_eq [] rfl rfl (by rw [length_cons]; omega)]
    simp [getLast?_cons]

/-- The last one of two workers is not registered any more. -/
theorem missing_tail_read :
    processWorkers [1, 2] (State.getServiceNodeListState
        { serviceNodesInfos := AList.singleton 1 {} } [1, 2]) 100 101 (fun _ _ => {}) 3 =
      .error .uninitialised := by
  decide

end Arqma.ServiceNodes
