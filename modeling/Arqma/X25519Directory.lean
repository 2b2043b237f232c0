import Arqma.UptimeProofs

/-!
# The directory of x25519 keys

The directory is not changed together with the stored proofs: a registration resets a proof
and the clean-up drops one without a look at the directory, whose entries stay until pruning
finds them older than its lag. An entry therefore agrees with the stored proof of its node
only as long as that proof has a key. A node that proves a new key gives up the key of its
stored proof, whoever is listed under it by then, and no other.
-/
namespace Arqma.ServiceNodes
open Arqma.Cryptonote AList

variable {l : UptimeList} {x : X25519PublicKey} {entry : PublicKey × Int64} {e : UptimeEvent}
  {f : ProofInfo → ProofInfo} {now : UInt64}

/-! ## The keys of the stored proofs -/

namespace Proofs

/-- The x25519 key of the stored proof of a node, null if there is none. -/
def keyOf (proofs : Proofs) (key : PublicKey) : X25519PublicKey :=
  ((proofs.lookup key).getD {}).pubkeyX25519

theorem keyOf_insert (proofs : Proofs) (key node : PublicKey) (p : ProofInfo) :
    Proofs.keyOf (AList.insert node p proofs) key =
      if key = node then p.pubkeyX25519 else proofs.keyOf key := by
  by_cases h : key = node
  · subst h
    simp [keyOf]
  · simp [keyOf, lookup_insert_ne h, h]

/-- A change in place that leaves the key of the proof alone leaves all keys alone. -/
theorem keyOf_touch (hf : ∀ p, (f p).pubkeyX25519 = p.pubkeyX25519)
    (proofs : Proofs) (key node : PublicKey) :
    (proofs.touch node f).keyOf key = proofs.keyOf key := by
  rw [touch, keyOf_insert]
  split_ifs with h
  · rw [h, hf, keyOf]
  · rfl

/-- No node has a key that it did not have before. -/
def KeysFrom (proofs' proofs : Proofs) : Prop :=
  ∀ key, proofs'.keyOf key = 0 ∨ proofs'.keyOf key = proofs.keyOf key

theorem KeysFrom.refl (proofs : Proofs) : KeysFrom proofs proofs := fun _ => .inr rfl

theorem KeysFrom.trans {proofs'' proofs' proofs : Proofs} (h' : KeysFrom proofs'' proofs')
    (h : KeysFrom proofs' proofs) : KeysFrom proofs'' proofs := by
  intro key
  obtain hnull | hsame := h' key
  · exact .inl hnull
  · rw [hsame]
    exact h key

theorem keysFrom_touch (hf : ∀ p, (f p).pubkeyX25519 = p.pubkeyX25519)
    (proofs : Proofs) (node : PublicKey) :
    KeysFrom (proofs.touch node f) proofs :=
  fun key => .inr (keyOf_touch hf proofs key node)

theorem keysFrom_keepEntries (p : PublicKey → ProofInfo → Bool) (proofs : Proofs) :
    KeysFrom (keepEntries p proofs) proofs := by
  intro key
  cases hkept : (keepEntries p proofs).lookup key <;> grind [keyOf, lookup_keepEntries.mp]

end Proofs

section Blocks

open Proofs

variable (env : Env) (rescanning : Bool)

theorem keysFrom_registrationProofs (s : State) (block : Block) (tx : Transaction) (index : ℕ)
    (proofs : Proofs) :
    KeysFrom (registrationProofs env rescanning s block tx index proofs) proofs := by
  unfold registrationProofs
  grind [KeysFrom, keyOf_insert]

theorem keysFrom_applyStateChangeProofs (block : Block) (key : PublicKey) (info : ServiceNodeInfo)
    (proofs : Proofs) (state : NewState) :
    KeysFrom (applyStateChangeProofs rescanning block key info proofs state) proofs := by
  cases state <;> grind [KeysFrom, applyStateChangeProofs, keysFrom_touch]

theorem keysFrom_processTxProofs (history : StateSet) (altStates : AltStates) (block : Block)
    (s : State) (entry : Transaction × ℕ) (proofs : Proofs) :
    KeysFrom (processTxProofs env rescanning history altStates block s entry proofs) proofs := by
  grind [KeysFrom, processTxProofs, keysFrom_registrationProofs, keysFrom_applyStateChangeProofs]

/-- A block gives no node a key. -/
theorem keysFrom_updateProofsFromBlock (history : StateSet) (altStates : AltStates) (s : State)
    (block : Block) (txs : List Transaction) (proofs : Proofs) :
    KeysFrom (updateProofsFromBlock env rescanning history altStates s block txs proofs)
      proofs := by
  have hfold : ∀ (entries : List (Transaction × ℕ)) (acc : (State × Bool) × Proofs),
      KeysFrom (entries.foldl (fun acc entry =>
        (processTx env history altStates block acc.1 entry,
          processTxProofs env rescanning history altStates block acc.1.1 entry acc.2)) acc).2
        acc.2 := by
    intro entries
    induction entries with
    | nil => exact fun acc => .refl acc.2
    | cons entry rest ih =>
      intro acc
      exact (ih _).trans
        (keysFrom_processTxProofs env rescanning history altStates block acc.1.1 entry acc.2)
  exact hfold txs.zipIdx _

end Blocks

/-! ## Runs -/

inductive UptimeEvent
  | proof (hardForkVersion : ℕ) (now clock : UInt64) (proof : UptimeProof)
  | cleanup (now : UInt64)
  | block (chain : Chain) (rescanning : Bool) (b : ChainBlock)
  | altBlock (b : ChainBlock)
  /-- Blocks are popped and the list goes back to other states. What is then scanned again
  comes as blocks of its own. -/
  | detached (list : ServiceNodeList)
  | checkpointVote (key : PublicKey) (height : ℕ) (voted : Bool)
  | reachable (clock : UInt64) (key : PublicKey) (value : Bool)

def UptimeEvent.isProof : UptimeEvent → Bool
  | .proof _ _ _ _ => true
  | _ => false

namespace UptimeList

variable (env : UptimeEnv)

def step (l : UptimeList) : UptimeEvent → UptimeList
  | .proof hardForkVersion now clock proof =>
    (l.handleUptimeProof env hardForkVersion now clock proof).1
  | .cleanup now => l.cleanupProofs now
  | .block chain rescanning b => l.processBlock env chain rescanning b
  | .altBlock b => l.altBlockAdded env b
  | .detached list => { l with list }
  | .checkpointVote key height voted => l.recordCheckpointVote key height voted
  | .reachable clock key value => l.setStorageServerPeerReachable clock key value

def after (l : UptimeList) (events : List UptimeEvent) : UptimeList := events.foldl (step env) l

/-- An entry agrees with the stored proof of its node, if that has a key, and no node is
listed twice. -/
structure Consistent (l : UptimeList) : Prop where
  agrees : ∀ {x key seen}, l.x25519ToPub.lookup x = some (key, seen) →
    l.proofs.keyOf key = 0 ∨ l.proofs.keyOf key = x
  unique : ∀ {x y key seen seen'}, l.x25519ToPub.lookup x = some (key, seen) →
    l.x25519ToPub.lookup y = some (key, seen') → x = y
  proper : ∀ {x entry}, l.x25519ToPub.lookup x = some entry → x ≠ 0

variable {env}

theorem Consistent.congr {l l' : UptimeList} (h : Consistent l)
    (hmap : l'.x25519ToPub = l.x25519ToPub) (hkeys : Proofs.KeysFrom l'.proofs l.proofs) :
    Consistent l' where
  agrees {x key seen} hx := by
    rw [hmap] at hx
    obtain hnull | hsame := hkeys key
    · exact .inl hnull
    · rw [hsame]
      exact h.agrees hx
  unique hx hy := by
    rw [hmap] at hx hy
    exact h.unique hx hy
  proper hx := by
    rw [hmap] at hx
    exact h.proper hx

/-! ### Recording a proof -/

section Record

variable {l : UptimeList} {now clock : UInt64} {proof : UptimeProof} {derived : X25519PublicKey}

theorem prunedX25519Map_lookup : (l.prunedX25519Map now).lookup x = some entry ↔
      l.x25519ToPub.lookup x = some entry ∧
        ¬(l.prunesX25519Map now = true ∧ expired now entry.2 = true) := by
  unfold prunedX25519Map
  split_ifs with h
  · simp [lookup_keepEntries, h]
  · simp [h]

theorem recordProof_lookup (hderived : derived ≠ 0) :
    (l.recordProof now clock proof derived).x25519ToPub.lookup x = some entry ↔
      (x = derived ∧ entry = (proof.pubkey, now.toInt64)) ∨
        (x ≠ derived ∧ (l.proofs.keyOf proof.pubkey = 0 ∨ x ≠ l.proofs.keyOf proof.pubkey) ∧
          (l.prunedX25519Map now).lookup x = some entry) := by
  simp only [recordProof, if_pos hderived]
  by_cases hx : x = derived
  · subst hx
    simp [eq_comm]
  · rw [lookup_insert_ne hx]
    change (if l.proofs.keyOf proof.pubkey ≠ 0 ∧ l.proofs.keyOf proof.pubkey ≠ derived then
      (l.prunedX25519Map now).erase (l.proofs.keyOf proof.pubkey)
      else l.prunedX25519Map now).lookup x = some entry ↔ _
    by_cases hnull : l.proofs.keyOf proof.pubkey = 0
    · rw [if_neg fun h => h.1 hnull]
      simp only [hx, hnull, false_and, false_or, ne_eq, not_false_eq_true, true_or, true_and]
    · grind [lookup_erase, lookup_erase_ne]

theorem recordProof_keyOf (key : PublicKey) :
    (l.recordProof now clock proof derived).proofs.keyOf key =
      if key = proof.pubkey then derived else l.proofs.keyOf key :=
  Proofs.keyOf_insert l.proofs key proof.pubkey _

/-- What keeps the directory consistent when a proof is recorded: a node that is listed under
another key than it proves has this key in its stored proof, and the key of its stored proof
is not listed for another node, unless it proves it again. -/
structure Careful (l : UptimeList) (node : PublicKey) (derived : X25519PublicKey) : Prop where
  listed : ∀ e ∈ l.x25519ToPub.entries, e.2.1 = node →
    e.1 = derived ∨ e.1 = l.proofs.keyOf node
  own : ∀ e ∈ l.x25519ToPub.entries, e.1 = l.proofs.keyOf node → e.1 = derived ∨ e.2.1 = node

theorem Consistent.recordProof (h : Consistent l) (hderived : derived ≠ 0)
    (hcareful : Careful l proof.pubkey derived) :
    Consistent (l.recordProof now clock proof derived) := by
  -- the entries of the node itself are under its new key
  have hnode : ∀ {x seen}, (l.recordProof now clock proof derived).x25519ToPub.lookup x =
      some (proof.pubkey, seen) → x = derived := by
    intro x seen hx
    obtain ⟨hx, -⟩ | ⟨hne, hkept, hpruned⟩ := (recordProof_lookup hderived).mp hx
    · exact hx
    · have hlisted := (prunedX25519Map_lookup.mp hpruned).1
      obtain hx | hx := hcareful.listed _ (mem_lookup_iff.mp hlisted) rfl
      · exact hx
      · obtain hnull | hnot := hkept
        · exact absurd (hx.trans hnull) (h.proper hlisted)
        · exact absurd hx hnot
  have hother : ∀ {x key seen}, key ≠ proof.pubkey →
      (l.recordProof now clock proof derived).x25519ToPub.lookup x = some (key, seen) →
      l.x25519ToPub.lookup x = some (key, seen) := by
    intro x key seen hkey hx
    obtain ⟨-, hentry⟩ | ⟨-, -, hpruned⟩ := (recordProof_lookup hderived).mp hx
    · exact absurd (congrArg Prod.fst hentry) hkey
    · exact (prunedX25519Map_lookup.mp hpruned).1
  refine ⟨fun {x key seen} hx => ?_, fun {x y key seen seen'} hx hy => ?_, fun {x entry} hx => ?_⟩
  · grind [recordProof_keyOf, h.agrees]
  · grind [h.unique]
  · grind [h.proper]

theorem recordProof_keeps (hderived : derived ≠ 0) (hcareful : Careful l proof.pubkey derived)
    {key : PublicKey} {seen : Int64} (hkey : key ≠ proof.pubkey)
    (hx : l.x25519ToPub.lookup x = some (key, seen)) :
    (l.recordProof now clock proof derived).x25519ToPub.lookup x = some (key, seen) ∨
      (l.prunesX25519Map now = true ∧ expired now seen = true) ∨ x = derived := by
  by_cases htaken : x = derived
  · exact .inr (.inr htaken)
  by_cases hexpired : l.prunesX25519Map now = true ∧ expired now seen = true
  · exact .inr (.inl hexpired)
  refine .inl ((recordProof_lookup hderived).mpr (.inr ⟨htaken, .inr fun hold => ?_, ?_⟩))
  · obtain h | h := hcareful.own _ (mem_lookup_iff.mp hx) hold
    · exact htaken h
    · exact hkey h
  · exact prunedX25519Map_lookup.mpr ⟨hx, hexpired⟩

end Record

/-! ### The events -/

theorem checkUptimeProof_ok {hardForkVersion : ℕ} {proof : UptimeProof}
    {derived : X25519PublicKey} (h : checkUptimeProof env hardForkVersion now proof = .ok derived) :
    env.ed25519PkToCurve25519 proof.pubkeyEd25519 = some derived ∧ derived ≠ 0 := by
  cases hcurve : env.ed25519PkToCurve25519 proof.pubkeyEd25519 with
  | none =>
    simp only [checkUptimeProof, hcurve] at h
    split_ifs at h
  | some found =>
    simp only [checkUptimeProof, hcurve] at h
    split_ifs at h with _ _ _ _ _ _ hnull
    cases h
    exact ⟨rfl, hnull⟩

variable (env) in
theorem handleUptimeProof_cases (l : UptimeList) (hardForkVersion : ℕ) (now clock : UInt64)
    (proof : UptimeProof) :
    (∃ derived own, env.ed25519PkToCurve25519 proof.pubkeyEd25519 = some derived ∧
      derived ≠ 0 ∧ l.handleUptimeProof env hardForkVersion now clock proof =
        (l.recordProof now clock proof derived, .ok own)) ∨
    ((l.handleUptimeProof env hardForkVersion now clock proof).1.x25519ToPub = l.x25519ToPub ∧
      Proofs.KeysFrom (l.handleUptimeProof env hardForkVersion now clock proof).1.proofs
        l.proofs) := by
  unfold handleUptimeProof
  cases hcheck : checkUptimeProof env hardForkVersion now proof with
  | error reason => exact .inr ⟨rfl, .refl _⟩
  | ok derived =>
    obtain ⟨hcurve, hnull⟩ := checkUptimeProof_ok hcheck
    dsimp only
    split_ifs
    · exact .inr ⟨rfl, .refl _⟩
    · exact .inr ⟨rfl, Proofs.keysFrom_touch (fun _ => rfl) l.proofs proof.pubkey⟩
    · exact .inl ⟨derived, _, hcurve, hnull, rfl⟩

variable (env) in
/-- The only event that asks for care is a proof that is accepted. -/
def CarefulEvent (l : UptimeList) : UptimeEvent → Prop
  | .proof hardForkVersion now clock proof =>
    (l.handleUptimeProof env hardForkVersion now clock proof).2.isOk = true →
      Careful l proof.pubkey ((env.ed25519PkToCurve25519 proof.pubkeyEd25519).getD 0)
  | _ => True

variable (env) in
/-- A run whose accepted proofs are all careful. -/
def CarefulRun : UptimeList → List UptimeEvent → Prop
  | _, [] => True
  | l, e :: events => CarefulEvent env l e ∧ CarefulRun (step env l e) events

variable (env) in
/-- What an event may take from the directory: a proof of one node takes an entry of another
only by pruning or by proving its key, and nothing else takes any. -/
def Spares (l : UptimeList) : UptimeEvent → Prop
  | .proof hardForkVersion now clock proof =>
    ∀ x key seen, key ≠ proof.pubkey → l.x25519ToPub.lookup x = some (key, seen) →
      (step env l (.proof hardForkVersion now clock proof)).x25519ToPub.lookup x =
          some (key, seen) ∨
        (l.prunesX25519Map now = true ∧ expired now seen = true) ∨
        env.ed25519PkToCurve25519 proof.pubkeyEd25519 = some x
  | e => (step env l e).x25519ToPub = l.x25519ToPub

theorem keysFrom_processBlock (chain : Chain) (rescanning : Bool) (l : UptimeList)
    (b : ChainBlock) :
    Proofs.KeysFrom (l.processBlock env chain rescanning b).proofs l.proofs := by
  unfold processBlock
  dsimp only
  split_ifs
  · exact .refl _
  · exact keysFrom_updateProofsFromBlock _ _ _ _ _ _ _ _

theorem altBlockAdded_spec (l : UptimeList) (b : ChainBlock) :
    (l.altBlockAdded env b).x25519ToPub = l.x25519ToPub ∧
      Proofs.KeysFrom (l.altBlockAdded env b).proofs l.proofs := by
  grind [altBlockAdded, Proofs.KeysFrom, keysFrom_updateProofsFromBlock]

theorem recordCheckpointVote_spec (l : UptimeList) (key : PublicKey) (height : ℕ) (voted : Bool) :
    (l.recordCheckpointVote key height voted).x25519ToPub = l.x25519ToPub ∧
      Proofs.KeysFrom (l.recordCheckpointVote key height voted).proofs l.proofs := by
  grind [recordCheckpointVote, Proofs.KeysFrom, Proofs.keysFrom_touch]

theorem setStorageServerPeerReachable_spec (l : UptimeList) (clock : UInt64) (key : PublicKey)
    (value : Bool) :
    (l.setStorageServerPeerReachable clock key value).x25519ToPub = l.x25519ToPub ∧
      Proofs.KeysFrom (l.setStorageServerPeerReachable clock key value).proofs l.proofs := by
  grind [setStorageServerPeerReachable, Proofs.KeysFrom, Proofs.keysFrom_touch]

variable (env) in
/-- An event that is not a proof leaves the directory and gives no node a key. -/
theorem step_of_not_proof (l : UptimeList) (he : e.isProof = false) :
    (step env l e).x25519ToPub = l.x25519ToPub ∧
      Proofs.KeysFrom (step env l e).proofs l.proofs := by
  cases e with
  | proof hardForkVersion now clock proof => cases he
  | cleanup now => exact ⟨rfl, Proofs.keysFrom_keepEntries _ l.proofs⟩
  | block chain rescanning b => exact ⟨rfl, keysFrom_processBlock chain rescanning l b⟩
  | altBlock b => exact altBlockAdded_spec l b
  | detached list => exact ⟨rfl, .refl _⟩
  | checkpointVote key height voted => exact recordCheckpointVote_spec l key height voted
  | reachable clock key value => exact setStorageServerPeerReachable_spec l clock key value

theorem Consistent.step (h : Consistent l) (hcareful : CarefulEvent env l e) :
    Consistent (step env l e) := by
  cases e with
  | proof hardForkVersion now clock proof =>
    obtain ⟨derived, own, hcurve, hnull, haccepted⟩ | ⟨hmap, hkeys⟩ :=
      handleUptimeProof_cases env l hardForkVersion now clock proof
    · have hcare := hcareful (by rw [haccepted]; rfl)
      rw [hcurve] at hcare
      change Consistent (l.handleUptimeProof env hardForkVersion now clock proof).1
      rw [haccepted]
      exact h.recordProof hnull hcare
    · exact h.congr hmap hkeys
  | _ => exact h.congr (step_of_not_proof env l rfl).1 (step_of_not_proof env l rfl).2

theorem spares_of_careful (hcareful : CarefulEvent env l e) : Spares env l e := by
  cases e with
  | proof hardForkVersion now clock proof =>
    intro x key seen hkey hx
    obtain ⟨derived, own, hcurve, hnull, haccepted⟩ | ⟨hmap, -⟩ :=
      handleUptimeProof_cases env l hardForkVersion now clock proof
    · have hcare := hcareful (by rw [haccepted]; rfl)
      rw [hcurve] at hcare
      rw [hcurve, Option.some.injEq, UptimeList.step, haccepted, eq_comm (a := derived)]
      exact recordProof_keeps hnull hcare hkey hx
    · exact .inl (by rw [UptimeList.step, hmap]; exact hx)
  | _ => exact (step_of_not_proof env l rfl).1

/-- Invariant along a run. -/
theorem Consistent.after (h : Consistent l) {events : List UptimeEvent}
    (hrun : CarefulRun env l events) : Consistent (after env l events) := by
  induction events generalizing l with
  | nil => exact h
  | cons e events ih => exact ih (h.step hrun.1) hrun.2

theorem spares_of_carefulRun {earlier later : List UptimeEvent}
    (hrun : CarefulRun env l (earlier ++ e :: later)) :
    Spares env (after env l earlier) e := by
  induction earlier generalizing l with
  | nil => exact spares_of_careful hrun.1
  | cons first earlier ih => exact ih hrun.2

/-! ### A loaded list -/

theorem enterNode_lookup {node : PublicKey}
    {map : AList (fun _ : X25519PublicKey => PublicKey × Int64)}
    (h : (l.enterNode now map node).lookup x = some entry) :
    map.lookup x = some entry ∨ (entry.1 = node ∧ x = l.proofs.keyOf node ∧ x ≠ 0) := by
  grind [enterNode, emplaceEntry, lookup_insert, Proofs.keyOf, lookup_insert_ne]

theorem consistent_loaded (now : UInt64) (list : ServiceNodeList) (proofs : Proofs) :
    Consistent (loaded env now list proofs) := by
  have hfold : ∀ (l : UptimeList) (nodes : List PublicKey)
      (map : AList (fun _ : X25519PublicKey => PublicKey × Int64)),
      (∀ {x entry}, map.lookup x = some entry → x = l.proofs.keyOf entry.1 ∧ x ≠ 0) →
      ∀ {x entry}, (nodes.foldl (l.enterNode now) map).lookup x = some entry →
        x = l.proofs.keyOf entry.1 ∧ x ≠ 0 := by
    intro l nodes
    induction nodes with
    | nil => exact fun map hmap => hmap
    | cons node nodes ih =>
      intro map hmap
      refine ih _ fun {x entry} hx => ?_
      obtain hx | ⟨rfl, hx⟩ := enterNode_lookup hx
      · exact hmap hx
      · exact hx
  have hentry : ∀ {x entry}, (loaded env now list proofs).x25519ToPub.lookup x = some entry →
      x = (loaded env now list proofs).proofs.keyOf entry.1 ∧ x ≠ 0 :=
    hfold _ list.state.serviceNodesInfos.keys ∅ (by simp)
  exact ⟨fun hx => .inr (hentry hx).1.symm,
    fun hx hy => (hentry hx).1.trans (hentry hy).1.symm, fun hx => (hentry hx).2⟩

/-! ### The directory along a run -/

/-- In every run from a loaded list whose accepted proofs are careful, the directory agrees
with the stored proofs that have a key, lists no node twice, and loses the entry of a node
only to pruning, to the node itself or to one that proves the same key. -/
theorem x25519_directory_consistent (env : UptimeEnv) (now : UInt64) (list : ServiceNodeList)
    (proofs : Proofs) (events : List UptimeEvent)
    (hrun : CarefulRun env (loaded env now list proofs) events) :
    Consistent (after env (loaded env now list proofs) events) ∧
      ∀ earlier e later, events = earlier ++ e :: later →
        Spares env (after env (loaded env now list proofs) earlier) e := by
  refine ⟨(consistent_loaded now list proofs).after hrun, ?_⟩
  rintro earlier e later rfl
  exact spares_of_carefulRun hrun

section Sample

-- The keys are a finite type, so a plain `decide` would run over all of them.
instance (l : UptimeList) (node : PublicKey) (derived : X25519PublicKey) :
    Decidable (Careful l node derived) :=
  have := List.decidableBAll (fun e : (_ : X25519PublicKey) × PublicKey × Int64 =>
    e.2.1 = node → e.1 = derived ∨ e.1 = l.proofs.keyOf node) l.x25519ToPub.entries
  have := List.decidableBAll (fun e : (_ : X25519PublicKey) × PublicKey × Int64 =>
    e.1 = l.proofs.keyOf node → e.1 = derived ∨ e.2.1 = node) l.x25519ToPub.entries
  decidable_of_iff
    ((∀ e ∈ l.x25519ToPub.entries, e.2.1 = node → e.1 = derived ∨ e.1 = l.proofs.keyOf node) ∧
      ∀ e ∈ l.x25519ToPub.entries, e.1 = l.proofs.keyOf node → e.1 = derived ∨ e.2.1 = node)
    ⟨fun h => ⟨h.1, h.2⟩, fun h => ⟨h.listed, h.own⟩⟩

instance (env : UptimeEnv) (l : UptimeList) : DecidablePred (CarefulEvent env l)
  | .proof hardForkVersion now clock proof =>
    inferInstanceAs (Decidable ((l.handleUptimeProof env hardForkVersion now clock proof).2.isOk =
      true → Careful l proof.pubkey ((env.ed25519PkToCurve25519 proof.pubkeyEd25519).getD 0)))
  | .cleanup _ | .block _ _ _ | .altBlock _ | .detached _ | .checkpointVote _ _ _
  | .reachable _ _ _ => inferInstanceAs (Decidable True)

instance decidableCarefulRun (env : UptimeEnv) :
    ∀ (events : List UptimeEvent) (l : UptimeList), Decidable (CarefulRun env l events)
  | [], _ => inferInstanceAs (Decidable True)
  | e :: events, l =>
    have := decidableCarefulRun env events (step env l e)
    inferInstanceAs (Decidable (CarefulEvent env l e ∧ CarefulRun env (step env l e) events))

/-- Every signature is good and the x25519 key is the ed25519 key with its last bit changed. -/
def sampleUptimeEnv : UptimeEnv where
  toEnv := sampleEnv
  serviceNodeKey := none
  isIpPublic _ := true
  hashUptimeProof _ _ := 0
  verifyDetached _ _ _ := true
  ed25519PkToCurve25519 key := some (key ^^^ 1)

/-- A proof of a node received at the time it was made. -/
def proofAt (now : UInt64) (node ed25519 : ℕ) : UptimeEvent :=
  .proof 16 now now
    { arqmaSnodeVersion := [7, 2, 0]
      timestamp := now
      publicIp := 134744072
      storagePort := 0
      arqnetPort := 19994
      pubkey := BitVec.ofNat 256 node
      sig := 0
      pubkeyEd25519 := BitVec.ofNat 256 ed25519
      sigEd25519 := 0 }

/-- A chain under hard fork 16. -/
def uptimeChain : Chain where
  blocks := []
  hardForkVersion _ := 16
  currentHardForkVersion := 16
  hardFork16FromHeight := 1
  immutableCheckpoint _ := none

def registeringBlock (height node : ℕ) : UptimeEvent :=
  .block uptimeChain false ⟨sampleBlock 16 height, [fullRegistration node]⟩

/-- Two nodes register and prove a key, the first one proves another one, the second one is
gone after a reorganization and its proof is cleaned up. -/
def carefulEvents : List UptimeEvent :=
  [registeringBlock 1 1, registeringBlock 2 2, proofAt 1000000 1 10, proofAt 1000100 2 20,
    proofAt 1010000 1 12, .detached {}, .cleanup 1040000]

theorem carefulEvents_consistent :
    CarefulRun sampleUptimeEnv (loaded sampleUptimeEnv 0 {} ∅) carefulEvents ∧
      ((after sampleUptimeEnv (loaded sampleUptimeEnv 0 {} ∅) carefulEvents).x25519ToPub.entries.map
        fun e => (e.1, e.2.1)) = [(13, 1), (21, 2)] ∧
      Consistent (after sampleUptimeEnv (loaded sampleUptimeEnv 0 {} ∅) carefulEvents) := by
  have hcareful : CarefulRun sampleUptimeEnv (loaded sampleUptimeEnv 0 {} ∅) carefulEvents := by
    decide +kernel
  exact ⟨hcareful, by decide +kernel,
    (x25519_directory_consistent sampleUptimeEnv 0 {} ∅ carefulEvents hcareful).1⟩

/-- The entries agree with the stored proofs of their nodes. -/
def Agrees (l : UptimeList) : Prop :=
  ∀ e ∈ l.x25519ToPub.entries, ∃ proof ∈ l.proofs.lookup e.2.1, proof.pubkeyX25519 = e.1

instance : DecidablePred Agrees := fun l => List.decidableBAll _ l.x25519ToPub.entries

/-- No node is listed under two keys. -/
def ListedOnce (l : UptimeList) : Prop :=
  ∀ e ∈ l.x25519ToPub.entries, ∀ e' ∈ l.x25519ToPub.entries, e.2.1 = e'.2.1 → e.1 = e'.1

instance : DecidablePred ListedOnce := fun l =>
  have := fun e : (_ : X25519PublicKey) × PublicKey × Int64 =>
    List.decidableBAll (fun e' : (_ : X25519PublicKey) × PublicKey × Int64 =>
      e.2.1 = e'.2.1 → e.1 = e'.1) l.x25519ToPub.entries
  List.decidableBAll _ l.x25519ToPub.entries

/-- An event about a node leaves the entries of all other nodes under their current keys. -/
def KeepsCurrent (env : UptimeEnv) (l : UptimeList) (node : PublicKey) (e : UptimeEvent) : Prop :=
  ∀ entry ∈ l.x25519ToPub.entries, entry.2.1 ≠ node → l.proofs.keyOf entry.2.1 = entry.1 →
    ((step env l e).x25519ToPub.lookup entry.1).map Prod.fst = some entry.2.1

instance (env : UptimeEnv) (l : UptimeList) (node : PublicKey) (e : UptimeEvent) :
    Decidable (KeepsCurrent env l node e) := List.decidableBAll _ l.x25519ToPub.entries

/-- The clean-up leaves the entry of a node without a proof. A node that is registered again
after a reorganization and proves another key is listed under both. A proof of one node
prunes the entry of another whose proof is a day old. -/
theorem directory_diverges :
    ¬Agrees (after sampleUptimeEnv (loaded sampleUptimeEnv 0 {} ∅)
      [registeringBlock 1 1, proofAt 1000000 1 10, .detached {}, .cleanup 1040000]) ∧
    ¬ListedOnce (after sampleUptimeEnv (loaded sampleUptimeEnv 0 {} ∅)
      [registeringBlock 1 1, proofAt 1000000 1 10, .detached {}, registeringBlock 1 1,
        proofAt 1010000 1 12]) ∧
    ¬KeepsCurrent sampleUptimeEnv (after sampleUptimeEnv (loaded sampleUptimeEnv 0 {} ∅)
      [registeringBlock 1 1, registeringBlock 2 2, proofAt 1000000 1 10]) 2
      (proofAt 1090000 2 20) := by
  decide +kernel

end Sample

end UptimeList
end Arqma.ServiceNodes
