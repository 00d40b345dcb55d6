import OmegaHarness.KeyedTables
import OmegaHarness.NodeConfigs

/-!
# Bringing up a cluster

Every node decides on its own whether it initialises the cluster: it does if no other node
has a smaller id and if the metrics show it no log. The metrics start empty and are brought
up to date by another task, so a node which is started again may see none although it has
entries; the consensus library then refuses to initialise it. Entries reach a node from
nodes which have some. A node may lose its storage. What the losses of the node with the
least id do is counted, as nothing in the code keeps it from initialising again.
-/
namespace OmegaHarness.ClusterBootstrap
open KeyedTables ClaimSubmission NodeConfigs

def isInitialiser (config : NodeConfig) : Bool :=
  (config.nodeId::config.peers.map PeerConfig.nodeId).min? = some config.nodeId

def shouldInitializeCluster (config : NodeConfig) (lastLogIndex : Option ℕ) : Bool :=
  isInitialiser config && lastLogIndex.isNone

/-- Ids with addresses. A peer with the id of another entry replaces it. -/
def initialMembers (config : NodeConfig) : Table UInt64 String :=
  addAll ((∅ : Table UInt64 String).insert config.nodeId config.libp2pListen)
    (config.peers.map fun peer => (peer.nodeId,peer.libp2pAddr))

/-- The last index in the log of each node, the clusters which were initialised, the latest
first, and the losses of the node with the least id. -/
structure Cluster where
  lastLog : UInt64 → Option ℕ
  initialised : List (NodeConfig × Table UInt64 String)
  losses : ℕ

def untouched : Cluster := ⟨fun _ => none,[],0⟩

/-- The step of `start` which may initialise. The members become the first entry of the log. -/
def bootstrap (σ : Cluster) (config : NodeConfig) (metrics : Option ℕ) :
    Except ConsensusError Cluster :=
  if shouldInitializeCluster config metrics then
    match σ.lastLog config.nodeId with
    | some _ => .error (.raft "not allowed to initialize due to current raft state")
    | none => .ok { σ with
        lastLog := Function.update σ.lastLog config.nodeId (some 0)
        initialised := (config,initialMembers config)::σ.initialised }
  else .ok σ

/-- No node has a smaller id. -/
def Least (nodes : List NodeConfig) (id : UInt64) : Prop := ∀ c ∈ nodes, id ≤ c.nodeId

instance (nodes : List NodeConfig) (id : UInt64) : Decidable (Least nodes id) :=
  inferInstanceAs (Decidable (∀ c ∈ nodes, id ≤ c.nodeId))

inductive Step (nodes : List NodeConfig) : Cluster → Cluster → Prop
  | starts {σ σ' : Cluster} {config : NodeConfig} {metrics : Option ℕ} (mem : config ∈ nodes)
      (stale : metrics = σ.lastLog config.nodeId ∨ metrics = none)
      (run : bootstrap σ config metrics = .ok σ') : Step nodes σ σ'
  | replicates {σ : Cluster} {source target : NodeConfig} (index : ℕ) (mem : source ∈ nodes)
      (reached : target ∈ nodes) (filled : σ.lastLog source.nodeId ≠ none) :
      Step nodes σ { σ with lastLog := Function.update σ.lastLog target.nodeId (some index) }
  | loses {σ : Cluster} {config : NodeConfig} (mem : config ∈ nodes) :
      Step nodes σ { σ with
        lastLog := Function.update σ.lastLog config.nodeId none
        losses := if Least nodes config.nodeId then σ.losses+1 else σ.losses }

inductive Reachable (nodes : List NodeConfig) : Cluster → Prop
  | start : Reachable nodes untouched
  | step {σ σ' : Cluster} (reached : Reachable nodes σ) (next : Step nodes σ σ') : Reachable nodes σ'

/-- Every node lists all the others, once. -/
structure Consistent (nodes : List NodeConfig) : Prop where
  distinct : ∀ c ∈ nodes, (c.nodeId::c.peers.map PeerConfig.nodeId).Nodup
  complete : ∀ c ∈ nodes, ∀ id, id ∈ c.nodeId::c.peers.map PeerConfig.nodeId ↔
    ∃ c' ∈ nodes, c'.nodeId = id

section Bootstraps
variable {nodes : List NodeConfig} {config : NodeConfig} {metrics : Option ℕ} {σ σ' : Cluster}

theorem isInitialiser_iff :
    isInitialiser config ↔ ∀ id ∈ config.nodeId::config.peers.map PeerConfig.nodeId,
      config.nodeId ≤ id := by
  rw [isInitialiser,decide_eq_true_iff,List.min?_eq_some_iff]
  exact and_iff_right List.mem_cons_self

/-- The initialiser of a consistent cluster has the least id. -/
theorem Consistent.least (h : Consistent nodes) (hmem : config ∈ nodes)
    (hinitialiser : isInitialiser config) : Least nodes config.nodeId := by
  intro c hc
  exact isInitialiser_iff.mp hinitialiser c.nodeId ((h.complete config hmem c.nodeId).mpr ⟨c,hc,rfl⟩)

/-- The rows of the first membership: what a node knows of itself and of its peers. -/
def memberRows (config : NodeConfig) : List (UInt64 × String) :=
  (config.nodeId,config.libp2pListen)::config.peers.map fun peer => (peer.nodeId,peer.libp2pAddr)

theorem initialMembers_rows : initialMembers config = addAll ∅ (memberRows config) := rfl

theorem memberRows_ids :
    (memberRows config).map Prod.fst = config.nodeId::config.peers.map PeerConfig.nodeId := by
  simp [memberRows]

theorem mem_initialMembers {id : UInt64} :
    id ∈ initialMembers config ↔ id ∈ config.nodeId::config.peers.map PeerConfig.nodeId := by
  rw [initialMembers_rows,mem_addAll,memberRows_ids]
  exact or_iff_right Finmap.notMem_empty

theorem lookup_initialMembers {row : UInt64 × String}
    (h : (config.nodeId::config.peers.map PeerConfig.nodeId).Nodup) (hrow : row ∈ memberRows config) :
    (initialMembers config).lookup row.1 = some row.2 := by
  rw [initialMembers_rows]
  exact lookup_addAll_inside (addable_empty.mpr (memberRows_ids ▸ h)) hrow

/-- A start changes nothing, or it was the initialiser and its log was empty. -/
theorem bootstrap_cases (h : bootstrap σ config metrics = .ok σ') :
    σ' = σ ∨ isInitialiser config ∧ σ.lastLog config.nodeId = none ∧
      σ' = { σ with
        lastLog := Function.update σ.lastLog config.nodeId (some 0)
        initialised := (config,initialMembers config)::σ.initialised } := by
  rw [bootstrap] at h
  split at h
  · next hshould =>
      split at h
      · cases h
      · next hempty =>
          cases h
          exact Or.inr ⟨(Bool.and_eq_true_iff.mp hshould).1,hempty,rfl⟩
  · cases h
    exact Or.inl rfl

theorem bootstrap_empty (hinitialiser : isInitialiser config)
    (hempty : σ.lastLog config.nodeId = none) :
    bootstrap σ config none = .ok { σ with
      lastLog := Function.update σ.lastLog config.nodeId (some 0)
      initialised := (config,initialMembers config)::σ.initialised } := by
  have hshould : shouldInitializeCluster config none = true := by
    rw [shouldInitializeCluster,hinitialiser]
    rfl
  rw [bootstrap,if_pos hshould,hempty]

end Bootstraps

section Runs
variable {nodes : List NodeConfig} {σ σ' : Cluster}

/-- Each initialisation is paid for: by a loss of the initialiser's storage, or by the log
which the initialiser has now. -/
structure Accounted (nodes : List NodeConfig) (σ : Cluster) : Prop where
  paid : ∀ c ∈ nodes, Least nodes c.nodeId →
    σ.initialised.length ≤ σ.losses+(σ.lastLog c.nodeId).isSome.toNat
  honest : ∀ p ∈ σ.initialised, p.1 ∈ nodes ∧ Least nodes p.1.nodeId ∧ p.2 = initialMembers p.1
  quiet : σ.initialised = [] → ∀ c ∈ nodes, σ.lastLog c.nodeId = none

theorem least_unique {c c' : NodeConfig} (hc : c ∈ nodes) (hc' : c' ∈ nodes)
    (h : Least nodes c.nodeId) (h' : Least nodes c'.nodeId) : c.nodeId = c'.nodeId :=
  UInt64.le_antisymm (h c' hc') (h' c hc)

/-- One initialisation is never worth more than one. -/
theorem Accounted.paid_le (h : Accounted nodes σ) {c : NodeConfig} (hc : c ∈ nodes)
    (hleast : Least nodes c.nodeId) : σ.initialised.length ≤ σ.losses+1 :=
  le_trans (h.paid c hc hleast) (Nat.add_le_add_left (Bool.toNat_le _) _)

theorem Accounted.starts {config : NodeConfig} {metrics : Option ℕ} (hconsistent : Consistent nodes)
    (h : Accounted nodes σ) (hmem : config ∈ nodes) (hrun : bootstrap σ config metrics = .ok σ') :
    Accounted nodes σ' := by
  rcases bootstrap_cases hrun with rfl | ⟨hinitialiser,hempty,rfl⟩
  · exact h
  have hleast := hconsistent.least hmem hinitialiser
  refine ⟨?_,?_,nofun⟩
  · intro c hc hfirst
    have hpaid := h.paid config hmem hleast
    rw [hempty] at hpaid
    dsimp only
    rw [least_unique hc hmem hfirst hleast,Function.update_self]
    exact Nat.succ_le_succ hpaid
  · intro p hp
    rcases List.mem_cons.mp hp with rfl | hp
    · exact ⟨hmem,hleast,rfl⟩
    · exact h.honest p hp

theorem Accounted.replicates {source target : NodeConfig} (h : Accounted nodes σ)
    (hmem : source ∈ nodes) (hfilled : σ.lastLog source.nodeId ≠ none) (index : ℕ) :
    Accounted nodes { σ with lastLog := Function.update σ.lastLog target.nodeId (some index) } where
  paid c hc hfirst := by
    dsimp only
    by_cases hsame : c.nodeId = target.nodeId
    · rw [hsame,Function.update_self]
      exact h.paid_le hc hfirst
    · rw [Function.update_of_ne hsame]
      exact h.paid c hc hfirst
  honest := h.honest
  quiet hnone := (hfilled (h.quiet hnone source hmem)).elim

theorem Accounted.loses {config : NodeConfig} (h : Accounted nodes σ) (hmem : config ∈ nodes) :
    Accounted nodes { σ with
      lastLog := Function.update σ.lastLog config.nodeId none
      losses := if Least nodes config.nodeId then σ.losses+1 else σ.losses } where
  paid c hc hfirst := by
    dsimp only
    by_cases hsame : c.nodeId = config.nodeId
    · rw [← hsame,Function.update_self,if_pos hfirst]
      exact h.paid_le hc hfirst
    · have hother : ¬Least nodes config.nodeId := fun hleast =>
        hsame (least_unique hc hmem hfirst hleast)
      rw [Function.update_of_ne hsame,if_neg hother]
      exact h.paid c hc hfirst
  honest := h.honest
  quiet hnone c hc := by
    dsimp only
    by_cases hsame : c.nodeId = config.nodeId
    · rw [hsame,Function.update_self]
    · rw [Function.update_of_ne hsame]
      exact h.quiet hnone c hc

theorem Accounted.step (hconsistent : Consistent nodes) (h : Accounted nodes σ)
    (hstep : Step nodes σ σ') : Accounted nodes σ' := by
  cases hstep with
  | starts mem stale run => exact h.starts hconsistent mem run
  | replicates index mem reached filled => exact h.replicates mem filled index
  | loses mem => exact h.loses mem

theorem Reachable.accounted (hconsistent : Consistent nodes) (h : Reachable nodes σ) :
    Accounted nodes σ := by
  induction h with
  | start => exact ⟨fun _ _ _ => Nat.zero_le _,nofun,fun _ _ _ => rfl⟩
  | step reached next ih => exact ih.step hconsistent next

/-- Whatever the order of starts, a cluster is initialised once, and once more at most for
each time that the node with the least id loses its storage. The other nodes may lose
theirs. Every initialisation is by that node, with all nodes as members and with their
configured addresses, and without one there are no entries anywhere. -/
theorem cluster_initialised_once (hconsistent : Consistent nodes) (h : Reachable nodes σ) :
    σ.initialised.length ≤ σ.losses+1 ∧
    (∀ p ∈ σ.initialised, p.1 ∈ nodes ∧ (∀ c ∈ nodes, p.1.nodeId ≤ c.nodeId) ∧
      (∀ id, id ∈ p.2 ↔ ∃ c ∈ nodes, c.nodeId = id) ∧
      p.2.lookup p.1.nodeId = some p.1.libp2pListen ∧
      ∀ peer ∈ p.1.peers, p.2.lookup peer.nodeId = some peer.libp2pAddr) ∧
    (σ.initialised = [] → ∀ c ∈ nodes, σ.lastLog c.nodeId = none) := by
  have haccounted := h.accounted hconsistent
  refine ⟨?_,?_,haccounted.quiet⟩
  · cases hinitialised : σ.initialised with
    | nil => exact Nat.zero_le _
    | cons p rest =>
        have hp : p ∈ σ.initialised := by
          rw [hinitialised]
          exact List.mem_cons_self
        obtain ⟨hmem,hleast,-⟩ := haccounted.honest p hp
        rw [← hinitialised]
        exact haccounted.paid_le hmem hleast
  · intro p hp
    obtain ⟨hmem,hleast,hmembers⟩ := haccounted.honest p hp
    have hdistinct := hconsistent.distinct p.1 hmem
    rw [hmembers]
    refine ⟨hmem,hleast,?_,?_,?_⟩
    · intro id
      rw [mem_initialMembers]
      exact hconsistent.complete p.1 hmem id
    · have hrow : (p.1.nodeId,p.1.libp2pListen) ∈ memberRows p.1 := List.mem_cons_self
      exact lookup_initialMembers hdistinct hrow
    · intro peer hpeer
      have hrow : (peer.nodeId,peer.libp2pAddr) ∈ memberRows p.1 :=
        List.mem_cons_of_mem _ (List.mem_map.mpr ⟨peer,hpeer,rfl⟩)
      exact lookup_initialMembers hdistinct hrow

/-- Two nodes which know each other. -/
def pairNode (own other : UInt64) : NodeConfig where
  nodeId := own
  dataDir := ["data",own.toNat.repr++".sqlite"]
  identityFile := none
  libp2pListen := "/ip4/127.0.0.1/tcp/"++(4000+own.toNat).repr
  peers := [⟨other,"peer","/ip4/127.0.0.1/tcp/"++(4000+other.toNat).repr,""⟩]
  rpc := ⟨⟨.localhost,8001⟩,25,1024*1024⟩
  clusterId := "loganet-dev"
  applyDeadline := 5
  raftRpcTimeout := none

def pairNodes : List NodeConfig := [pairNode 1 2,pairNode 2 1]

theorem pairNodes_consistent : Consistent pairNodes where
  distinct := by decide
  complete c hc id := by
    simp only [pairNodes,List.mem_cons,List.not_mem_nil,or_false] at hc
    rcases hc with rfl | rfl
    · simp [pairNodes,pairNode,eq_comm]
    · simp [pairNodes,pairNode,eq_comm,or_comm]

/-- The node with the least id comes back without its storage while the other has the
entries of the first cluster. -/
theorem lost_storage_initialises_again :
    ∃ σ, Reachable pairNodes σ ∧ σ.initialised.length = 2 ∧ σ.lastLog 2 = some 0 ∧ σ.losses = 1 ∧
      σ.initialised.length ≤ σ.losses+1 := by
  have hfirst : pairNode 1 2 ∈ pairNodes := List.mem_cons_self
  have hsecond : pairNode 2 1 ∈ pairNodes := List.mem_cons_of_mem _ List.mem_cons_self
  have hinitialiser : isInitialiser (pairNode 1 2) := by decide
  have hup := Reachable.start.step (.starts hfirst (Or.inr rfl)
    (bootstrap_empty hinitialiser (rfl : untouched.lastLog (pairNode 1 2).nodeId = none)))
  have hcopied := hup.step (.replicates 0 hfirst hsecond nofun)
  have hlost := hcopied.step (.loses hfirst)
  have hagain := hlost.step (.starts hfirst (Or.inr rfl) (bootstrap_empty hinitialiser rfl))
  exact ⟨_,hagain,rfl,rfl,by decide,(cluster_initialised_once pairNodes_consistent hagain).1⟩

end Runs

end OmegaHarness.ClusterBootstrap
