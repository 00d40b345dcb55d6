import OmegaHarness.ClaimSubmission
import OmegaHarness.FileTree
import OmegaHarness.SeparatedTexts

/-!
# Configurations of a node

A peer is given to a node as one line of text: four fields with commas between them. The
last three are kept as texts, and whether they are peer ids, addresses and URLs shows when
the node starts.
-/
namespace OmegaHarness.NodeConfigs
open FallibleSteps FileTree SeparatedTexts LedgerStore ClaimSubmission

inductive ConsensusError where
  | storage (e : LedgerError)
  | raft (message : String)
  | config (message : String)
  | identity (message : String)
  deriving DecidableEq, Repr

inductive IpAddr where
  | v4 (octets : Vector UInt8 4)
  | v6 (segments : Vector UInt16 8)
  deriving DecidableEq, Repr

def IpAddr.isLoopback : IpAddr → Bool
  | .v4 octets => octets[0] = 127
  | .v6 segments => segments = #v[0,0,0,0,0,0,0,1]

/-- `Ipv4Addr::LOCALHOST`. -/
def IpAddr.localhost : IpAddr := .v4 #v[127,0,0,1]

structure SocketAddr where
  ip : IpAddr
  port : UInt16
  deriving DecidableEq, Repr

structure RpcConfig where
  bind : SocketAddr
  maxBatch : UInt16
  maxRequestBytes : UInt32
  deriving DecidableEq, Repr

/-- The durations are in seconds. -/
structure NodeConfig where
  nodeId : UInt64
  dataDir : Path
  identityFile : Option Path
  libp2pListen : String
  peers : List PeerConfig
  rpc : RpcConfig
  clusterId : String
  applyDeadline : ℕ
  raftRpcTimeout : Option ℕ
  deriving DecidableEq, Repr

/-- The addition is on 32 bits. It wraps around where overflow checks are off, and where
they are on there is no configuration for the ids which reach the end. -/
def NodeConfig.singleNodeLocalhost (tempDir : Path) (nodeId : UInt64) :
    Except ConsensusError NodeConfig :=
  if nodeId = 0 then .error (.config "node_id must be non-zero")
  else if 2^32 ≤ nodeId.toNat then .error (.config "node_id exceeds u32")
  else if 2^16 ≤ (8000+nodeId.toNat)%2^32 then .error (.config "rpc port exceeds u16")
  else .ok {
    nodeId := nodeId
    dataDir := tempDir++["omega-toy-consensus-"++nodeId.toNat.repr]
    identityFile := none
    libp2pListen := "/ip4/127.0.0.1/tcp/"++(4000+nodeId.toNat).repr
    peers := []
    rpc := ⟨⟨.localhost,UInt16.ofNat ((8000+nodeId.toNat)%2^32)⟩,25,1024*1024⟩
    clusterId := "loganet-dev"
    applyDeadline := 5
    raftRpcTimeout := none }

/-- The calls of the server are not authenticated, so it may only listen on this machine. -/
def validateConfig (display : SocketAddr → String) (config : NodeConfig) :
    Except ConsensusError Unit :=
  if config.rpc.bind.ip.isLoopback then .ok ()
  else .error (.config ("rpc.bind must be a loopback address in v0.1 (got "
    ++display config.rpc.bind++"); the v0.1 JSON-RPC surface is unauthenticated and the spec "
    ++"forbids non-loopback bind. Bind to 127.0.0.1 or ::1."))

section Peers

def usageError (s : String) : ConsensusError :=
  .config ("peer must be \x60<node_id>,<peer_id>,<libp2p>,<rpc>\x60, got \x60"++s++"\x60")

def PeerConfig.fromStr (s : String) : Except ConsensusError PeerConfig :=
  match splitn ',' 4 s.toList with
  | [nodeId,peerId,addr,url] => do
      let id ← (parseU64 nodeId).mapError fun e => .config ("peer node_id: "++e.display)
      return ⟨id,String.ofList peerId,String.ofList addr,String.ofList url⟩
  | _ => .error (usageError s)

/-- The line for a peer whose id is written in some way. -/
def flagText (nodeId : List Char) (peer : PeerConfig) : String :=
  String.ofList (joined ',' [nodeId,peer.libp2pPeerId.toList,peer.libp2pAddr.toList]
    peer.rpcUrl.toList)

/-- Four fields: three without commas, and the rest. -/
theorem splitn_four {s a b c d : List Char} :
    splitn ',' 4 s = [a,b,c,d] ↔
      (',' ∉ a ∧ ',' ∉ b ∧ ',' ∉ c) ∧ s = joined ',' [a,b,c] d := by
  have h := @splitn_fields Char _ ',' s [a,b,c] d
  simpa using h

theorem list_of_four {A : Type} {xs : List A} (h : xs.length = 4) : ∃ a b c d, xs = [a,b,c,d] := by
  match xs,h with
  | [a,b,c,d],_ => exact ⟨a,b,c,d,rfl⟩

/-- With three commas there are four fields, and the first of them decides. -/
theorem fromStr_fields {s : String} (h : 3 ≤ s.toList.count ',') :
    ∃ a b c d, splitn ',' 4 s.toList = [a,b,c,d] ∧
      PeerConfig.fromStr s = match parseU64 a with
        | .ok id => .ok ⟨id,String.ofList b,String.ofList c,String.ofList d⟩
        | .error e => .error (.config ("peer node_id: "++e.display)) := by
  have hlength := @splitn_length Char _ ',' 3 s.toList
  obtain ⟨a,b,c,d,hsplit⟩ := list_of_four (hlength.trans (by omega))
  refine ⟨a,b,c,d,hsplit,?_⟩
  rw [PeerConfig.fromStr,hsplit]
  dsimp only
  cases parseU64 a with
  | ok id => rfl
  | error e => rfl

theorem fromStr_short {s : String} (h : s.toList.count ',' < 3) :
    PeerConfig.fromStr s = .error (usageError s) := by
  have hlength := @splitn_length Char _ ',' 3 s.toList
  rw [PeerConfig.fromStr]
  split
  · next hsplit =>
      rw [hsplit] at hlength
      simp only [List.length_cons,List.length_nil] at hlength
      omega
  · rfl

theorem fromStr_ok {s : String} {peer : PeerConfig} :
    PeerConfig.fromStr s = .ok peer ↔ ∃ nodeId, NumberText nodeId peer.nodeId.toNat ∧
      ',' ∉ peer.libp2pPeerId.toList ∧ ',' ∉ peer.libp2pAddr.toList ∧ s = flagText nodeId peer := by
  constructor
  · intro h
    by_cases hshort : s.toList.count ',' < 3
    · rw [fromStr_short hshort] at h
      cases h
    · obtain ⟨a,b,c,d,hsplit,hread⟩ := fromStr_fields (Nat.le_of_not_lt hshort)
      rw [h] at hread
      split at hread
      · next id hid =>
          cases hread
          obtain ⟨⟨-,hb,hc⟩,hs⟩ := splitn_four.mp hsplit
          refine ⟨a,parseU64_ok.mp hid,?_,?_,?_⟩
          · rwa [String.toList_ofList]
          · rwa [String.toList_ofList]
          · simp only [flagText,String.toList_ofList]
            rw [← hs,String.ofList_toList]
      · cases hread
  · rintro ⟨nodeId,hnumber,hpeer,haddr,rfl⟩
    have hsplit := splitn_four.mpr ⟨⟨hnumber.free rfl (by decide),hpeer,haddr⟩,
      @String.toList_ofList (joined ',' [nodeId,peer.libp2pPeerId.toList,peer.libp2pAddr.toList]
        peer.rpcUrl.toList)⟩
    rw [PeerConfig.fromStr,flagText,hsplit]
    dsimp only
    rw [parseU64_ok.mpr hnumber,String.ofList_toList,String.ofList_toList,String.ofList_toList]
    rfl

/-- A flag is read exactly when it is a number, two texts without commas and a text, and
then as these. What is printed for such a peer is read back, and an error says which of
the two checks has failed. -/
theorem peer_flags_exact :
    (∀ s peer, PeerConfig.fromStr s = .ok peer ↔ ∃ nodeId, NumberText nodeId peer.nodeId.toNat ∧
      ',' ∉ peer.libp2pPeerId.toList ∧ ',' ∉ peer.libp2pAddr.toList ∧ s = flagText nodeId peer) ∧
    (∀ peer : PeerConfig, ',' ∉ peer.libp2pPeerId.toList → ',' ∉ peer.libp2pAddr.toList →
      PeerConfig.fromStr (flagText peer.nodeId.toNat.repr.toList peer) = .ok peer) ∧
    ∀ s e, PeerConfig.fromStr s = .error e →
      s.toList.count ',' < 3 ∧ e = usageError s ∨
      3 ≤ s.toList.count ',' ∧ ∃ nodeId rest reason, s = String.ofList (nodeId++ ','::rest) ∧
        ',' ∉ nodeId ∧ (∀ n : UInt64, ¬NumberText nodeId n.toNat) ∧
        e = .config ("peer node_id: "++ParseIntError.display reason) := by
  refine ⟨fun s peer => fromStr_ok,?_,?_⟩
  · intro peer hpeer haddr
    exact fromStr_ok.mpr ⟨_,numberText_repr _,hpeer,haddr,rfl⟩
  · intro s e h
    by_cases hshort : s.toList.count ',' < 3
    · rw [fromStr_short hshort] at h
      cases h
      exact Or.inl ⟨hshort,rfl⟩
    · right
      have hfields := Nat.le_of_not_lt hshort
      obtain ⟨a,b,c,d,hsplit,hread⟩ := fromStr_fields hfields
      obtain ⟨⟨ha,-,-⟩,hs⟩ := splitn_four.mp hsplit
      rw [h] at hread
      split at hread
      · cases hread
      · next reason hreason =>
          cases hread
          refine ⟨hfields,a,joined ',' [b,c] d,reason,?_,ha,?_,rfl⟩
          · rw [← String.toList_inj,hs,String.toList_ofList]
            rfl
          · intro n hn
            cases hreason.symm.trans (parseU64_ok.mpr hn)

end Peers

end OmegaHarness.NodeConfigs
