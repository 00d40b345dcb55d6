import OmegaHarness.ByteFraming
import OmegaHarness.DomainHashes
import OmegaHarness.FallibleSteps
import OmegaHarness.FiniteCollisions
import OmegaHarness.SeparatedTexts

/-!
# Finding the other nodes

The nodes of one installation look for each other under a service name which they derive
from the genesis and a salt, or they are told the addresses of their peers. The parser of
addresses belongs to the network library. A service name has eight bytes of a digest, so
two installations can meet under one name only through a collision of those bytes.
-/
namespace OmegaHarness.PeerDiscovery
open FallibleSteps FixedWidthBytes ByteFraming FiniteCollisions DomainHashes SeparatedTexts

inductive DiscoveryError where
  | missingSeparator
  | invalidNodeId (text : String)
  | emptyMultiaddr
  | invalidMultiaddr (value detail : String)
  deriving DecidableEq, Repr

structure PeerAddress (M : Type) where
  nodeId : UInt64
  multiaddr : M
  deriving DecidableEq, Repr

def PeerAddress.fromStr {M : Type} (parseMultiaddr : String → Except String M) (value : String) :
    Except DiscoveryError (PeerAddress M) :=
  match splitOnce '=' value.toList with
  | none => .error .missingSeparator
  | some (nodeId,multiaddr) => do
      let id ← (parseU64 nodeId).mapError fun _ => .invalidNodeId (String.ofList nodeId)
      if multiaddr.isEmpty then .error .emptyMultiaddr
      else
        let addr ← (parseMultiaddr (String.ofList multiaddr)).mapError fun e =>
          .invalidMultiaddr (String.ofList multiaddr) e
        return ⟨id,addr⟩

/-- The line for an address. -/
def addressText (nodeId multiaddr : List Char) : String := String.ofList (nodeId++ '='::multiaddr)

inductive MdnsMode where
  | disabled
  | enabled (serviceName : String)
  deriving DecidableEq, Repr

structure DiscoveryConfig (M : Type) where
  mdns : MdnsMode
  staticPeers : List (PeerAddress M)

def domainMdns : Bytes := ascii "omega-network:mdns-service:v1".toList

/-- What is hashed for a service name. -/
def servicePreimage (genesis installationSalt : Bytes) : Bytes :=
  domainMdns++(framed 8 genesis++framed 8 installationSalt)

def mdnsServiceName (sha3 : Bytes → Hash) (genesis installationSalt : Bytes) : String :=
  "_omega-experiment-"++hexEncode ((sha3 (servicePreimage genesis installationSalt)).toList.take 8)
    ++"._udp.local"

def DiscoveryConfig.new {M : Type} (sha3 : Bytes → Hash) (genesis installationSalt : Bytes)
    (mdnsDisabled : Bool) (staticPeers : List (PeerAddress M)) : DiscoveryConfig M where
  mdns := if mdnsDisabled then .disabled else .enabled (mdnsServiceName sha3 genesis installationSalt)
  staticPeers := staticPeers

section Addresses
variable {M : Type} {parseMultiaddr : String → Except String M} {nodeId multiaddr : List Char}

/-- What becomes of a line with an equals sign, if nothing in front of its first one is another. -/
theorem fromStr_addressText (h : '=' ∉ nodeId) :
    PeerAddress.fromStr parseMultiaddr (addressText nodeId multiaddr) =
      match parseU64 nodeId with
      | .error _ => .error (.invalidNodeId (String.ofList nodeId))
      | .ok id =>
          if multiaddr.isEmpty then .error .emptyMultiaddr
          else match parseMultiaddr (String.ofList multiaddr) with
            | .error e => .error (.invalidMultiaddr (String.ofList multiaddr) e)
            | .ok addr => .ok ⟨id,addr⟩ := by
  have hsplit : splitOnce '=' (addressText nodeId multiaddr).toList = some (nodeId,multiaddr) :=
    splitOnce_some.mpr ⟨String.toList_ofList,h⟩
  rw [PeerAddress.fromStr,hsplit]
  dsimp only
  cases parseU64 nodeId with
  | error e => rfl
  | ok id =>
      by_cases hempty : multiaddr.isEmpty
      · simp only [hempty]
        rfl
      · simp only [hempty]
        cases parseMultiaddr (String.ofList multiaddr) with
        | error e => rfl
        | ok addr => rfl

theorem fromStr_missing {value : String} (h : '=' ∉ value.toList) :
    PeerAddress.fromStr parseMultiaddr value = .error .missingSeparator := by
  rw [PeerAddress.fromStr,splitOnce_none.mpr h]

/-- A line without an equals sign, or the fields around its first one. -/
theorem addressText_cases (value : String) :
    '=' ∉ value.toList ∨ ∃ nodeId multiaddr, '=' ∉ nodeId ∧ value = addressText nodeId multiaddr := by
  cases hsplit : splitOnce '=' value.toList with
  | none => exact Or.inl (splitOnce_none.mp hsplit)
  | some p =>
      obtain ⟨hvalue,hfree⟩ := splitOnce_some.mp hsplit
      refine Or.inr ⟨p.1,p.2,hfree,?_⟩
      rw [addressText,← hvalue,String.ofList_toList]

/-- Which lines are addresses of peers, and what is wrong with every other one. -/
theorem static_peers_exact (parseMultiaddr : String → Except String M) (value : String) :
    (∀ peer, PeerAddress.fromStr parseMultiaddr value = .ok peer ↔
      ∃ nodeId multiaddr, value = addressText nodeId multiaddr ∧
        NumberText nodeId peer.nodeId.toNat ∧ multiaddr ≠ [] ∧
        parseMultiaddr (String.ofList multiaddr) = .ok peer.multiaddr) ∧
    ∀ e, PeerAddress.fromStr parseMultiaddr value = .error e → match e with
      | .missingSeparator => '=' ∉ value.toList
      | .invalidNodeId text => ∃ multiaddr, value = addressText text.toList multiaddr ∧
          '=' ∉ text.toList ∧ ∀ n : UInt64, ¬NumberText text.toList n.toNat
      | .emptyMultiaddr => ∃ nodeId, ∃ n : UInt64, value = addressText nodeId [] ∧
          NumberText nodeId n.toNat
      | .invalidMultiaddr text detail => ∃ nodeId, ∃ n : UInt64,
          value = addressText nodeId text.toList ∧ NumberText nodeId n.toNat ∧
          parseMultiaddr text = .error detail := by
  constructor
  · intro peer
    constructor
    · intro h
      rcases addressText_cases value with hmissing | ⟨nodeId,multiaddr,hfree,rfl⟩
      · rw [fromStr_missing hmissing] at h
        cases h
      · rw [fromStr_addressText hfree] at h
        split at h
        · cases h
        · next id hid =>
            split at h
            · cases h
            · next hempty =>
                split at h
                · cases h
                · next addr haddr =>
                    cases h
                    exact ⟨nodeId,multiaddr,rfl,parseU64_ok.mp hid,by simpa using hempty,haddr⟩
    · rintro ⟨nodeId,multiaddr,rfl,hnumber,hempty,haddr⟩
      rw [fromStr_addressText (hnumber.free rfl (by decide)),parseU64_ok.mpr hnumber]
      simp [hempty,haddr]
  · intro e h
    rcases addressText_cases value with hmissing | ⟨nodeId,multiaddr,hfree,rfl⟩
    · rw [fromStr_missing hmissing] at h
      cases h
      exact hmissing
    · rw [fromStr_addressText hfree] at h
      split at h
      · next reason hreason =>
          cases h
          dsimp only
          rw [String.toList_ofList]
          refine ⟨multiaddr,rfl,hfree,?_⟩
          intro n hn
          cases hreason.symm.trans (parseU64_ok.mpr hn)
      · next id hid =>
          split at h
          · next hempty =>
              cases h
              exact ⟨nodeId,id,by rw [List.isEmpty_iff.mp hempty],parseU64_ok.mp hid⟩
          · split at h
            · next detail hdetail =>
                cases h
                dsimp only
                rw [String.toList_ofList]
                exact ⟨nodeId,id,rfl,parseU64_ok.mp hid,hdetail⟩
            · cases h

end Addresses

section ServiceNames
variable {sha3 : Bytes → Hash} {genesis genesis' salt salt' : Bytes}

theorem servicePreimage_inj (hgenesis : genesis.length < 256^8) (hgenesis' : genesis'.length < 256^8)
    (hsalt : salt.length < 256^8) (hsalt' : salt'.length < 256^8)
    (h : servicePreimage genesis salt = servicePreimage genesis' salt') :
    genesis = genesis' ∧ salt = salt' := by
  rw [servicePreimage,servicePreimage] at h
  have htail : framed 8 genesis++framed 8 salt = framed 8 genesis'++framed 8 salt' :=
    List.append_cancel_left h
  have hframes := splitsAt_framed hgenesis hgenesis' _ _ htail
  exact ⟨hframes.1,(splitsAt_framed hsalt hsalt').inj hframes.2⟩

theorem between_injective (front back : String) :
    Function.Injective fun text : String => front++text++back := by
  intro x y h
  have hchars := congrArg String.toList h
  simp only [String.toList_append,List.append_cancel_left_eq,List.append_cancel_right_eq] at hchars
  exact String.toList_inj.mp hchars

theorem mdnsServiceName_inj
    (h : mdnsServiceName sha3 genesis salt = mdnsServiceName sha3 genesis' salt') :
    (sha3 (servicePreimage genesis salt)).toList.take 8 =
      (sha3 (servicePreimage genesis' salt')).toList.take 8 :=
  hexEncode_injective (between_injective _ _ h)

/-- Two nodes look for each other under one name only if they are of one installation, or if
two different strings have digests with the same first eight bytes. -/
theorem service_names_separate {M : Type} (peers peers' : List (PeerAddress M)) (disabled : Bool)
    (hgenesis : genesis.length < 256^8) (hgenesis' : genesis'.length < 256^8)
    (hsalt : salt.length < 256^8) (hsalt' : salt'.length < 256^8)
    (h : (DiscoveryConfig.new sha3 genesis' salt' disabled peers').mdns =
      (DiscoveryConfig.new sha3 genesis salt false peers).mdns) :
    disabled = false ∧ (genesis = genesis' ∧ salt = salt' ∨
      Collision (fun bytes => (sha3 bytes).toList.take 8) [servicePreimage genesis' salt']
        [servicePreimage genesis salt]) := by
  cases disabled with
  | true => cases h
  | false =>
      refine ⟨rfl,?_⟩
      have hname := mdnsServiceName_inj (MdnsMode.enabled.inj h)
      rcases eq_or_collision (f := fun bytes => (sha3 bytes).toList.take 8) List.mem_cons_self
        List.mem_cons_self hname with heq | hcollision
      · obtain ⟨rfl,rfl⟩ := servicePreimage_inj hgenesis' hgenesis hsalt' hsalt heq
        exact Or.inl ⟨rfl,rfl⟩
      · exact Or.inr hcollision

/-- Under a constant digest every two installations meet. -/
theorem constant_names_meet :
    false = false ∧ (([0] : Bytes) = [0] ∧ ([1] : Bytes) = [2] ∨
      Collision (fun _ : Bytes => zeroHash.toList.take 8) [servicePreimage [0] [2]]
        [servicePreimage [0] [1]]) :=
  @service_names_separate (fun _ => zeroHash) [0] [0] [1] [2] Unit [] [] false (by decide)
    (by decide) (by decide) (by decide) rfl

end ServiceNames

end OmegaHarness.PeerDiscovery
