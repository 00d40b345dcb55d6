import OmegaHarness.RaftTypes
import OmegaHarness.RpcFrames

/-!
# Raft messages between two nodes

The three pairs of messages of the consensus library travel in one envelope for each direction,
serialised by an outside CBOR crate and framed on a stream of their own. The messages themselves
are the library's and stay types of the setting. A caller accepts only the kind of response its
request has; the handler of the other side answers each request with its own kind.
-/
namespace OmegaHarness.RaftRpc
open FixedWidthBytes DomainHashes RaftTypes RpcFrames

inductive OmegaNetworkError where
  | codec (message : String)
  | oversize (actual max : ℕ)
  | outboundClosed
  | outboundFull
  | replyDropped
  | timeout
  | wrongResponse (expected actual : String)
  deriving DecidableEq, Repr

def OmegaNetworkError.display : OmegaNetworkError → String
  | .codec message => s!"cbor codec error: {message}"
  | .oversize actual max => s!"cbor payload too large: {actual} > {max}"
  | .outboundClosed => "request-response actor is closed"
  | .outboundFull => "request-response actor outbound queue full"
  | .replyDropped => "request-response actor dropped the reply channel"
  | .timeout => "request-response round-trip timed out"
  | .wrongResponse expected actual =>
      s!"wrong raft response variant: expected {expected}, got {actual}"

/-- The message types of the consensus library. -/
structure RaftMessages where
  AppendEntriesRequest : Type
  AppendEntriesResponse : Type
  VoteRequest : Type
  VoteResponse : Type
  InstallSnapshotRequest : Type
  InstallSnapshotResponse : Type

inductive RaftRpcRequest (M : RaftMessages) where
  | appendEntries (rpc : M.AppendEntriesRequest)
  | vote (rpc : M.VoteRequest)
  | installSnapshot (rpc : M.InstallSnapshotRequest)

def RaftRpcRequest.variantName {M : RaftMessages} : RaftRpcRequest M → String
  | .appendEntries _ => "append_entries"
  | .vote _ => "vote"
  | .installSnapshot _ => "install_snapshot"

inductive RaftRpcResponse (M : RaftMessages) where
  | appendEntries (response : M.AppendEntriesResponse)
  | vote (response : M.VoteResponse)
  | installSnapshot (response : M.InstallSnapshotResponse)

def RaftRpcResponse.variantName {M : RaftMessages} : RaftRpcResponse M → String
  | .appendEntries _ => "append_entries"
  | .vote _ => "vote"
  | .installSnapshot _ => "install_snapshot"

/-- The serialisation of both envelopes in the outside CBOR crate. Its limit on nesting is part of
its `decode`. -/
structure RpcCbor (M : RaftMessages) where
  request : Codec (RaftRpcRequest M)
  response : Codec (RaftRpcResponse M)

section Messages
variable {A : Type} {codec : Codec A}

def encodeCbor (codec : Codec A) (value : A) : Except OmegaNetworkError Bytes :=
  (codec.encode value).mapError .codec

def decodeCbor (codec : Codec A) (bytes : Bytes) : Except OmegaNetworkError A :=
  if bytes.length > maxRaftRpcBytes then .error (.oversize bytes.length maxRaftRpcBytes)
  else (codec.decode bytes).mapError .codec

theorem encodeCbor_ok {value : A} {bytes : Bytes} :
    encodeCbor codec value = .ok bytes ↔ codec.encode value = .ok bytes := by
  rw [encodeCbor]
  cases codec.encode value <;> simp [Except.mapError]

theorem decodeCbor_encodeCbor (hround : codec.RoundTrips) {value : A} {bytes : Bytes}
    (h : encodeCbor codec value = .ok bytes) (hsmall : bytes.length ≤ maxRaftRpcBytes) :
    decodeCbor codec bytes = .ok value := by
  rw [decodeCbor,if_neg (not_lt.mpr hsmall),hround value bytes (encodeCbor_ok.mp h)]
  rfl

theorem decodeCbor_unique (hround : codec.RoundTrips) {value value' : A} {bytes : Bytes}
    (h : encodeCbor codec value = .ok bytes) (h' : decodeCbor codec bytes = .ok value') :
    value' = value := by
  rw [decodeCbor] at h'
  split at h'
  · cases h'
  · rw [hround value bytes (encodeCbor_ok.mp h)] at h'
    cases h'
    rfl

def intoIo (error : OmegaNetworkError) : IoError := ⟨.invalidData,error.display⟩

/-- Both directions read a message the same way. -/
def readMessage (codec : Codec A) (input : Bytes) : Except IoError A := do
  let (bytes,_) ← readFrame input
  (decodeCbor codec bytes).mapError intoIo

/-- Both directions write a message the same way. -/
def writeMessage (codec : Codec A) (value : A) : Except IoError Bytes := do
  let bytes ← (encodeCbor codec value).mapError intoIo
  writeFrame bytes

theorem writeMessage_ok {value : A} {frame : Bytes} :
    writeMessage codec value = .ok frame ↔
      ∃ bytes, encodeCbor codec value = .ok bytes ∧ writeFrame bytes = .ok frame := by
  rw [writeMessage]
  cases encodeCbor codec value with
  | error e => simp [Except.mapError,bind,Except.bind]
  | ok bytes => simp [Except.mapError,bind,Except.bind]

/-- A message which was written is the one which is read. -/
theorem readMessage_writeMessage (hround : codec.RoundTrips) {value : A} {frame : Bytes}
    (h : writeMessage codec value = .ok frame) (rest : Bytes) :
    readMessage codec (frame++rest) = .ok value := by
  obtain ⟨bytes,hencode,hwrite⟩ := writeMessage_ok.mp h
  have hread : readFrame (frame++rest) = .ok (bytes,rest) := readFrame_ok.mpr ⟨frame,hwrite,rfl⟩
  rw [readMessage,hread]
  change (decodeCbor codec bytes).mapError intoIo = _
  rw [decodeCbor_encodeCbor hround hencode (writeFrame_ok.mp hwrite).1]
  rfl

/-- A message which was read can be written. -/
theorem readMessage_rewrites (hrewrites : codec.Rewrites) {input : Bytes} {value : A}
    (h : readMessage codec input = .ok value) : ∃ bytes, encodeCbor codec value = .ok bytes := by
  rw [readMessage] at h
  cases hframe : readFrame input with
  | error e =>
      rw [hframe] at h
      cases h
  | ok frame =>
      rw [hframe] at h
      change (decodeCbor codec frame.1).mapError intoIo = .ok value at h
      rw [decodeCbor] at h
      split at h
      · cases h
      · cases hdecode : codec.decode frame.1 with
        | error e =>
            rw [hdecode] at h
            cases h
        | ok value' =>
            rw [hdecode] at h
            cases h
            obtain ⟨bytes,hbytes⟩ := hrewrites _ _ hdecode
            exact ⟨bytes,encodeCbor_ok.mpr hbytes⟩

end Messages

section Codec
variable {M : RaftMessages} (cbor : RpcCbor M)

def readRequest : Bytes → Except IoError (RaftRpcRequest M) := readMessage cbor.request

def readResponse : Bytes → Except IoError (RaftRpcResponse M) := readMessage cbor.response

def writeRequest : RaftRpcRequest M → Except IoError Bytes := writeMessage cbor.request

def writeResponse : RaftRpcResponse M → Except IoError Bytes := writeMessage cbor.response

end Codec

section Dispatch
variable {M : RaftMessages} {H : Type}

/-- The consensus library's entry points on one node, over its state. -/
structure LocalRaft (M : RaftMessages) (H : Type) where
  appendEntries : M.AppendEntriesRequest → H → Except String M.AppendEntriesResponse × H
  vote : M.VoteRequest → H → Except String M.VoteResponse × H
  installSnapshot : M.InstallSnapshotRequest → H → Except String M.InstallSnapshotResponse × H

/-- One request, dispatched to the local node. -/
def LocalRaft.handle (raft : LocalRaft M H) (request : RaftRpcRequest M) (h : H) :
    Except OmegaNetworkError (RaftRpcResponse M) × H :=
  match request with
  | .appendEntries rpc => ((raft.appendEntries rpc h).1.map .appendEntries |>.mapError .codec,
      (raft.appendEntries rpc h).2)
  | .installSnapshot rpc => ((raft.installSnapshot rpc h).1.map .installSnapshot |>.mapError .codec,
      (raft.installSnapshot rpc h).2)
  | .vote rpc => ((raft.vote rpc h).1.map .vote |>.mapError .codec,(raft.vote rpc h).2)

theorem map_mapError_ok {B C : Type} {x : Except String B} {wrap : B → C} {c : C}
    (h : (x.map wrap).mapError OmegaNetworkError.codec = .ok c) : ∃ b, x = .ok b ∧ c = wrap b := by
  cases x with
  | error e => cases h
  | ok b =>
      cases h
      exact ⟨b,rfl,rfl⟩

/-- The handler answers a request with its own kind of response. -/
theorem handle_variant {raft : LocalRaft M H} {request : RaftRpcRequest M} {h : H}
    {response : RaftRpcResponse M} (hok : (raft.handle request h).1 = .ok response) :
    response.variantName = request.variantName := by
  cases request with
  | appendEntries rpc =>
      obtain ⟨answer,-,rfl⟩ := map_mapError_ok hok
      rfl
  | vote rpc =>
      obtain ⟨answer,-,rfl⟩ := map_mapError_ok hok
      rfl
  | installSnapshot rpc =>
      obtain ⟨answer,-,rfl⟩ := map_mapError_ok hok
      rfl

/-- What the caller of `append_entries` makes of the response to its round trip. -/
def appendEntries : Except OmegaNetworkError (RaftRpcResponse M) →
    Except OmegaNetworkError M.AppendEntriesResponse
  | .ok (.appendEntries response) => .ok response
  | .ok response => .error (.wrongResponse "append_entries" response.variantName)
  | .error e => .error e

def installSnapshot : Except OmegaNetworkError (RaftRpcResponse M) →
    Except OmegaNetworkError M.InstallSnapshotResponse
  | .ok (.installSnapshot response) => .ok response
  | .ok response => .error (.wrongResponse "install_snapshot" response.variantName)
  | .error e => .error e

def vote : Except OmegaNetworkError (RaftRpcResponse M) → Except OmegaNetworkError M.VoteResponse
  | .ok (.vote response) => .ok response
  | .ok response => .error (.wrongResponse "vote" response.variantName)
  | .error e => .error e

/-- The caller of a request's kind gets from this response what the entry point of that kind has
answered. -/
def LocalRaft.Answers (raft : LocalRaft M H) (h : H) (response : RaftRpcResponse M) :
    RaftRpcRequest M → Prop
  | .appendEntries rpc => ∃ answer, (raft.appendEntries rpc h).1 = .ok answer ∧
      RaftRpc.appendEntries (.ok response) = .ok answer
  | .installSnapshot rpc => ∃ answer, (raft.installSnapshot rpc h).1 = .ok answer ∧
      RaftRpc.installSnapshot (.ok response) = .ok answer
  | .vote rpc => ∃ answer, (raft.vote rpc h).1 = .ok answer ∧ RaftRpc.vote (.ok response) = .ok answer

theorem answers_of_handle {raft : LocalRaft M H} {request : RaftRpcRequest M} {h : H}
    {response : RaftRpcResponse M} (hok : (raft.handle request h).1 = .ok response) :
    raft.Answers h response request := by
  cases request with
  | appendEntries rpc =>
      obtain ⟨answer,hanswer,rfl⟩ := map_mapError_ok hok
      exact ⟨answer,hanswer,rfl⟩
  | vote rpc =>
      obtain ⟨answer,hanswer,rfl⟩ := map_mapError_ok hok
      exact ⟨answer,hanswer,rfl⟩
  | installSnapshot rpc =>
      obtain ⟨answer,hanswer,rfl⟩ := map_mapError_ok hok
      exact ⟨answer,hanswer,rfl⟩

end Dispatch

end OmegaHarness.RaftRpc
