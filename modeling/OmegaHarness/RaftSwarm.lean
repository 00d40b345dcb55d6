import Mathlib.Logic.Relation
import OmegaHarness.RaftRpc

/-!
# The request-response network of a cluster

Each node posts its requests into a bounded channel. Its swarm takes them out one by one, opens a
stream to the peer which the configuration names for the target, and keeps the caller's reply
channel under the number of the stream. The peer's swarm hands the request to its handler and
writes the response on the same stream, or drops it. A response or a failure finds its caller by
the number of its stream. The caller leaves after its deadline. A message which the swarm cannot
decode or encode ends the swarm.

The transport is the outside one: a stream leads to a node with the peer's identity, delivers what
was written on it unchanged and at most once, and may fail at any moment, with or without the
request having been handled. A swarm serves whoever connects to it, so a peer which is no node of
the cluster may ask a handler whatever it likes, and answers what it likes on a stream which the
configuration has led to it. The list of handled requests is a ghost, as is the call a stream was
opened for: nothing reads them.
-/
namespace OmegaHarness.RaftSwarm
open FixedWidthBytes DomainHashes RaftTypes RpcFrames RaftRpc

structure PeerEntry (P : Type) where
  nodeId : UInt64
  peerId : P
  address : String

/-- The peer of a node id. Of several entries the last one stays in the map. -/
def peerOf {P : Type} (peers : List (PeerEntry P)) (target : UInt64) : Option P :=
  (peers.reverse.find? fun p => p.nodeId = target).map PeerEntry.peerId

inductive OutboundFailure where
  | timeout
  | connectionClosed
  | dialFailure
  | unsupportedProtocols
  | io (message : String)
  deriving DecidableEq, Repr

def mapOutboundFailure : OutboundFailure → OmegaNetworkError
  | .timeout => .timeout
  | .connectionClosed => .outboundClosed
  | .dialFailure => .outboundClosed
  | .unsupportedProtocols => .codec "remote peer does not advertise the omega raft protocol"
  | .io message => .codec message

/-- What stays the same while a cluster runs. -/
structure Setup (M : RaftMessages) (N P H : Type) where
  cbor : RpcCbor M
  capacity : ℕ
  identity : N → P
  peers : N → List (PeerEntry P)
  raft : N → LocalRaft M H

/-- The peer is the identity of no node. -/
def Outside {M : RaftMessages} {N P H : Type} (S : Setup M N P H) (peer : P) : Prop :=
  ∀ n, S.identity n ≠ peer

/-- How far a round trip has come. -/
inductive CallPhase where
  | waiting
  | answered (reply : Except OmegaNetworkError Bytes)
  | dropped
  | timedOut
  | refused (error : OmegaNetworkError)

def CallPhase.receive (reply : Except OmegaNetworkError Bytes) : CallPhase → CallPhase
  | .waiting => .answered reply
  | phase => phase

def CallPhase.drop : CallPhase → CallPhase
  | .waiting => .dropped
  | phase => phase

def CallPhase.leave : CallPhase → CallPhase
  | .waiting => .timedOut
  | phase => phase

structure Call (M : RaftMessages) where
  target : UInt64
  request : RaftRpcRequest M
  phase : CallPhase

/-- What a round trip returns, once it does. -/
def roundTrip {M : RaftMessages} (cbor : RpcCbor M) :
    CallPhase → Option (Except OmegaNetworkError (RaftRpcResponse M))
  | .waiting => none
  | .answered (.ok bytes) => some (decodeCbor cbor.response bytes)
  | .answered (.error e) => some (.error e)
  | .dropped => some (.error .replyDropped)
  | .timedOut => some (.error .timeout)
  | .refused e => some (.error e)

structure OutboundRaftRequest where
  call : ℕ
  target : UInt64
  payload : Bytes

inductive Progress where
  | travelling
  | answered (wire : Except IoError Bytes)
  | dropped

structure Stream (P : Type) where
  call : ℕ
  peer : P
  wire : Except IoError Bytes
  progress : Progress

inductive Status where
  | running
  | closed
  | failed (error : OmegaNetworkError)
  deriving DecidableEq

/-- The sending side of one node. -/
structure Node (M : RaftMessages) (P : Type) where
  channel : List OutboundRaftRequest
  pending : ℕ → Option ℕ
  nextRequest : ℕ
  status : Status
  calls : ℕ → Option (Call M)
  streams : ℕ → Option (Stream P)

section Operations
variable {M : RaftMessages} {N P H : Type} (S : Setup M N P H)

def Node.start : Node M P := ⟨[],fun _ => none,0,.running,fun _ => none,fun _ => none⟩

/-- A change of the phases, call by call. -/
def Node.phases (node : Node M P) (change : ℕ → CallPhase → CallPhase) : ℕ → Option (Call M) :=
  fun i => (node.calls i).map fun c => { c with phase := change i c.phase }

/-- A change of one call's phase. -/
def only (call : ℕ) (change : CallPhase → CallPhase) (i : ℕ) (phase : CallPhase) : CallPhase :=
  if i = call then change phase else phase

/-- The first half of a round trip: the request is refused or lies in the channel. -/
def Node.post (node : Node M P) (call : ℕ) (target : UInt64) (request : RaftRpcRequest M) :
    Node M P :=
  let refuse (e : OmegaNetworkError) : Node M P :=
    { node with calls := Function.update node.calls call (some ⟨target,request,.refused e⟩) }
  match encodeCbor S.cbor.request request with
  | .error e => refuse e
  | .ok payload =>
      if payload.length > maxRaftRpcBytes then refuse (.oversize payload.length maxRaftRpcBytes)
      else if node.status ≠ .running then refuse .outboundClosed
      else if node.channel.length ≥ S.capacity then refuse .outboundFull
      else { node with
        channel := node.channel++[⟨call,target,payload⟩]
        calls := Function.update node.calls call (some ⟨target,request,.waiting⟩) }

/-- The swarm is gone: what was queued or pending is dropped. -/
def Node.halt (node : Node M P) (status : Status) : Node M P :=
  { node with
    channel := []
    pending := fun _ => none
    status := status
    calls := node.phases fun _ => .drop }

/-- A request which has been taken out of the channel. -/
def Node.onOutbound (n : N) (node : Node M P) (outbound : OutboundRaftRequest) : Node M P :=
  match peerOf (S.peers n) outbound.target with
  | none =>
      { node with calls := node.phases (only outbound.call (.receive (.error .outboundClosed))) }
  | some peer =>
      match decodeCbor S.cbor.request outbound.payload with
      | .error e => node.halt (.failed e)
      | .ok request => { node with
          pending := Function.update node.pending node.nextRequest (some outbound.call)
          nextRequest := node.nextRequest+1
          streams := Function.update node.streams node.nextRequest
            (some ⟨outbound.call,peer,writeRequest S.cbor request,.travelling⟩) }

def Node.onResponse (node : Node M P) (id : ℕ) (response : RaftRpcResponse M) : Node M P :=
  match node.pending id with
  | none => node
  | some call =>
      match encodeCbor S.cbor.response response with
      | .error e => node.halt (.failed e)
      | .ok bytes => { node with
          pending := Function.update node.pending id none
          calls := node.phases (only call (.receive (.ok bytes))) }

def Node.onFailure (node : Node M P) (id : ℕ) (error : OutboundFailure) : Node M P :=
  match node.pending id with
  | none => node
  | some call => { node with
      pending := Function.update node.pending id none
      calls := node.phases (only call (.receive (.error (mapOutboundFailure error)))) }

/-- The steps of one node's callers and of its swarm. -/
inductive Local (n : N) : Node M P → Node M P → Prop
  | call {node : Node M P} (call : ℕ) (target : UInt64) (request : RaftRpcRequest M)
      (fresh : node.calls call = none) : Local n node (node.post S call target request)
  | deadline {node : Node M P} (call : ℕ) :
      Local n node { node with calls := node.phases (only call .leave) }
  | outbound {node : Node M P} (outbound : OutboundRaftRequest) (rest : List OutboundRaftRequest)
      (running : node.status = .running) (next : node.channel = outbound::rest) :
      Local n node (Node.onOutbound S n { node with channel := rest } outbound)
  | response {node : Node M P} (id : ℕ) (s : Stream P) (frame : Bytes)
      (response : RaftRpcResponse M) (running : node.status = .running)
      (stream : node.streams id = some s) (answered : s.progress = .answered (.ok frame))
      (read : readResponse S.cbor frame = .ok response) : Local n node (node.onResponse S id response)
  | failure {node : Node M P} (id : ℕ) (error : OutboundFailure)
      (running : node.status = .running) : Local n node (node.onFailure id error)
  | shutdown {node : Node M P} (running : node.status = .running) : Local n node (node.halt .closed)

end Operations

/-- Where a request has come from: over a stream of a node, or from a peer which is none. -/
inductive Origin (N P : Type) where
  | stream (node : N) (id : ℕ)
  | outside (peer : P)

/-- One call of a node's handler. -/
structure Handled (M : RaftMessages) (N P H : Type) where
  node : N
  origin : Origin N P
  request : RaftRpcRequest M
  state : H
  result : Except OmegaNetworkError (RaftRpcResponse M)

structure Net (M : RaftMessages) (N P H : Type) where
  nodes : N → Node M P
  rafts : N → H
  handled : List (Handled M N P H)

section Network
variable {M : RaftMessages} {N P H : Type} [DecidableEq N] (S : Setup M N P H)

def Net.start (rafts : N → H) : Net M N P H := ⟨fun _ => Node.start,rafts,[]⟩

/-- A stream of a node has come further. -/
def Node.advance (node : Node M P) (id : ℕ) (s : Stream P) (progress : Progress) : Node M P :=
  { node with streams := Function.update node.streams id (some { s with progress := progress }) }

/-- What the handler's result becomes on the stream. -/
def reply : Except OmegaNetworkError (RaftRpcResponse M) → Progress
  | .ok response => .answered (writeResponse S.cbor response)
  | .error _ => .dropped

/-- The request of stream `id` of node `n`, handled by node `m`. -/
def Net.deliver (net : Net M N P H) (n : N) (id : ℕ) (s : Stream P) (m : N)
    (request : RaftRpcRequest M) : Net M N P H :=
  let answer := (S.raft m).handle request (net.rafts m)
  { nodes := Function.update net.nodes n ((net.nodes n).advance id s (reply S answer.1))
    rafts := Function.update net.rafts m answer.2
    handled := net.handled++[⟨m,.stream n id,request,net.rafts m,answer.1⟩] }

/-- A request of a peer outside of the cluster, handled by node `m`. -/
def Net.serve (net : Net M N P H) (m : N) (peer : P) (request : RaftRpcRequest M) : Net M N P H :=
  let answer := (S.raft m).handle request (net.rafts m)
  { net with
    rafts := Function.update net.rafts m answer.2
    handled := net.handled++[⟨m,.outside peer,request,net.rafts m,answer.1⟩] }

inductive Step : Net M N P H → Net M N P H → Prop
  | act {net : Net M N P H} (n : N) (node : Node M P) (step : Local S n (net.nodes n) node) :
      Step net { net with nodes := Function.update net.nodes n node }
  | deliver {net : Net M N P H} (n : N) (id : ℕ) (s : Stream P) (m : N) (frame : Bytes)
      (request : RaftRpcRequest M) (running : (net.nodes m).status = .running)
      (stream : (net.nodes n).streams id = some s) (travelling : s.progress = .travelling)
      (peer : S.identity m = s.peer) (wire : s.wire = .ok frame)
      (read : readRequest S.cbor frame = .ok request) : Step net (net.deliver S n id s m request)
  | lose {net : Net M N P H} (n : N) (id : ℕ) (s : Stream P)
      (stream : (net.nodes n).streams id = some s) (travelling : s.progress = .travelling) :
      Step net { net with nodes := Function.update net.nodes n ((net.nodes n).advance id s .dropped) }
  | outsideRequest {net : Net M N P H} (m : N) (peer : P) (frame : Bytes)
      (request : RaftRpcRequest M) (running : (net.nodes m).status = .running)
      (outside : Outside S peer) (read : readRequest S.cbor frame = .ok request) :
      Step net (net.serve S m peer request)
  | outsideAnswer {net : Net M N P H} (n : N) (id : ℕ) (s : Stream P) (wire : Except IoError Bytes)
      (stream : (net.nodes n).streams id = some s) (travelling : s.progress = .travelling)
      (outside : Outside S s.peer) : Step net { net with
        nodes := Function.update net.nodes n ((net.nodes n).advance id s (.answered wire)) }

/-- The networks a cluster can reach, in any order of its steps. -/
def Reachable (rafts : N → H) : Net M N P H → Prop :=
  Relation.ReflTransGen (Step S) (Net.start rafts)

end Network

end OmegaHarness.RaftSwarm
