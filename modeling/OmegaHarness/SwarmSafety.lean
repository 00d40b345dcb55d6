import OmegaHarness.SwarmInvariant

/-!
# Round trips across the cluster

What a caller gets back from a node of the cluster comes from the handler of that node, which was
asked once. No message ends a swarm whose codec is faithful, whoever has sent it, and no caller is
forgotten while it waits.
-/
namespace OmegaHarness.RaftSwarm
open FixedWidthBytes DomainHashes RaftTypes RpcFrames RaftRpc

section Results
variable {M : RaftMessages} {N P H : Type} {S : Setup M N P H} {rafts : N → H} {net : Net M N P H}

/-- A request which was handled came over a stream which was opened for this call. -/
def CameFrom (net : Net M N P H) (n : N) (call : ℕ) (r : Handled M N P H) : Prop :=
  ∃ id s, r.origin = .stream n id ∧ (net.nodes n).streams id = some s ∧ s.call = call

theorem Sound.same_stream (h : Sound S net) {n : N} {call : ℕ} {r r' : Handled M N P H}
    (hr : CameFrom net n call r) (hr' : CameFrom net n call r') :
    ∃ id, r.origin = .stream n id ∧ r'.origin = .stream n id := by
  obtain ⟨id,s,horigin,hs,hcall⟩ := hr
  obtain ⟨id',s',horigin',hs',hcall'⟩ := hr'
  cases (h.nodes n).single _ _ s s' hs hs' (hcall.trans hcall'.symm)
  exact ⟨id,horigin,horigin'⟩

/-- No two records are of one call. -/
theorem Sound.handled_once (h : Sound S net) :
    net.handled.Pairwise fun r r' => ∀ n call, CameFrom net n call r → ¬CameFrom net n call r' := by
  refine h.once.imp ?_
  intro r r' hne n call hr hr'
  obtain ⟨id,horigin,horigin'⟩ := h.same_stream hr hr'
  exact hne n id horigin horigin'

theorem Sound.handled_unique (h : Sound S net) {n : N} {call : ℕ} {r r' : Handled M N P H}
    (hr : r ∈ net.handled) (hr' : r' ∈ net.handled) (hfrom : CameFrom net n call r)
    (hfrom' : CameFrom net n call r') : r = r' := by
  by_contra hne
  have : Std.Symm fun r r' : Handled M N P H =>
      ∀ n call, CameFrom net n call r → ¬CameFrom net n call r' :=
    ⟨fun _ _ hapart n call hlast hfirst => hapart n call hfirst hlast⟩
  exact h.handled_once.forall hr hr' hne n call hfrom hfrom'

/-- A response on the stream of a caller which waits. -/
theorem response_arrives {n : N} (node : Node M P) {id call : ℕ} {target : UInt64}
    {request : RaftRpcRequest M} {s : Stream P} {frame bytes : Bytes} {response : RaftRpcResponse M}
    (hn : node.status = .running) (hpending : node.pending id = some call)
    (hcall : node.calls call = some ⟨target,request,.waiting⟩) (hstream : node.streams id = some s)
    (hprogress : s.progress = .answered (.ok frame))
    (hread : readResponse S.cbor frame = .ok response)
    (hbytes : encodeCbor S.cbor.response response = .ok bytes) :
    ∃ node', Local S n node node' ∧
      node'.calls call = some ⟨target,request,.answered (.ok bytes)⟩ := by
  have hstep := Local.response (S := S) (n := n) id s frame response hn hstream hprogress hread
  rw [Node.onResponse,hpending] at hstep
  dsimp only at hstep
  rw [hbytes] at hstep
  refine ⟨_,hstep,?_⟩
  dsimp only
  rw [Node.phases,hcall,Option.map_some,only,if_pos rfl]
  rfl

/-- A request within the limits is posted into a channel with room. -/
theorem request_posted {n : N} {node : Node M P} (call : ℕ) (target : UInt64)
    {request : RaftRpcRequest M} {payload : Bytes} (hn : node.status = .running)
    (hroom : node.channel.length < S.capacity) (hfresh : node.calls call = none)
    (hpayload : encodeCbor S.cbor.request request = .ok payload)
    (hsmall : payload.length ≤ maxRaftRpcBytes) :
    Local S n node { node with
      channel := node.channel++[⟨call,target,payload⟩]
      calls := Function.update node.calls call (some ⟨target,request,.waiting⟩) } := by
  have hcall := Local.call (S := S) (n := n) call target request hfresh
  rw [Node.post] at hcall
  dsimp only at hcall
  rw [hpayload] at hcall
  dsimp only at hcall
  rwa [if_neg (not_lt.mpr hsmall),if_neg (not_not.mpr hn),if_neg (not_le.mpr hroom)] at hcall

variable [DecidableEq N]

/-- The cluster with one node replaced. -/
def Net.put (net : Net M N P H) (n : N) (node : Node M P) : Net M N P H :=
  { net with nodes := Function.update net.nodes n node }

theorem put_self (net : Net M N P H) (n : N) : net.put n (net.nodes n) = net := by
  rw [Net.put,Function.update_eq_self]

@[simp] theorem put_node (net : Net M N P H) (n : N) (node : Node M P) :
    (net.put n node).nodes n = node := Function.update_self _ _ _

theorem put_other (net : Net M N P H) {n m : N} (h : m ≠ n) (node : Node M P) :
    (net.put n node).nodes m = net.nodes m := Function.update_of_ne h _ _

theorem put_put (net : Net M N P H) (n : N) (node node' : Node M P) :
    (net.put n node).put n node' = net.put n node' := by
  rw [Net.put,Net.put,Net.put,Function.update_idem]

theorem step_put {n : N} {node node' : Node M P} (net : Net M N P H) (h : Local S n node node') :
    Step S (net.put n node) (net.put n node') := by
  rw [← put_node net n node] at h
  have hstep := Step.act n node' h
  change Step S (net.put n node) ((net.put n node).put n node') at hstep
  rwa [put_put] at hstep

theorem deliver_put (net : Net M N P H) (n : N) (node : Node M P) (id : ℕ) (s : Stream P) (m : N)
    (request : RaftRpcRequest M) :
    (net.put n node).deliver S n id s m request =
      Net.put { net with
        rafts := Function.update net.rafts m ((S.raft m).handle request (net.rafts m)).2
        handled := net.handled++[⟨m,.stream n id,request,net.rafts m,
          ((S.raft m).handle request (net.rafts m)).1⟩] } n
        (node.advance id s (reply S ((S.raft m).handle request (net.rafts m)).1)) := by
  simp [Net.deliver,Net.put]

/-- A request is posted into an idle channel and taken out again: its stream is open. -/
theorem request_travels (hrequest : S.cbor.request.RoundTrips) {n : N} {node : Node M P} (call : ℕ)
    {target : UInt64} {request : RaftRpcRequest M} {payload : Bytes} {peer : P}
    (hn : node.status = .running) (hidle : node.channel = []) (hroom : 0 < S.capacity)
    (hfresh : node.calls call = none) (hpeer : peerOf (S.peers n) target = some peer)
    (hpayload : encodeCbor S.cbor.request request = .ok payload)
    (hsmall : payload.length ≤ maxRaftRpcBytes) (net : Net M N P H) :
    ∃ node' id, Relation.ReflTransGen (Step S) (net.put n node) (net.put n node') ∧
      node'.status = .running ∧ node'.channel = [] ∧ node'.pending id = some call ∧
      node'.calls = Function.update node.calls call (some ⟨target,request,.waiting⟩) ∧
      node'.streams id = some ⟨call,peer,writeRequest S.cbor request,.travelling⟩ := by
  have hposted := request_posted (S := S) (n := n) call target hn (by rw [hidle]; exact hroom)
    hfresh hpayload hsmall
  rw [hidle,List.nil_append] at hposted
  generalize hnode : ({ node with
      channel := [⟨call,target,payload⟩]
      calls := Function.update node.calls call (some ⟨target,request,.waiting⟩) } : Node M P) =
    first at hposted
  have htaken := Local.outbound (S := S) (n := n) ⟨call,target,payload⟩ []
    (by rw [← hnode]; exact hn) (by rw [← hnode] : first.channel = [⟨call,target,payload⟩])
  rw [Node.onOutbound,hpeer] at htaken
  dsimp only at htaken
  rw [decodeCbor_encodeCbor hrequest hpayload hsmall] at htaken
  refine ⟨_,first.nextRequest,.head (step_put net hposted) (.single (step_put net htaken)),?_,rfl,?_,
    ?_,?_⟩
  · rw [← hnode]
    exact hn
  · exact Function.update_self _ _ _
  · rw [← hnode]
  · exact Function.update_self _ _ _

/-- A round trip can succeed: between two running nodes, with an idle channel and messages within
the limits, the caller gets the answer which the peer's handler gives to its request now. -/
theorem round_trip_completes (hrequest : S.cbor.request.RoundTrips)
    (hresponse : S.cbor.response.RoundTrips) (hreach : Reachable S rafts net) {n m : N} (call : ℕ)
    (target : UInt64) (request : RaftRpcRequest M) {response : RaftRpcResponse M}
    {payload bytes : Bytes} (hn : (net.nodes n).status = .running)
    (hm : (net.nodes m).status = .running) (hidle : (net.nodes n).channel = [])
    (hroom : 0 < S.capacity) (hfresh : (net.nodes n).calls call = none)
    (hpeer : peerOf (S.peers n) target = some (S.identity m))
    (hpayload : encodeCbor S.cbor.request request = .ok payload)
    (hpayloadSmall : payload.length ≤ maxRaftRpcBytes)
    (hanswer : ((S.raft m).handle request (net.rafts m)).1 = .ok response)
    (hbytes : encodeCbor S.cbor.response response = .ok bytes)
    (hbytesSmall : bytes.length ≤ maxRaftRpcBytes) :
    ∃ net', Reachable S rafts net' ∧
      (∃ phase, (net'.nodes n).calls call = some ⟨target,request,phase⟩ ∧
        roundTrip S.cbor phase = some (.ok response)) ∧
      net'.rafts m = ((S.raft m).handle request (net.rafts m)).2 ∧
      ∃ id, net'.handled =
        net.handled++[⟨m,.stream n id,request,net.rafts m,.ok response⟩] := by
  obtain ⟨node,id,hsteps,hrunning,-,hpending,hcalls,hstream⟩ :=
    request_travels hrequest call hn hidle hroom hfresh hpeer hpayload hpayloadSmall net
  have hcall : node.calls call = some ⟨target,request,.waiting⟩ :=
    (congrFun hcalls call).trans (Function.update_self _ _ _)
  rw [put_self] at hsteps
  have hwrite : writeRequest S.cbor request = .ok (ByteFraming.framed 4 payload) :=
    writeMessage_ok.mpr ⟨payload,hpayload,writeFrame_ok.mpr ⟨hpayloadSmall,rfl⟩⟩
  have hread := readMessage_writeMessage hrequest hwrite []
  rw [List.append_nil] at hread
  have hlive : ((net.put n node).nodes m).status = .running := by
    by_cases hmn : m = n
    · rw [hmn,put_node]
      exact hrunning
    · rw [put_other net hmn]
      exact hm
  have hdelivered := Step.deliver n id _ m _ request hlive ((congrArg (Node.streams · id)
    (put_node net n node)).trans hstream) rfl rfl hwrite hread
  -- the handler's answer lies on the stream
  have hreply : reply S ((S.raft m).handle request (net.rafts m)).1 =
      .answered (.ok (ByteFraming.framed 4 bytes)) := by
    rw [hanswer]
    exact congrArg Progress.answered
      (writeMessage_ok.mpr ⟨bytes,hbytes,writeFrame_ok.mpr ⟨hbytesSmall,rfl⟩⟩)
  rw [deliver_put,hreply] at hdelivered
  have hwritten : writeResponse S.cbor response = .ok (ByteFraming.framed 4 bytes) :=
    writeMessage_ok.mpr ⟨bytes,hbytes,writeFrame_ok.mpr ⟨hbytesSmall,rfl⟩⟩
  have hread' := readMessage_writeMessage hresponse hwritten []
  rw [List.append_nil] at hread'
  obtain ⟨node',hstep,hcall'⟩ := response_arrives (S := S) (n := n)
    (node.advance id _ (.answered (.ok (ByteFraming.framed 4 bytes)))) hrunning hpending hcall
    (Function.update_self _ _ _) rfl hread' hbytes
  refine ⟨_,(hreach.trans hsteps).tail hdelivered |>.tail (step_put _ hstep),
    ⟨.answered (.ok bytes),?_,?_⟩,?_,?_⟩
  · rw [put_node]
    exact hcall'
  · exact congrArg some (decodeCbor_encodeCbor hresponse hbytes hbytesSmall)
  · exact Function.update_self _ _ _
  · exact ⟨id,by rw [Net.put,hanswer]⟩

end Results

section Pair

structure VoteRequest where
  vote : Vote
  lastLogId : Option LogId
  deriving DecidableEq

structure VoteResponse where
  vote : Vote
  voteGranted : Bool
  lastLogId : Option LogId
  deriving DecidableEq

structure AppendEntriesRequest where
  vote : Vote
  prevLogId : Option LogId
  entries : List Entry
  leaderCommit : Option LogId

inductive AppendEntriesResponse where
  | success
  | partialSuccess (matching : Option LogId)
  | conflict
  | higherVote (vote : Vote)

structure InstallSnapshotRequest where
  vote : Vote
  snapshotMeta : SnapshotMeta
  offset : UInt64
  data : Bytes
  done : Bool

structure InstallSnapshotResponse where
  vote : Vote

def openraftMessages : RaftMessages := ⟨AppendEntriesRequest,AppendEntriesResponse,VoteRequest,
  VoteResponse,InstallSnapshotRequest,InstallSnapshotResponse⟩

/-- The envelopes of votes, over the bytes of what they hold. -/
def voteEnvelopes (requests : Codec VoteRequest) (responses : Codec VoteResponse) :
    RpcCbor openraftMessages where
  request :=
    { encode
        | .vote rpc => requests.encode rpc
        | _ => .error "not listed"
      decode bytes := (requests.decode bytes).map .vote }
  response :=
    { encode
        | .vote response => responses.encode response
        | _ => .error "not listed"
      decode bytes := (responses.decode bytes).map .vote }

section Envelopes
variable {requests : Codec VoteRequest} {responses : Codec VoteResponse}

theorem voteEnvelopes_request_roundTrips (h : requests.RoundTrips) :
    (voteEnvelopes requests responses).request.RoundTrips := by
  intro request bytes hencode
  cases request with
  | vote rpc =>
      change (requests.decode bytes).map RaftRpcRequest.vote = .ok (.vote rpc)
      rw [h rpc bytes hencode]
      rfl
  | appendEntries rpc => cases hencode
  | installSnapshot rpc => cases hencode

theorem voteEnvelopes_response_roundTrips (h : responses.RoundTrips) :
    (voteEnvelopes requests responses).response.RoundTrips := by
  intro response bytes hencode
  cases response with
  | vote answer =>
      change (responses.decode bytes).map RaftRpcResponse.vote = .ok (.vote answer)
      rw [h answer bytes hencode]
      rfl
  | appendEntries rpc => cases hencode
  | installSnapshot rpc => cases hencode

theorem voteEnvelopes_response_rewrites (h : responses.Rewrites) :
    (voteEnvelopes requests responses).response.Rewrites := by
  intro bytes response hdecode
  change (responses.decode bytes).map RaftRpcResponse.vote = .ok response at hdecode
  cases hvote : responses.decode bytes with
  | error e =>
      rw [hvote] at hdecode
      cases hdecode
  | ok answer =>
      rw [hvote] at hdecode
      cases hdecode
      exact h bytes answer hvote

end Envelopes

/-- Node 1 asks for votes in term 1, with an empty log. -/
def candidacy : VoteRequest := ⟨⟨⟨1,1⟩,false⟩,none⟩

def granted : VoteResponse := ⟨⟨⟨1,1⟩,false⟩,true,none⟩

/-- The request in CBOR: a map from the name of its kind to the map of its fields. -/
def candidacyBytes : Bytes :=
  [0xa1,0x64,0x76,0x6f,0x74,0x65,0xa2,0x64,0x76,0x6f,0x74,0x65]++voteBytes 1 1 0xf4++
    [0x6b,0x6c,0x61,0x73,0x74,0x5f,0x6c,0x6f,0x67,0x5f,0x69,0x64,0xf6]

def grantedBytes : Bytes :=
  [0xa1,0x64,0x76,0x6f,0x74,0x65,0xa3,0x64,0x76,0x6f,0x74,0x65]++voteBytes 1 1 0xf4++
    [0x6c,0x76,0x6f,0x74,0x65,0x5f,0x67,0x72,0x61,0x6e,0x74,0x65,0x64,0xf5,
      0x6b,0x6c,0x61,0x73,0x74,0x5f,0x6c,0x6f,0x67,0x5f,0x69,0x64,0xf6]

def voteRpcs : RpcCbor openraftMessages :=
  voteEnvelopes (listedCodec [(candidacy,candidacyBytes)]) (listedCodec [(granted,grantedBytes)])

theorem voteRpcs_requests : voteRpcs.request.RoundTrips :=
  voteEnvelopes_request_roundTrips (listedCodec_roundTrips (by decide))

theorem voteRpcs_responses : voteRpcs.response.RoundTrips :=
  voteEnvelopes_response_roundTrips (listedCodec_roundTrips (by decide))

theorem voteRpcs_rewrites : voteRpcs.response.Rewrites :=
  voteEnvelopes_response_rewrites (listedCodec_rewrites _)

/-- A node with an empty log and its vote, which grants whatever is no lower. -/
def voter : LocalRaft openraftMessages Vote where
  appendEntries _ own := (.error "the node only votes",own)
  vote rpc own :=
    if own.leaderId.term < rpc.vote.leaderId.term ∨ own.leaderId.term = rpc.vote.leaderId.term ∧
        own.leaderId.nodeId ≤ rpc.vote.leaderId.nodeId then
      (.ok ⟨rpc.vote,true,none⟩,rpc.vote)
    else (.ok ⟨own,false,none⟩,own)
  installSnapshot _ own := (.error "the node only votes",own)

/-- Two nodes which know each other. -/
def pairSetup : Setup openraftMessages Bool ℕ Vote where
  cbor := voteRpcs
  capacity := 256
  identity node := if node then 1 else 2
  peers
    | true => [⟨2,2,"/ip4/127.0.0.1/tcp/9002"⟩]
    | false => [⟨1,1,"/ip4/127.0.0.1/tcp/9001"⟩]
  raft _ := voter

def unvoted : Bool → Vote := fun _ => ⟨⟨0,0⟩,false⟩

theorem candidacy_encodes : encodeCbor pairSetup.cbor.request (.vote candidacy) = .ok candidacyBytes :=
  rfl

theorem granted_encodes : encodeCbor pairSetup.cbor.response (.vote granted) = .ok grantedBytes := rfl

theorem pair_peer : peerOf (pairSetup.peers true) 2 = some (pairSetup.identity false) := rfl

/-- A node grants the same vote again. -/
theorem candidacy_granted :
    ((pairSetup.raft false).handle (.vote candidacy) candidacy.vote).1 = .ok (.vote granted) := rfl

/-- A stranger asks node 2 first, then node 1 gets its vote. -/
theorem pair_vote : ∃ (net : Net openraftMessages Bool ℕ Vote) (id : ℕ),
    Reachable pairSetup unvoted net ∧
      (∃ phase, (net.nodes true).calls 0 = some ⟨2,.vote candidacy,phase⟩ ∧
        roundTrip pairSetup.cbor phase = some (.ok (.vote granted))) ∧
      net.handled = [⟨false,.outside 3,.vote candidacy,unvoted false,.ok (.vote granted)⟩,
        ⟨false,.stream true id,.vote candidacy,candidacy.vote,.ok (.vote granted)⟩] := by
  have hstranger : Outside pairSetup 3 := by
    intro node
    cases node <;> decide
  have hread : readRequest pairSetup.cbor (ByteFraming.framed 4 candidacyBytes) =
      .ok (.vote candidacy) := by
    have hwritten : writeRequest pairSetup.cbor (.vote candidacy) =
        .ok (ByteFraming.framed 4 candidacyBytes) :=
      writeMessage_ok.mpr ⟨_,candidacy_encodes,writeFrame_ok.mpr ⟨by decide,rfl⟩⟩
    have hback := readMessage_writeMessage voteRpcs_requests hwritten []
    rwa [List.append_nil] at hback
  have hasked : Reachable pairSetup unvoted
      ((Net.start unvoted).serve pairSetup false 3 (.vote candidacy)) :=
    .single (.outsideRequest false 3 _ _ rfl hstranger hread)
  obtain ⟨net,hreach,hreturned,-,id,hhandled⟩ := round_trip_completes voteRpcs_requests
    voteRpcs_responses hasked 0 2 (.vote candidacy) rfl rfl rfl (by decide) rfl pair_peer
    candidacy_encodes (by decide) candidacy_granted granted_encodes (by decide)
  exact ⟨net,id,hreach,hreturned,hhandled⟩

end Pair

section Safety
variable {M : RaftMessages} {N P H : Type} [DecidableEq N] {S : Setup M N P H} {rafts : N → H}
  {net : Net M N P H}

/-- A successful round trip to a node of the cluster returns what the handler of the configured peer
answered to this very request, which no other handler was asked, and of the kind the request has, so
that the caller's check of the kind lets it through. -/
theorem replies_authentic (hrequest : S.cbor.request.RoundTrips)
    (hresponse : S.cbor.response.RoundTrips) (hreach : Reachable S rafts net) {n : N} {call : ℕ}
    {c : Call M} {response : RaftRpcResponse M} (hcall : (net.nodes n).calls call = some c)
    (hreturned : roundTrip S.cbor c.phase = some (.ok response)) :
    (∃ peer, peerOf (S.peers n) c.target = some peer ∧ Outside S peer) ∨
      ∃ r ∈ net.handled, CameFrom net n call r ∧
        peerOf (S.peers n) c.target = some (S.identity r.node) ∧
        ((S.raft r.node).handle c.request r.state).1 = .ok response ∧
        response.variantName = c.request.variantName ∧
        (S.raft r.node).Answers r.state response c.request ∧
        ∀ r' ∈ net.handled, CameFrom net n call r' → r' = r := by
  have hsound := sound_reachable hrequest hreach
  have hn := hsound.nodes n
  -- only a reply with bytes can become a success
  obtain ⟨bytes,hphase,hdecode⟩ : ∃ bytes, c.phase = .answered (.ok bytes) ∧
      decodeCbor S.cbor.response bytes = .ok response := by
    generalize c.phase = phase at hreturned
    cases phase with
    | answered reply =>
        cases reply with
        | ok bytes => exact ⟨bytes,rfl,Option.some.inj hreturned⟩
        | error e => cases hreturned
    | waiting => cases hreturned
    | dropped => cases hreturned
    | timedOut => cases hreturned
    | refused e => cases hreturned
  obtain ⟨id,s,frame,sent,hs,hsame,hprogress,hread,hencode⟩ := hn.replied call c bytes hcall hphase
  cases decodeCbor_unique hresponse hencode hdecode
  obtain ⟨c',hopened⟩ := hn.opened id s hs
  have hknown := hopened.known
  rw [hsame] at hknown
  cases hcall.symm.trans hknown
  rcases hn.response_handled hresponse hs hprogress hread with houtside | ⟨r,hr,horigin,hresult⟩
  · exact Or.inl ⟨s.peer,hopened.peer,houtside⟩
  · obtain ⟨s',c',hs',-,hcall',hasked,hpeer⟩ := hn.handled r hr id horigin
    cases hs.symm.trans hs'
    rw [hsame] at hcall'
    cases hcall.symm.trans hcall'
    have hanswer := hsound.results r hr
    rw [hasked,hresult] at hanswer
    have hfrom : CameFrom net n call r := ⟨id,s,horigin,hs,hsame⟩
    refine Or.inr ⟨r,hr,hfrom,hpeer ▸ hopened.peer,hanswer.symm,handle_variant hanswer.symm,
      answers_of_handle hanswer.symm,?_⟩
    intro r' hr' hfrom'
    exact hsound.handled_unique hr' hr hfrom' hfrom

/-- The vote which the first of two nodes got was given by the second one. -/
theorem pair_vote_authentic : ∃ (net : Net openraftMessages Bool ℕ Vote)
    (r : Handled openraftMessages Bool ℕ Vote), Reachable pairSetup unvoted net ∧ r ∈ net.handled ∧
      CameFrom net true 0 r ∧ pairSetup.identity r.node = 2 ∧
      (pairSetup.raft r.node).Answers r.state (.vote granted) (.vote candidacy) := by
  obtain ⟨net,id,hreach,⟨phase,hcall,hreturned⟩,-⟩ := pair_vote
  rcases replies_authentic voteRpcs_requests voteRpcs_responses hreach hcall hreturned with
    ⟨peer,hpeer,houtside⟩ | ⟨r,hr,hfrom,hpeer,-,-,hanswers,-⟩
  · cases pair_peer.symm.trans hpeer
    exact (houtside false rfl).elim
  · exact ⟨net,r,hreach,hr,hfrom,Option.some.inj (hpeer.symm.trans pair_peer),hanswers⟩

/-- Every request a handler was asked comes from a peer outside of the cluster or from one call, with
that call's request, at the peer which the configuration names for its target; no call is handled
twice, and a call which was refused is not handled at all. -/
theorem requests_handled_once (hrequest : S.cbor.request.RoundTrips)
    (hreach : Reachable S rafts net) :
    (∀ r ∈ net.handled, (∃ peer, r.origin = .outside peer ∧ Outside S peer) ∨
      ∃ n call c, CameFrom net n call r ∧ (net.nodes n).calls call = some c ∧ r.request = c.request ∧
        peerOf (S.peers n) c.target = some (S.identity r.node) ∧ ∀ e, c.phase ≠ .refused e) ∧
    net.handled.Pairwise fun r r' => ∀ n call, CameFrom net n call r → ¬CameFrom net n call r' := by
  have hsound := sound_reachable hrequest hreach
  refine ⟨?_,hsound.handled_once⟩
  intro r hr
  cases horigin : r.origin with
  | outside peer => exact Or.inl ⟨peer,rfl,hsound.outsiders r hr peer horigin⟩
  | stream n id =>
      have hn := hsound.nodes n
      obtain ⟨s,c,hs,-,hcall,hasked,hpeer⟩ := hn.handled r hr id horigin
      obtain ⟨c',hopened⟩ := hn.opened id s hs
      cases hcall.symm.trans hopened.known
      exact Or.inr ⟨n,s.call,c,⟨id,s,horigin,hs,rfl⟩,hcall,hasked,hpeer ▸ hopened.peer,
        hopened.admitted⟩

/-- Of the two requests which node 2 was asked one is the stranger's and one is the first call of
node 1. -/
theorem pair_vote_handled_once : ∃ (net : Net openraftMessages Bool ℕ Vote)
    (stranger ours : Handled openraftMessages Bool ℕ Vote), Reachable pairSetup unvoted net ∧
      net.handled = [stranger,ours] ∧ stranger.origin = .outside 3 ∧
      (∃ call c, CameFrom net true call ours ∧ (net.nodes true).calls call = some c ∧
        c.request = .vote candidacy) ∧
      ∀ n call, CameFrom net n call stranger → ¬CameFrom net n call ours := by
  obtain ⟨net,id,hreach,-,hhandled⟩ := pair_vote
  obtain ⟨horigins,honce⟩ := requests_handled_once voteRpcs_requests hreach
  refine ⟨net,_,_,hreach,hhandled,rfl,?_,?_⟩
  · rcases horigins _ (hhandled ▸ List.mem_cons_of_mem _ List.mem_cons_self) with
      ⟨peer,hpeer,-⟩ | ⟨n,call,c,hfrom,hcall,hrequest,-⟩
    · cases hpeer
    · obtain ⟨id',s,horigin,hs,hopened⟩ := hfrom
      cases horigin
      exact ⟨call,c,⟨_,s,rfl,hs,hopened⟩,hcall,hrequest.symm⟩
  · rw [hhandled] at honce
    exact (List.pairwise_cons.mp honce).1 _ List.mem_cons_self

/-- No message ends a swarm whose codec is faithful, its channel stays within its capacity, and every
caller which waits has its request in the channel or its reply channel in the table of a running
swarm. -/
theorem no_caller_forgotten (hrequest : S.cbor.request.RoundTrips)
    (hrewrites : S.cbor.response.Rewrites) (hreach : Reachable S rafts net) (n : N) :
    (∀ e, (net.nodes n).status ≠ .failed e) ∧ (net.nodes n).channel.length ≤ S.capacity ∧
      ∀ call c, (net.nodes n).calls call = some c → roundTrip S.cbor c.phase = none →
        (net.nodes n).status = .running ∧
          (call ∈ (net.nodes n).channel.map OutboundRaftRequest.call ∨
            ∃ id, (net.nodes n).pending id = some call) := by
  have hsound := sound_reachable hrequest hreach
  refine ⟨healthy_reachable hrequest hrewrites hreach n,(hsound.nodes n).bounded,?_⟩
  intro call c hcall hreturned
  apply hsound.accounted n call c hcall
  generalize c.phase = phase at hreturned
  cases phase with
  | waiting => rfl
  | answered reply => cases reply <;> cases hreturned
  | dropped => cases hreturned
  | timedOut => cases hreturned
  | refused e => cases hreturned

/-- Two callers of node 1 wait, one for its peer and one in the channel. -/
theorem pair_callers_wait : ∃ net : Net openraftMessages Bool ℕ Vote,
    Reachable pairSetup unvoted net ∧ (net.nodes true).channel.map OutboundRaftRequest.call = [1] ∧
      (net.nodes true).calls 0 = some ⟨2,.vote candidacy,.waiting⟩ ∧
      (net.nodes true).calls 1 = some ⟨2,.vote candidacy,.waiting⟩ := by
  obtain ⟨node,id,hsteps,hrunning,hidle,-,hcalls,-⟩ := request_travels voteRpcs_requests 0
    (rfl : ((Net.start unvoted).nodes true).status = .running) rfl (by decide) rfl pair_peer
    candidacy_encodes (by decide) (Net.start unvoted)
  rw [put_self] at hsteps
  have hposted := request_posted (S := pairSetup) (n := true) 1 2 hrunning (by rw [hidle]; decide)
    (by rw [hcalls]; rfl) candidacy_encodes (by decide)
  refine ⟨_,hsteps.tail (step_put _ hposted),?_,?_,?_⟩
  · rw [put_node,hidle]
    rfl
  · rw [put_node,hcalls]
    rfl
  · rw [put_node]
    rfl

theorem pair_channel_bounded : ∃ net : Net openraftMessages Bool ℕ Vote,
    Reachable pairSetup unvoted net ∧ 0 < (net.nodes true).channel.length ∧
      (net.nodes true).channel.length ≤ pairSetup.capacity ∧
      (net.nodes true).calls 0 = some ⟨2,.vote candidacy,.waiting⟩ ∧
      ∃ id, (net.nodes true).pending id = some 0 := by
  obtain ⟨net,hreach,hchannel,hfirst,hsecond⟩ := pair_callers_wait
  obtain ⟨-,hbounded,hwaiting⟩ := no_caller_forgotten voteRpcs_requests voteRpcs_rewrites hreach true
  refine ⟨net,hreach,?_,hbounded,hfirst,?_⟩
  · rw [← List.length_map (f := OutboundRaftRequest.call),hchannel]
    decide
  · obtain ⟨-,hplace⟩ := hwaiting 0 _ hfirst rfl
    rw [hchannel] at hplace
    exact hplace.resolve_left (by decide)

end Safety

end OmegaHarness.RaftSwarm
