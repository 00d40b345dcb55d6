import OmegaHarness.RaftSwarm

/-!
# What every step of the network keeps

A node's sending side is described by its own calls, channel and streams and by what has been
handled so far, so a step of one node leaves the description of the others alone. The requests in
the channel are their callers', every stream was opened for one of them, and what lies as an answer
on a stream to a node of the cluster was given by that node's handler.
-/
namespace OmegaHarness.RaftSwarm
open FixedWidthBytes DomainHashes RaftTypes RpcFrames RaftRpc

section Calls
variable {M : RaftMessages} {P : Type}

/-- A call keeps its target and its request, and its phase once it does not wait. -/
def Later (calls calls' : ℕ → Option (Call M)) : Prop :=
  ∀ i c, calls i = some c → ∃ phase, calls' i = some { c with phase := phase } ∧
    (phase = c.phase ∨ c.phase = .waiting ∧ ∀ e, phase ≠ .refused e)

theorem later_phases (node : Node M P) {change : ℕ → CallPhase → CallPhase}
    (hchange : ∀ i phase, phase ≠ .waiting → change i phase = phase)
    (hrefused : ∀ i e, change i .waiting ≠ .refused e) : Later node.calls (node.phases change) := by
  intro i c hcall
  refine ⟨change i c.phase,?_,?_⟩
  · rw [Node.phases,hcall]
    rfl
  · by_cases hwaiting : c.phase = .waiting
    · exact Or.inr ⟨hwaiting,fun e => hwaiting ▸ hrefused i e⟩
    · exact Or.inl (hchange i _ hwaiting)

theorem later_fresh {calls : ℕ → Option (Call M)} {call : ℕ} (hfresh : calls call = none)
    (c : Call M) : Later calls (Function.update calls call (some c)) := by
  intro i c' hcall
  have hne : i ≠ call := by
    rintro rfl
    rw [hfresh] at hcall
    cases hcall
  exact ⟨c'.phase,(Function.update_of_ne hne _ _).trans hcall,Or.inl rfl⟩

theorem phases_eq_some {node : Node M P} {change : ℕ → CallPhase → CallPhase} {i : ℕ} {c : Call M}
    (h : node.phases change i = some c) :
    ∃ phase, node.calls i = some { c with phase := phase } ∧ c.phase = change i phase := by
  obtain ⟨c',hcall,rfl⟩ := Option.map_eq_some_iff.mp h
  exact ⟨c'.phase,hcall,rfl⟩

end Calls

theorem receive_settled {phase : CallPhase} (h : phase ≠ .waiting)
    {reply : Except OmegaNetworkError Bytes} : phase.receive reply = phase := by
  cases phase <;> first | rfl | exact (h rfl).elim

theorem drop_settled {phase : CallPhase} (h : phase ≠ .waiting) : phase.drop = phase := by
  cases phase <;> first | rfl | exact (h rfl).elim

theorem leave_settled {phase : CallPhase} (h : phase ≠ .waiting) : phase.leave = phase := by
  cases phase <;> first | rfl | exact (h rfl).elim

theorem only_settled {change : CallPhase → CallPhase}
    (h : ∀ phase, phase ≠ .waiting → change phase = phase) (call i : ℕ) (phase : CallPhase)
    (hphase : phase ≠ .waiting) : only call change i phase = phase := by
  rw [only]
  split
  · exact h phase hphase
  · rfl

section Invariant
variable {M : RaftMessages} {N P H : Type} (S : Setup M N P H) (n : N)

/-- A request of the channel, as its caller posted it. -/
structure Posted (calls : ℕ → Option (Call M)) (o : OutboundRaftRequest) (c : Call M) : Prop where
  known : calls o.call = some c
  target : o.target = c.target
  payload : encodeCbor S.cbor.request c.request = .ok o.payload
  small : o.payload.length ≤ maxRaftRpcBytes
  admitted : ∀ e, c.phase ≠ .refused e

/-- A stream, as the swarm opened it for a call. -/
structure Opened (calls : ℕ → Option (Call M)) (s : Stream P) (c : Call M) : Prop where
  known : calls s.call = some c
  peer : peerOf (S.peers n) c.target = some s.peer
  wire : s.wire = writeRequest S.cbor c.request
  admitted : ∀ e, c.phase ≠ .refused e

/-- A reply which has come over a stream of the call. -/
def Replied (streams : ℕ → Option (Stream P)) (call : ℕ) (bytes : Bytes) : Prop :=
  ∃ id s frame response, streams id = some s ∧ s.call = call ∧
    s.progress = .answered (.ok frame) ∧ readResponse S.cbor frame = .ok response ∧
      encodeCbor S.cbor.response response = .ok bytes

/-- What holds of one node's sending side and of what has been handled. -/
structure SoundAt (handled : List (Handled M N P H)) (node : Node M P) : Prop where
  bounded : node.channel.length ≤ S.capacity
  distinct : (node.channel.map OutboundRaftRequest.call).Nodup
  posted : ∀ o ∈ node.channel, ∃ c, Posted S node.calls o c
  issued : ∀ id s, node.streams id = some s → id < node.nextRequest
  opened : ∀ id s, node.streams id = some s → ∃ c, Opened S n node.calls s c
  unqueued : ∀ id s, node.streams id = some s → s.call ∉ node.channel.map OutboundRaftRequest.call
  single : ∀ id id' s s', node.streams id = some s → node.streams id' = some s' →
    s.call = s'.call → id = id'
  pended : ∀ id i, node.pending id = some i → ∃ s, node.streams id = some s ∧ s.call = i
  answers : ∀ id s wire, node.streams id = some s → s.progress = .answered wire →
    Outside S s.peer ∨ ∃ r ∈ handled, r.origin = .stream n id ∧
      ∃ response, r.result = .ok response ∧ wire = writeResponse S.cbor response
  handled : ∀ r ∈ handled, ∀ id, r.origin = .stream n id → ∃ s c, node.streams id = some s ∧
    s.progress ≠ .travelling ∧ node.calls s.call = some c ∧ r.request = c.request ∧
      S.identity r.node = s.peer
  replied : ∀ i c bytes, node.calls i = some c → c.phase = .answered (.ok bytes) →
    Replied S node.streams i bytes

variable {S} {n} {handled : List (Handled M N P H)} {node : Node M P}

theorem soundAt_start : SoundAt S n ([] : List (Handled M N P H)) (Node.start : Node M P) where
  bounded := Nat.zero_le _
  distinct := List.nodup_nil
  posted o ho := (List.not_mem_nil ho).elim
  issued id s h := by cases h
  opened id s h := by cases h
  unqueued id s h := by cases h
  single id id' s s' h := by cases h
  pended id i h := by cases h
  answers id s wire h := by cases h
  handled r hr := (List.not_mem_nil hr).elim
  replied i c bytes h := by cases h

/-- Callers move on; the requests and the streams stay theirs. -/
theorem SoundAt.recall (h : SoundAt S n handled node) {calls : ℕ → Option (Call M)}
    (hlater : Later node.calls calls)
    (hreplied : ∀ i c bytes, calls i = some c → c.phase = .answered (.ok bytes) →
      Replied S node.streams i bytes) : SoundAt S n handled { node with calls := calls } where
  bounded := h.bounded
  distinct := h.distinct
  posted o ho := by
    obtain ⟨c,hc⟩ := h.posted o ho
    obtain ⟨phase,hcall,hphase⟩ := hlater _ _ hc.known
    refine ⟨_,hcall,hc.target,hc.payload,hc.small,?_⟩
    rcases hphase with hphase | ⟨-,hphase⟩
    · exact fun e => hphase ▸ hc.admitted e
    · exact hphase
  issued := h.issued
  opened id s hs := by
    obtain ⟨c,hc⟩ := h.opened id s hs
    obtain ⟨phase,hcall,hphase⟩ := hlater _ _ hc.known
    refine ⟨_,hcall,hc.peer,hc.wire,?_⟩
    rcases hphase with hphase | ⟨-,hphase⟩
    · exact fun e => hphase ▸ hc.admitted e
    · exact hphase
  unqueued := h.unqueued
  single := h.single
  pended := h.pended
  answers := h.answers
  handled r hr id horigin := by
    obtain ⟨s,c,hs,hprogress,hc,hrequest,hpeer⟩ := h.handled r hr id horigin
    obtain ⟨phase,hcall,-⟩ := hlater _ _ hc
    exact ⟨s,_,hs,hprogress,hcall,hrequest,hpeer⟩
  replied := hreplied

/-- Requests may leave the channel. -/
theorem SoundAt.shorten (h : SoundAt S n handled node) {channel : List OutboundRaftRequest}
    (hsub : channel.Sublist node.channel) : SoundAt S n handled { node with channel := channel } where
  bounded := hsub.length_le.trans h.bounded
  distinct := h.distinct.sublist (hsub.map _)
  posted o ho := h.posted o (hsub.subset ho)
  issued := h.issued
  opened := h.opened
  unqueued id s hs hmem := h.unqueued id s hs ((hsub.map _).subset hmem)
  single := h.single
  pended := h.pended
  answers := h.answers
  handled := h.handled
  replied := h.replied

/-- Reply channels may leave the pending table. -/
theorem SoundAt.unpend (h : SoundAt S n handled node) (pending : ℕ → Option ℕ)
    (hsub : ∀ id i, pending id = some i → node.pending id = some i) :
    SoundAt S n handled { node with pending := pending } where
  bounded := h.bounded
  distinct := h.distinct
  posted := h.posted
  issued := h.issued
  opened := h.opened
  unqueued := h.unqueued
  single := h.single
  pended id i hi := h.pended id i (hsub id i hi)
  answers := h.answers
  handled := h.handled
  replied := h.replied

/-- Phases which change without a response. -/
theorem SoundAt.move (h : SoundAt S n handled node) {change : ℕ → CallPhase → CallPhase}
    (hchange : ∀ i phase, phase ≠ .waiting → change i phase = phase)
    (hrefused : ∀ i e, change i .waiting ≠ .refused e)
    (hreply : ∀ i bytes, change i .waiting = .answered (.ok bytes) → Replied S node.streams i bytes) :
    SoundAt S n handled { node with calls := node.phases change } := by
  apply h.recall (later_phases node hchange hrefused)
  intro i c bytes hcall hphase
  obtain ⟨phase,hold,hnew⟩ := phases_eq_some hcall
  by_cases hwaiting : phase = .waiting
  · rw [hwaiting] at hnew
    exact hreply i bytes (hnew.symm.trans hphase)
  · rw [hchange i phase hwaiting] at hnew
    exact h.replied i _ bytes hold (hnew.symm.trans hphase)

theorem SoundAt.halt (h : SoundAt S n handled node) (status : Status) :
    SoundAt S n handled (node.halt status) := by
  have hdropped : SoundAt S n handled { node with calls := node.phases fun _ => .drop } := by
    apply h.move
    · exact fun i phase hphase => drop_settled hphase
    · intro i e heq
      cases heq
    · intro i bytes heq
      cases heq
  have hempty := (hdropped.shorten (List.nil_sublist _)).unpend (fun _ => none) (by simp)
  exact { hempty with }

/-- One call moves on. -/
theorem SoundAt.settle (h : SoundAt S n handled node) (call : ℕ) {change : CallPhase → CallPhase}
    (hchange : ∀ phase, phase ≠ .waiting → change phase = phase)
    (hrefused : ∀ e, change .waiting ≠ .refused e)
    (hreply : ∀ bytes, change .waiting = .answered (.ok bytes) → Replied S node.streams call bytes) :
    SoundAt S n handled { node with calls := node.phases (only call change) } := by
  apply h.move (only_settled hchange call)
  · intro i e heq
    rw [only] at heq
    split at heq
    · exact hrefused e heq
    · cases heq
  · intro i bytes heq
    rw [only] at heq
    split at heq
    · next hi =>
        rw [hi]
        exact hreply bytes heq
    · cases heq

theorem SoundAt.receive (h : SoundAt S n handled node) (call : ℕ)
    {reply : Except OmegaNetworkError Bytes}
    (hreply : ∀ bytes, reply = .ok bytes → Replied S node.streams call bytes) :
    SoundAt S n handled { node with calls := node.phases (only call (.receive reply)) } := by
  apply h.settle call (fun phase hphase => receive_settled hphase)
  · intro e heq
    cases heq
  · exact fun bytes heq => hreply bytes (CallPhase.answered.inj heq)

theorem SoundAt.refuse (h : SoundAt S n handled node) {call : ℕ} (hfresh : node.calls call = none)
    (target : UInt64) (request : RaftRpcRequest M) (e : OmegaNetworkError) :
    SoundAt S n handled { node with
      calls := Function.update node.calls call (some ⟨target,request,.refused e⟩) } := by
  apply h.recall (later_fresh hfresh _)
  intro i c bytes hcall hphase
  by_cases hi : i = call
  · rw [hi,Function.update_self] at hcall
    cases hcall
    cases hphase
  · rw [Function.update_of_ne hi] at hcall
    exact h.replied i c bytes hcall hphase

theorem SoundAt.enqueue (h : SoundAt S n handled node) {call : ℕ} (hfresh : node.calls call = none)
    {target : UInt64} {request : RaftRpcRequest M} {payload : Bytes}
    (hencode : encodeCbor S.cbor.request request = .ok payload)
    (hsmall : payload.length ≤ maxRaftRpcBytes) (hroom : node.channel.length < S.capacity) :
    SoundAt S n handled { node with
      channel := node.channel++[⟨call,target,payload⟩]
      calls := Function.update node.calls call (some ⟨target,request,.waiting⟩) } := by
  have hknown : ∀ o ∈ node.channel, o.call ≠ call := by
    rintro o ho rfl
    obtain ⟨c,hc⟩ := h.posted o ho
    have hcall := hc.known
    rw [hfresh] at hcall
    cases hcall
  have hlater : SoundAt S n handled { node with
      calls := Function.update node.calls call (some ⟨target,request,.waiting⟩) } := by
    apply h.recall (later_fresh hfresh _)
    intro i c bytes hcall hphase
    by_cases hi : i = call
    · rw [hi,Function.update_self] at hcall
      cases hcall
      cases hphase
    · rw [Function.update_of_ne hi] at hcall
      exact h.replied i c bytes hcall hphase
  refine { hlater with bounded := ?_,distinct := ?_,posted := ?_,unqueued := ?_ }
  · rw [List.length_append]
    exact hroom
  · rw [List.map_append,List.nodup_append]
    refine ⟨h.distinct,by simp,?_⟩
    intro x hx y hy heq
    obtain ⟨o,ho,rfl⟩ := List.mem_map.mp hx
    exact hknown o ho (heq.trans (List.mem_singleton.mp hy))
  · intro o ho
    rcases List.mem_append.mp ho with ho | ho
    · exact hlater.posted o ho
    · rw [List.mem_singleton.mp ho]
      exact ⟨_,Function.update_self _ _ _,rfl,hencode,hsmall,fun e heq => by cases heq⟩
  · intro id s hs hmem
    rw [List.map_append,List.mem_append] at hmem
    rcases hmem with hmem | hmem
    · exact h.unqueued id s hs hmem
    · obtain ⟨c,hc⟩ := h.opened id s hs
      have hcall := hc.known
      rw [List.mem_singleton.mp hmem] at hcall
      rw [show (OutboundRaftRequest.mk call target payload).call = call from rfl,hfresh] at hcall
      cases hcall

theorem SoundAt.post (h : SoundAt S n handled node) {call : ℕ} (hfresh : node.calls call = none)
    (target : UInt64) (request : RaftRpcRequest M) :
    SoundAt S n handled (node.post S call target request) := by
  rw [Node.post]
  dsimp only
  cases hencode : encodeCbor S.cbor.request request with
  | error e => exact h.refuse hfresh target request e
  | ok payload =>
      dsimp only
      split
      · exact h.refuse hfresh target request _
      · next hsmall =>
          split
          · exact h.refuse hfresh target request _
          · split
            · exact h.refuse hfresh target request _
            · next hroom => exact h.enqueue hfresh hencode (not_lt.mp hsmall) (not_le.mp hroom)

/-- A stream is opened under a new number for a request which leaves the channel. -/
theorem SoundAt.openStream (h : SoundAt S n handled node) {o : OutboundRaftRequest}
    {rest : List OutboundRaftRequest} (hnext : node.channel = o::rest) {c : Call M}
    (hposted : Posted S node.calls o c) {peer : P} (hpeer : peerOf (S.peers n) o.target = some peer) :
    SoundAt S n handled { node with
      channel := rest
      pending := Function.update node.pending node.nextRequest (some o.call)
      nextRequest := node.nextRequest+1
      streams := Function.update node.streams node.nextRequest
        (some ⟨o.call,peer,writeRequest S.cbor c.request,.travelling⟩) } := by
  have hshort := h.shorten (hnext ▸ List.sublist_cons_self o rest)
  have hqueued : o.call ∈ node.channel.map OutboundRaftRequest.call := by
    rw [hnext]
    exact List.mem_cons_self
  have hdistinct := h.distinct
  rw [hnext,List.map_cons,List.nodup_cons] at hdistinct
  have hold {id : ℕ} {s : Stream P} (hs : node.streams id = some s) : id ≠ node.nextRequest :=
    (h.issued id s hs).ne
  have hkept {id : ℕ} {s : Stream P} (hs : node.streams id = some s) (fresh : Stream P) :
      Function.update node.streams node.nextRequest (some fresh) id = some s :=
    (Function.update_of_ne (hold hs) _ _).trans hs
  -- a stream of the new table is the new one or one of the old table
  have hcases {id : ℕ} {s fresh : Stream P}
      (hs : Function.update node.streams node.nextRequest (some fresh) id = some s) :
      id = node.nextRequest ∧ s = fresh ∨ node.streams id = some s := by
    by_cases hid : id = node.nextRequest
    · rw [hid,Function.update_self] at hs
      exact Or.inl ⟨hid,(Option.some.inj hs).symm⟩
    · rw [Function.update_of_ne hid] at hs
      exact Or.inr hs
  refine { hshort with issued := ?_,opened := ?_,unqueued := ?_,single := ?_,pended := ?_
                       answers := ?_,handled := ?_,replied := ?_ }
  · intro id s hs
    rcases hcases hs with ⟨rfl,-⟩ | hs
    · exact Nat.lt_succ_self _
    · exact Nat.lt_succ_of_lt (h.issued id s hs)
  · intro id s hs
    rcases hcases hs with ⟨-,rfl⟩ | hs
    · exact ⟨c,hposted.known,hposted.target ▸ hpeer,rfl,hposted.admitted⟩
    · exact h.opened id s hs
  · intro id s hs
    rcases hcases hs with ⟨-,rfl⟩ | hs
    · exact hdistinct.1
    · exact hshort.unqueued id s hs
  · intro id id' s s' hs hs' hcall
    rcases hcases hs with ⟨rfl,rfl⟩ | hs
    · rcases hcases hs' with ⟨rfl,-⟩ | hs'
      · rfl
      · exact (h.unqueued id' s' hs' (hcall ▸ hqueued)).elim
    · rcases hcases hs' with ⟨rfl,rfl⟩ | hs'
      · exact (h.unqueued id s hs (hcall ▸ hqueued)).elim
      · exact h.single id id' s s' hs hs' hcall
  · intro id i hi
    dsimp only at hi ⊢
    by_cases hid : id = node.nextRequest
    · subst hid
      rw [Function.update_self] at hi
      exact ⟨_,Function.update_self _ _ _,Option.some.inj hi⟩
    · rw [Function.update_of_ne hid] at hi
      obtain ⟨s,hs,hcall⟩ := h.pended id i hi
      exact ⟨s,hkept hs _,hcall⟩
  · intro id s wire hs hprogress
    rcases hcases hs with ⟨-,rfl⟩ | hs
    · cases hprogress
    · exact h.answers id s wire hs hprogress
  · intro r hr id horigin
    obtain ⟨s,c',hs,hrest⟩ := h.handled r hr id horigin
    exact ⟨s,c',hkept hs _,hrest⟩
  · intro i c' bytes hcall hphase
    obtain ⟨id,s,frame,response,hs,hrest⟩ := h.replied i c' bytes hcall hphase
    exact ⟨id,s,frame,response,hkept hs _,hrest⟩

theorem SoundAt.onOutbound (hround : S.cbor.request.RoundTrips) (h : SoundAt S n handled node)
    {o : OutboundRaftRequest} {rest : List OutboundRaftRequest} (hnext : node.channel = o::rest) :
    SoundAt S n handled (Node.onOutbound S n { node with channel := rest } o) := by
  obtain ⟨c,hposted⟩ := h.posted o (hnext ▸ List.mem_cons_self)
  rw [Node.onOutbound]
  cases hpeer : peerOf (S.peers n) o.target with
  | none =>
      apply (h.shorten (hnext ▸ List.sublist_cons_self o rest)).receive o.call
      intro bytes heq
      cases heq
  | some peer =>
      dsimp only
      rw [decodeCbor_encodeCbor hround hposted.payload hposted.small]
      exact h.openStream hnext hposted hpeer

/-- What a stream to a node of the cluster has answered is a response of its handler. -/
theorem SoundAt.response_handled (hround : S.cbor.response.RoundTrips)
    (h : SoundAt S n handled node) {id : ℕ} {s : Stream P} {frame : Bytes}
    {response : RaftRpcResponse M} (hs : node.streams id = some s)
    (hprogress : s.progress = .answered (.ok frame))
    (hread : readResponse S.cbor frame = .ok response) :
    Outside S s.peer ∨ ∃ r ∈ handled, r.origin = .stream n id ∧ r.result = .ok response := by
  refine (h.answers id s _ hs hprogress).imp_right ?_
  rintro ⟨r,hr,horigin,written,hresult,hwire⟩
  have hback := readMessage_writeMessage hround hwire.symm []
  rw [List.append_nil] at hback
  cases hback.symm.trans hread
  exact ⟨r,hr,horigin,hresult⟩

theorem update_none_sub {pending : ℕ → Option ℕ} {id : ℕ} (id' i : ℕ)
    (h : Function.update pending id none id' = some i) : pending id' = some i := by
  by_cases hid : id' = id
  · rw [hid,Function.update_self] at h
    cases h
  · rwa [Function.update_of_ne hid] at h

theorem SoundAt.onResponse (h : SoundAt S n handled node) {id : ℕ} {s : Stream P} {frame : Bytes}
    {response : RaftRpcResponse M}
    (hs : node.streams id = some s) (hprogress : s.progress = .answered (.ok frame))
    (hread : readResponse S.cbor frame = .ok response) :
    SoundAt S n handled (node.onResponse S id response) := by
  rw [Node.onResponse]
  cases hpending : node.pending id with
  | none => exact h
  | some call =>
      obtain ⟨s',hs',hcall⟩ := h.pended id call hpending
      cases hs.symm.trans hs'
      dsimp only
      cases hencode : encodeCbor S.cbor.response response with
      | error e => exact h.halt _
      | ok bytes =>
          apply (h.unpend _ update_none_sub).receive call
          rintro bytes' heq
          cases heq
          exact ⟨id,s,frame,response,hs,hcall,hprogress,hread,hencode⟩

theorem SoundAt.onFailure (h : SoundAt S n handled node) (id : ℕ) (error : OutboundFailure) :
    SoundAt S n handled (node.onFailure id error) := by
  rw [Node.onFailure]
  cases node.pending id with
  | none => exact h
  | some call =>
      apply (h.unpend _ update_none_sub).receive call
      intro bytes heq
      cases heq

theorem SoundAt.step (hrequest : S.cbor.request.RoundTrips) (h : SoundAt S n handled node)
    {node' : Node M P} (hstep : Local S n node node') : SoundAt S n handled node' := by
  cases hstep with
  | call call target request fresh => exact h.post fresh target request
  | deadline call =>
      apply h.settle call (fun phase hphase => leave_settled hphase)
      · intro e heq
        cases heq
      · intro bytes heq
        cases heq
  | outbound o rest running next => exact h.onOutbound hrequest next
  | response id s frame response running stream answered read =>
      exact h.onResponse stream answered read
  | failure id error running => exact h.onFailure id error
  | shutdown running => exact h.halt .closed

/-- A stream leaves its travelling state, and what its peer's handler was asked is recorded. -/
theorem SoundAt.advance (h : SoundAt S n handled node) {id : ℕ} {s : Stream P}
    (hs : node.streams id = some s) (htravelling : s.progress = .travelling) {progress : Progress}
    (hprogress : progress ≠ .travelling) {more : List (Handled M N P H)}
    (hanswers : ∀ wire, progress = .answered wire → Outside S s.peer ∨
      ∃ r ∈ more, r.origin = .stream n id ∧
        ∃ response, r.result = .ok response ∧ wire = writeResponse S.cbor response)
    (hmore : ∀ r ∈ more, ∀ i, r.origin = .stream n i → i = id ∧ S.identity r.node = s.peer ∧
      ∃ c, node.calls s.call = some c ∧ r.request = c.request) :
    SoundAt S n (handled++more) (node.advance id s progress) := by
  have hcases {i : ℕ} {t : Stream P}
      (ht : Function.update node.streams id (some { s with progress := progress }) i = some t) :
      i = id ∧ t = { s with progress := progress } ∨ i ≠ id ∧ node.streams i = some t := by
    by_cases hi : i = id
    · rw [hi,Function.update_self] at ht
      exact Or.inl ⟨hi,(Option.some.inj ht).symm⟩
    · rw [Function.update_of_ne hi] at ht
      exact Or.inr ⟨hi,ht⟩
  -- each old stream is still there for its call, unchanged if it had arrived
  have hkept {i : ℕ} {t : Stream P} (ht : node.streams i = some t) :
      ∃ t', Function.update node.streams id (some { s with progress := progress }) i = some t' ∧
        t'.call = t.call ∧ (t.progress ≠ .travelling → t' = t) := by
    by_cases hi : i = id
    · subst hi
      cases hs.symm.trans ht
      exact ⟨_,Function.update_self _ _ _,rfl,fun hne => (hne htravelling).elim⟩
    · exact ⟨t,(Function.update_of_ne hi _ _).trans ht,rfl,fun _ => rfl⟩
  refine { h with issued := ?_,opened := ?_,unqueued := ?_,single := ?_,pended := ?_
                  answers := ?_,handled := ?_,replied := ?_ }
  · intro i t ht
    rcases hcases ht with ⟨rfl,-⟩ | ⟨-,ht⟩
    · exact h.issued i s hs
    · exact h.issued i t ht
  · intro i t ht
    rcases hcases ht with ⟨rfl,rfl⟩ | ⟨-,ht⟩
    · obtain ⟨c,hc⟩ := h.opened i s hs
      exact ⟨c,hc.known,hc.peer,hc.wire,hc.admitted⟩
    · exact h.opened i t ht
  · intro i t ht
    rcases hcases ht with ⟨rfl,rfl⟩ | ⟨-,ht⟩
    · exact h.unqueued i s hs
    · exact h.unqueued i t ht
  · intro i j t u ht hu hcall
    rcases hcases ht with ⟨rfl,rfl⟩ | ⟨-,hold⟩
    · rcases hcases hu with ⟨rfl,-⟩ | ⟨-,hold⟩
      · rfl
      · exact h.single i j s u hs hold hcall
    · rcases hcases hu with ⟨rfl,rfl⟩ | ⟨-,hold'⟩
      · exact h.single i j t s hold hs hcall
      · exact h.single i j t u hold hold' hcall
  · intro i call hi
    obtain ⟨t,ht,hcall⟩ := h.pended i call hi
    obtain ⟨t',ht',hsame,-⟩ := hkept ht
    exact ⟨t',ht',hsame.trans hcall⟩
  · intro i t wire ht hwire
    rcases hcases ht with ⟨rfl,rfl⟩ | ⟨-,ht⟩
    · exact (hanswers wire hwire).imp_right fun ⟨r,hr,hrest⟩ => ⟨r,List.mem_append_right _ hr,hrest⟩
    · exact (h.answers i t wire ht hwire).imp_right fun ⟨r,hr,hrest⟩ =>
        ⟨r,List.mem_append_left _ hr,hrest⟩
  · intro r hr i horigin
    rcases List.mem_append.mp hr with hr | hr
    · obtain ⟨t,c,ht,hmoved,hcall,hrequest,hpeer⟩ := h.handled r hr i horigin
      obtain ⟨t',ht',-,hsame⟩ := hkept ht
      cases hsame hmoved
      exact ⟨t,c,ht',hmoved,hcall,hrequest,hpeer⟩
    · obtain ⟨hid,hpeer,c,hcall,hrequest⟩ := hmore r hr i horigin
      refine ⟨{ s with progress := progress },c,?_,hprogress,hcall,hrequest,hpeer⟩
      rw [hid]
      exact Function.update_self _ _ _
  · intro i c bytes hcall hphase
    obtain ⟨j,t,frame,response,ht,hcalls,hanswered,hrest⟩ := h.replied i c bytes hcall hphase
    obtain ⟨t',ht',-,hsame⟩ := hkept ht
    have hmoved : t.progress ≠ .travelling := by
      rw [hanswered]
      simp
    cases hsame hmoved
    exact ⟨j,t,frame,response,ht',hcalls,hanswered,hrest⟩

/-- What other nodes' handlers were asked does not concern this one. -/
theorem SoundAt.others (h : SoundAt S n handled node) {more : List (Handled M N P H)}
    (hmore : ∀ r ∈ more, ∀ id, r.origin ≠ .stream n id) : SoundAt S n (handled++more) node := by
  refine { h with answers := ?_,handled := ?_ }
  · intro i s wire hs hwire
    exact (h.answers i s wire hs hwire).imp_right fun ⟨r,hr,hrest⟩ =>
      ⟨r,List.mem_append_left _ hr,hrest⟩
  · intro r hr id horigin
    rcases List.mem_append.mp hr with hr | hr
    · exact h.handled r hr id horigin
    · exact (hmore r hr id horigin).elim

end Invariant

/-- Every caller which waits has its request in the channel or its reply channel in the table of a
running swarm. -/
def Accounted {M : RaftMessages} {P : Type} (node : Node M P) : Prop :=
  ∀ i c, node.calls i = some c → c.phase = .waiting → node.status = .running ∧
    (i ∈ node.channel.map OutboundRaftRequest.call ∨ ∃ id, node.pending id = some i)

section Accounts
variable {M : RaftMessages} {N P H : Type} {S : Setup M N P H} {n : N} {node : Node M P}

theorem waiting_phases {change : ℕ → CallPhase → CallPhase}
    (hchange : ∀ i phase, phase ≠ .waiting → change i phase = phase) {i : ℕ} {c : Call M}
    (hcall : node.phases change i = some c) (hphase : c.phase = .waiting) :
    node.calls i = some c ∧ change i .waiting = .waiting := by
  obtain ⟨phase,hold,hnew⟩ := phases_eq_some hcall
  have hwaiting : phase = .waiting := by
    by_contra hne
    rw [hchange i phase hne] at hnew
    exact hne (hnew.symm.trans hphase)
  subst hwaiting
  refine ⟨?_,hnew.symm.trans hphase⟩
  rw [hold,← hphase]

theorem accounted_halt (status : Status) : Accounted (node.halt status) := by
  intro i c hcall hphase
  obtain ⟨-,hwaiting⟩ := waiting_phases (fun _ _ hne => drop_settled hne) hcall hphase
  cases hwaiting

theorem waiting_only {call : ℕ} {change : CallPhase → CallPhase}
    (hchange : ∀ phase, phase ≠ .waiting → change phase = phase) (hsettled : change .waiting ≠ .waiting)
    {i : ℕ} {c : Call M} (hcall : node.phases (only call change) i = some c)
    (hphase : c.phase = .waiting) : i ≠ call ∧ node.calls i = some c := by
  obtain ⟨hold,hwaiting⟩ := waiting_phases (only_settled hchange call) hcall hphase
  refine ⟨?_,hold⟩
  rintro rfl
  rw [only,if_pos rfl] at hwaiting
  exact hsettled hwaiting

theorem Accounted.post (h : Accounted node) {call : ℕ} (target : UInt64)
    (request : RaftRpcRequest M) : Accounted (node.post S call target request) := by
  have hrefuse (e : OmegaNetworkError) : Accounted { node with
      calls := Function.update node.calls call (some ⟨target,request,.refused e⟩) } := by
    intro i c hcall hphase
    dsimp only at hcall
    by_cases hi : i = call
    · rw [hi,Function.update_self] at hcall
      cases hcall
      cases hphase
    · rw [Function.update_of_ne hi] at hcall
      exact h i c hcall hphase
  rw [Node.post]
  dsimp only
  cases encodeCbor S.cbor.request request with
  | error e => exact hrefuse e
  | ok payload =>
      dsimp only
      split
      · exact hrefuse _
      · split
        · exact hrefuse _
        · next hrunning =>
            split
            · exact hrefuse _
            · intro i c hcall hphase
              dsimp only at hcall ⊢
              rw [List.map_append,List.mem_append]
              by_cases hi : i = call
              · rw [hi]
                exact ⟨not_not.mp hrunning,Or.inl (Or.inr (List.mem_singleton.mpr rfl))⟩
              · rw [Function.update_of_ne hi] at hcall
                obtain ⟨hstatus,hwhere⟩ := h i c hcall hphase
                exact ⟨hstatus,hwhere.imp_left Or.inl⟩

/-- The reply channel of a call leaves the table when the call is answered. -/
theorem Accounted.reply (h : Accounted node) {id call : ℕ} (hpending : node.pending id = some call)
    (answer : Except OmegaNetworkError Bytes) : Accounted { node with
      pending := Function.update node.pending id none
      calls := node.phases (only call (.receive answer)) } := by
  intro i c hcall hphase
  obtain ⟨hne,hold⟩ := waiting_only (fun _ hne => receive_settled hne) (by simp [CallPhase.receive])
    hcall hphase
  obtain ⟨hstatus,hwhere⟩ := h i c hold hphase
  refine ⟨hstatus,hwhere.imp_right ?_⟩
  rintro ⟨id',hid'⟩
  refine ⟨id',?_⟩
  dsimp only
  rw [Function.update_of_ne,hid']
  rintro rfl
  rw [hpending] at hid'
  exact hne (Option.some.inj hid').symm

theorem Accounted.onOutbound {handled : List (Handled M N P H)} (hsound : SoundAt S n handled node)
    (h : Accounted node) {o : OutboundRaftRequest} {rest : List OutboundRaftRequest}
    (hnext : node.channel = o::rest) :
    Accounted (Node.onOutbound S n { node with channel := rest } o) := by
  rw [Node.onOutbound]
  have hrest {i : ℕ} (hne : i ≠ o.call) (hmem : i ∈ node.channel.map OutboundRaftRequest.call) :
      i ∈ rest.map OutboundRaftRequest.call := by
    rw [hnext] at hmem
    exact (List.mem_cons.mp hmem).resolve_left hne
  cases peerOf (S.peers n) o.target with
  | none =>
      intro i c hcall hphase
      obtain ⟨hne,hold⟩ := waiting_only (fun _ hne => receive_settled hne)
        (by simp [CallPhase.receive]) hcall hphase
      obtain ⟨hstatus,hwhere⟩ := h i c hold hphase
      exact ⟨hstatus,hwhere.imp_left (hrest hne)⟩
  | some peer =>
      dsimp only
      cases decodeCbor S.cbor.request o.payload with
      | error e => exact accounted_halt _
      | ok request =>
          intro i c hcall hphase
          obtain ⟨hstatus,hwhere⟩ := h i c hcall hphase
          refine ⟨hstatus,?_⟩
          dsimp only
          by_cases hi : i = o.call
          · exact Or.inr ⟨node.nextRequest,hi ▸ Function.update_self _ _ _⟩
          · refine hwhere.imp (hrest hi) ?_
            rintro ⟨id,hid⟩
            obtain ⟨s,hs,-⟩ := hsound.pended id i hid
            exact ⟨id,(Function.update_of_ne (hsound.issued id s hs).ne _ _).trans hid⟩

theorem Accounted.step {handled : List (Handled M N P H)} (hsound : SoundAt S n handled node)
    (h : Accounted node) {node' : Node M P} (hstep : Local S n node node') : Accounted node' := by
  cases hstep with
  | call call target request fresh => exact h.post target request
  | deadline call =>
      intro i c hcall hphase
      obtain ⟨-,hold⟩ := waiting_only (fun _ hne => leave_settled hne) (by simp [CallPhase.leave])
        hcall hphase
      exact h i c hold hphase
  | outbound o rest running next => exact h.onOutbound hsound next
  | response id s frame response running stream answered read =>
      rw [Node.onResponse]
      cases hpending : node.pending id with
      | none => exact h
      | some call =>
          dsimp only
          cases encodeCbor S.cbor.response response with
          | error e => exact accounted_halt _
          | ok bytes => exact h.reply hpending _
  | failure id error running =>
      rw [Node.onFailure]
      cases hpending : node.pending id with
      | none => exact h
      | some call => exact h.reply hpending _
  | shutdown running => exact accounted_halt _

end Accounts

section Health
variable {M : RaftMessages} {N P H : Type} {S : Setup M N P H} {n : N} {node : Node M P}

/-- No message has ended the swarm. -/
def Healthy (node : Node M P) : Prop := ∀ e, node.status ≠ .failed e

theorem post_status (node : Node M P) (call : ℕ) (target : UInt64) (request : RaftRpcRequest M) :
    (node.post S call target request).status = node.status := by
  rw [Node.post]
  dsimp only
  cases encodeCbor S.cbor.request request with
  | error e => rfl
  | ok payload =>
      dsimp only
      split
      · rfl
      · split
        · rfl
        · split <;> rfl

/-- What the swarm decodes was posted by a caller, and what it encodes it has just read. -/
theorem Healthy.step (hrequest : S.cbor.request.RoundTrips) (hrewrites : S.cbor.response.Rewrites)
    {handled : List (Handled M N P H)} (hsound : SoundAt S n handled node) (h : Healthy node)
    {node' : Node M P} (hstep : Local S n node node') : Healthy node' := by
  cases hstep with
  | call call target request fresh => exact fun e => (post_status node call target request).symm ▸ h e
  | deadline call => exact h
  | outbound o rest running next =>
      obtain ⟨c,hposted⟩ := hsound.posted o (next ▸ List.mem_cons_self)
      rw [Node.onOutbound]
      cases peerOf (S.peers n) o.target with
      | none => exact h
      | some peer =>
          dsimp only
          rw [decodeCbor_encodeCbor hrequest hposted.payload hposted.small]
          exact h
  | response id s frame response running stream answered read =>
      obtain ⟨bytes,hencode⟩ := readMessage_rewrites hrewrites read
      rw [Node.onResponse]
      cases node.pending id with
      | none => exact h
      | some call =>
          dsimp only
          rw [hencode]
          exact h
  | failure id error running =>
      rw [Node.onFailure]
      cases node.pending id <;> exact h
  | shutdown running =>
      intro e heq
      cases heq

end Health

section Runs
variable {M : RaftMessages} {N P H : Type} {S : Setup M N P H} {rafts : N → H}

/-- What holds of a cluster after any steps. -/
structure Sound (S : Setup M N P H) (net : Net M N P H) : Prop where
  nodes : ∀ n, SoundAt S n net.handled (net.nodes n)
  once : net.handled.Pairwise fun r r' => ∀ n id, r.origin = .stream n id → r'.origin ≠ .stream n id
  outsiders : ∀ r ∈ net.handled, ∀ peer, r.origin = .outside peer → Outside S peer
  results : ∀ r ∈ net.handled, r.result = ((S.raft r.node).handle r.request r.state).1
  accounted : ∀ n, Accounted (net.nodes n)

theorem sound_start : Sound S (Net.start rafts : Net M N P H) where
  nodes _ := soundAt_start
  once := .nil
  outsiders _ hr := (List.not_mem_nil hr).elim
  results _ hr := (List.not_mem_nil hr).elim
  accounted _ _ _ h := by cases h

theorem forall_mem_concat {A : Type} {p : A → Prop} {xs : List A} (h : ∀ x ∈ xs, p x) {a : A}
    (ha : p a) : ∀ x ∈ xs++[a], p x :=
  List.forall_mem_append.mpr ⟨h,List.forall_mem_singleton.mpr ha⟩

variable [DecidableEq N]

theorem Sound.deliver (hrequest : S.cbor.request.RoundTrips) {net : Net M N P H} (h : Sound S net)
    {n m : N} {id : ℕ} {s : Stream P} {frame : Bytes} {request : RaftRpcRequest M}
    (hs : (net.nodes n).streams id = some s) (htravelling : s.progress = .travelling)
    (hpeer : S.identity m = s.peer) (hwire : s.wire = .ok frame)
    (hread : readRequest S.cbor frame = .ok request) : Sound S (net.deliver S n id s m request) := by
  have hn := h.nodes n
  obtain ⟨c,hc⟩ := hn.opened id s hs
  have hasked : request = c.request := by
    have hback := readMessage_writeMessage hrequest (hc.wire.symm.trans hwire) []
    rw [List.append_nil] at hback
    cases hread.symm.trans hback
    rfl
  refine ⟨Function.forall_update_iff _ _ |>.mpr ⟨?_,?_⟩,?_,
    forall_mem_concat h.outsiders ?_,forall_mem_concat h.results rfl,
    Function.forall_update_iff _ _ |>.mpr ⟨h.accounted n,fun n' _ => h.accounted n'⟩⟩
  · apply hn.advance hs htravelling
    · cases ((S.raft m).handle request (net.rafts m)).1 <;> simp [reply]
    · intro wire hanswered
      refine Or.inr ⟨_,List.mem_singleton.mpr rfl,rfl,?_⟩
      dsimp only
      cases hresult : ((S.raft m).handle request (net.rafts m)).1 with
      | error e =>
          rw [hresult] at hanswered
          cases hanswered
      | ok response =>
          rw [hresult] at hanswered
          cases hanswered
          exact ⟨response,rfl,rfl⟩
    · intro r hr i horigin
      rw [List.mem_singleton.mp hr] at horigin ⊢
      cases horigin
      exact ⟨rfl,hpeer,c,hc.known,hasked⟩
  · intro n' hn'
    apply (h.nodes n').others
    intro r hr i horigin
    rw [List.mem_singleton.mp hr] at horigin
    cases horigin
    exact hn' rfl
  · refine List.pairwise_append.mpr ⟨h.once,List.pairwise_singleton _ _,?_⟩
    intro r hr r' hr' n' i horigin horigin'
    rw [List.mem_singleton.mp hr'] at horigin'
    cases horigin'
    -- the stream of this request was still travelling, that of an earlier one was not
    obtain ⟨t,-,ht,hprogress,-⟩ := hn.handled r hr id horigin
    cases hs.symm.trans ht
    exact hprogress htravelling
  · intro _ horigin
    cases horigin

theorem Sound.serve {net : Net M N P H} (h : Sound S net) (m : N) {peer : P}
    (houtside : Outside S peer) (request : RaftRpcRequest M) :
    Sound S (net.serve S m peer request) := by
  refine ⟨?_,?_,forall_mem_concat h.outsiders ?_,forall_mem_concat h.results rfl,h.accounted⟩
  · intro n
    apply (h.nodes n).others
    intro r hr i horigin
    rw [List.mem_singleton.mp hr] at horigin
    cases horigin
  · refine List.pairwise_append.mpr ⟨h.once,List.pairwise_singleton _ _,?_⟩
    intro r hr r' hr' n i horigin horigin'
    rw [List.mem_singleton.mp hr'] at horigin'
    cases horigin'
  · intro _ horigin
    cases horigin
    exact houtside

/-- A stream comes further without a node of the cluster being asked. -/
theorem Sound.unasked {net : Net M N P H} (h : Sound S net) {n : N} {id : ℕ} {s : Stream P}
    (hs : (net.nodes n).streams id = some s) (htravelling : s.progress = .travelling)
    {progress : Progress} (hprogress : progress ≠ .travelling)
    (hanswered : ∀ wire, progress = .answered wire → Outside S s.peer) :
    Sound S { net with
      nodes := Function.update net.nodes n ((net.nodes n).advance id s progress) } := by
  have hadvanced : SoundAt S n (net.handled++[]) ((net.nodes n).advance id s progress) :=
    (h.nodes n).advance hs htravelling hprogress (fun wire hwire => Or.inl (hanswered wire hwire))
      (by simp)
  rw [List.append_nil] at hadvanced
  exact ⟨Function.forall_update_iff _ _ |>.mpr ⟨hadvanced,fun n' _ => h.nodes n'⟩,h.once,
    h.outsiders,h.results,Function.forall_update_iff _ _ |>.mpr ⟨h.accounted n,fun n' _ => h.accounted n'⟩⟩

theorem Sound.step (hrequest : S.cbor.request.RoundTrips) {net net' : Net M N P H} (h : Sound S net)
    (hstep : Step S net net') : Sound S net' := by
  cases hstep with
  | act n node step =>
      exact ⟨Function.forall_update_iff _ _ |>.mpr ⟨(h.nodes n).step hrequest step,
          fun n' _ => h.nodes n'⟩,h.once,h.outsiders,h.results,Function.forall_update_iff _ _ |>.mpr
        ⟨(h.accounted n).step (h.nodes n) step,fun n' _ => h.accounted n'⟩⟩
  | deliver n id s m frame request running stream travelling peer wire read =>
      exact h.deliver hrequest stream travelling peer wire read
  | lose n id s stream travelling => exact h.unasked stream travelling (by simp) (by simp)
  | outsideRequest m peer frame request running outside read => exact h.serve m outside request
  | outsideAnswer n id s wire stream travelling outside =>
      exact h.unasked stream travelling (by simp) fun _ _ => outside

theorem sound_reachable (hrequest : S.cbor.request.RoundTrips) {net : Net M N P H}
    (h : Reachable S rafts net) : Sound S net := by
  induction h with
  | refl => exact sound_start
  | tail _ hstep ih => exact ih.step hrequest hstep

theorem healthy_reachable (hrequest : S.cbor.request.RoundTrips)
    (hrewrites : S.cbor.response.Rewrites) {net : Net M N P H} (h : Reachable S rafts net) :
    ∀ n, Healthy (net.nodes n) := by
  induction h with
  | refl =>
      intro n e heq
      cases heq
  | tail hreach hstep ih =>
      cases hstep with
      | act n node step =>
          exact Function.forall_update_iff _ _ |>.mpr ⟨(ih n).step hrequest hrewrites
            ((sound_reachable hrequest hreach).nodes n) step,fun n' _ => ih n'⟩
      | deliver n => exact Function.forall_update_iff _ _ |>.mpr ⟨ih n,fun n' _ => ih n'⟩
      | lose n => exact Function.forall_update_iff _ _ |>.mpr ⟨ih n,fun n' _ => ih n'⟩
      | outsideRequest => exact ih
      | outsideAnswer n => exact Function.forall_update_iff _ _ |>.mpr ⟨ih n,fun n' _ => ih n'⟩

end Runs

end OmegaHarness.RaftSwarm
