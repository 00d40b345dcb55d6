import OmegaHarness.LostClaims

/-!
# Submitting a claim to a cluster

`submit_claim` makes a command of the claim, hands it to the consensus library and waits for
the answer, up to a deadline. The library answers a write with the response which the node's
state machine gave to the entry; how it finds a leader and commits the entry is left to it.
Everything else, the errors and the outcome with its reason, is built here.
-/
namespace OmegaHarness.ClaimSubmission
open DomainHashes ClaimTypes ClaimVerifier FaultyTransactions KeyedTables LedgerStore RaftTypes ClaimApplication
open ClaimStatements LedgerWriter RaftStorage CrashRecovery ReplayClasses ClaimUniqueness ClusterRuns
open Blake3Compression MintedValues SubmittedCommitments LostClaims
open LedgerHistory hiding Reachable

/-- The structured part of an error object. -/
inductive ErrorData where
  | leaderHint (leaderId : Option UInt64) (leaderRpcUrl : Option String)
  | verifyError (text : String)
  | detail (text : String)
  | existing (subTreeId leafIndex : ℕ)
  | retryable (flag : Bool)
  | deadlineMs (milliseconds : ℕ)
  | openraft (text : String)
  | ledger (text : String)
  deriving DecidableEq, Repr

structure ErrorObject where
  code : ℤ
  message : String
  data : ErrorData
  deriving DecidableEq, Repr

def codeNotLeader : ℤ := -32000
def codeVerify : ℤ := -32001
def codeInvalidClaim : ℤ := -32002
def codeReplay : ℤ := -32003
def codeWriterClosed : ℤ := -32004
def codeTimeout : ℤ := -32005
def internalErrorCode : ℤ := -32603

namespace ErrorObject

def notLeader (leaderId : Option UInt64) (leaderRpcUrl : Option String) : ErrorObject :=
  ⟨codeNotLeader,"not leader",.leaderHint leaderId leaderRpcUrl⟩

def verify (detail : String) : ErrorObject :=
  ⟨codeVerify,"proof verification failed",.verifyError detail⟩

def invalidClaim (detail : String) : ErrorObject := ⟨codeInvalidClaim,"invalid claim",.detail detail⟩

def replay (subTreeId leafIndex : ℕ) : ErrorObject :=
  ⟨codeReplay,"claim replays an existing nullifier",.existing subTreeId leafIndex⟩

def writerClosed : ErrorObject := ⟨codeWriterClosed,"writer actor unavailable",.retryable true⟩

def timeout (deadlineMs : ℕ) : ErrorObject :=
  ⟨codeTimeout,"apply deadline elapsed",.deadlineMs deadlineMs⟩

def internal (data : ErrorData) : ErrorObject := ⟨internalErrorCode,"Internal error",data⟩

end ErrorObject

inductive ClientWriteError where
  | forwardToLeader (leaderId : Option UInt64)
  | changeMembershipError (text : String)
  deriving DecidableEq, Repr

inductive RaftError where
  | apiError (error : ClientWriteError)
  | fatal (text : String)
  deriving DecidableEq, Repr

/-- What a write returned, unless the deadline came first. -/
inductive WriteResult where
  | elapsed
  | returned (result : Except RaftError (LogId × LedgerResponse))

def translateClientWriteError (err : ClientWriteError) (resolveLeaderUrl : UInt64 → Option String) :
    ErrorObject :=
  match err with
  | .forwardToLeader leaderId => .notLeader leaderId (leaderId.bind resolveLeaderUrl)
  | .changeMembershipError text => .internal (.openraft text)

def translateLedgerError (err : LedgerError) : ErrorObject :=
  match err with
  | .verify detail => .verify detail.display
  | .invalidClaim detail => .invalidClaim detail
  | .replay subTreeId leafIndex => .replay subTreeId.toNat leafIndex.toNat
  | .writerClosed => .writerClosed
  | .writerReplyCanceled => .writerClosed
  | other => .internal (.ledger other.display)

structure PeerConfig where
  nodeId : UInt64
  libp2pPeerId : String
  libp2pAddr : String
  rpcUrl : String
  deriving DecidableEq, Repr

/-- The part of the server's shared state which the calls read; the deadline in milliseconds. -/
structure OmegaRpcShared where
  nodeId : UInt64
  peers : List PeerConfig
  applyDeadline : ℕ

structure SubmitOutcome where
  accepted : Bool
  appliedIndex : Option UInt64
  rejectReason : Option String
  deriving DecidableEq, Repr

def rejectReason : LedgerReject → String
  | .verify => "verify"
  | .invalidClaim => "invalid"
  | .replay => "replay"
  | .writerClosed => "internal"
  | .internal => "internal"

/-- The outcome of a write which returned. -/
def outcomeOf (logId : LogId) (data : LedgerResponse) : Except ErrorObject SubmitOutcome :=
  if data.accepted then .ok ⟨true,some logId.index,none⟩
  else match data.reject with
    | some .writerClosed => .error .writerClosed
    | some reject => .ok ⟨false,some logId.index,some (rejectReason reject)⟩
    | none => .ok ⟨false,some logId.index,some "internal"⟩

def submitClaim (backend : ProofBackend) (shared : OmegaRpcShared)
    (clientWrite : LedgerCommand → WriteResult) (claim : ClaimTx) :
    Except ErrorObject SubmitOutcome :=
  match LedgerCommand.applyClaim backend claim with
  | .error e => .error (translateLedgerError e)
  | .ok command =>
      match clientWrite command with
      | .elapsed => .error (.timeout (min shared.applyDeadline (2^32-1)))
      | .returned (.ok (logId,data)) => outcomeOf logId data
      | .returned (.error (.apiError err)) =>
          .error (translateClientWriteError err fun id =>
            (shared.peers.find? fun p => p.nodeId = id).map PeerConfig.rpcUrl)
      | .returned (.error (.fatal text)) => .error (.internal (.openraft text))

section Submissions
variable {N : Type} [DecidableEq N] {blake3 : Bytes → Hash} {backend : ProofBackend} {cbor : Cbor}
  {σ : Cluster N} {shared : OmegaRpcShared} {clientWrite : LedgerCommand → WriteResult}

/-- What the consensus library promises of a write: it returns the id of an entry with this
command and the response which some node gave to that entry. -/
def AnswersWrites (σ : Cluster N) (clientWrite : LedgerCommand → WriteResult) : Prop :=
  ∀ command logId response, clientWrite command = .returned (.ok (logId,response)) →
    ∃ entry, entry.logId = logId ∧ entry.payload = .normal command ∧ (entry,response) ∈ σ.answered

/-- The rows of an accepted claim, with their values. -/
structure RowsPresent (blake3 : Bytes → Hash) (command : LedgerCommand) (db : Db) : Prop where
  nullifiers : ∀ row ∈ (claimInputs command.claim).map (nullifierRow command.blockIdx),
    db.nullifiers.lookup row.1 = some row.2
  utxos : ∀ row ∈ (sourcesFrom command.blockIdx 0 (claimRows command.claim)).map (utxoRow blake3),
    db.starstreamUtxos.lookup row.1 = some row.2

omit [DecidableEq N] in
/-- An outcome comes from the command of the claim and the answer to its entry. -/
theorem submitClaim_ok {claim : ClaimTx} {outcome : SubmitOutcome} (hwrites : AnswersWrites σ clientWrite)
    (h : submitClaim backend shared clientWrite claim = .ok outcome) :
    ∃ command entry response, LedgerCommand.applyClaim backend claim = .ok command ∧
      entry.payload = .normal command ∧ (entry,response) ∈ σ.answered ∧
      outcomeOf entry.logId response = .ok outcome := by
  rw [submitClaim] at h
  cases hcommand : LedgerCommand.applyClaim backend claim with
  | error e =>
      rw [hcommand] at h
      cases h
  | ok command =>
      rw [hcommand] at h
      dsimp only at h
      cases hwrite : clientWrite command with
      | elapsed =>
          rw [hwrite] at h
          cases h
      | returned result =>
          rw [hwrite] at h
          cases result with
          | error e => cases e <;> cases h
          | ok written =>
              rcases written with ⟨logId,response⟩
              rcases hwrites command logId response hwrite with ⟨entry,hid,hpayload,hanswer⟩
              change outcomeOf logId response = .ok outcome at h
              rw [← hid] at h
              exact ⟨command,entry,response,rfl,hpayload,hanswer,h⟩

theorem outcomeOf_ok {logId : LogId} {response : LedgerResponse} {outcome : SubmitOutcome}
    (h : outcomeOf logId response = .ok outcome) :
    outcome.accepted = response.accepted ∧ outcome.appliedIndex = some logId.index ∧
      outcome.rejectReason = (if response.accepted then none
        else some ((response.reject.map rejectReason).getD "internal")) := by
  unfold outcomeOf at h
  by_cases haccepted : response.accepted = true
  · rw [if_pos haccepted] at h
    cases h
    exact ⟨haccepted.symm,rfl,(if_pos haccepted).symm⟩
  · rw [if_neg haccepted] at h
    rw [if_neg haccepted]
    have hfalse : false = response.accepted := by simpa using haccepted
    cases hreject : response.reject with
    | none =>
        rw [hreject] at h
        cases h
        exact ⟨hfalse,rfl,rfl⟩
    | some reject =>
        rw [hreject] at h
        cases reject <;> cases h <;> exact ⟨hfalse,rfl,rfl⟩

/-- The class of a rejection is read off its reason. -/
theorem outcomeOf_reason {logId : LogId} {response : LedgerResponse} {outcome : SubmitOutcome}
    (h : outcomeOf logId response = .ok outcome) {c : LedgerReject}
    (hc : c = .verify ∨ c = .invalidClaim ∨ c = .replay)
    (hreason : outcome.rejectReason = some (rejectReason c)) : response.reject = some c := by
  rw [(outcomeOf_ok h).2.2] at hreason
  split at hreason
  · cases hreason
  · cases hreject : response.reject with
    | none =>
        rw [hreject] at hreason
        rcases hc with rfl | rfl | rfl <;> exact absurd hreason (by decide)
    | some reject =>
        rw [hreject] at hreason
        rcases hc with rfl | rfl | rfl <;> cases reject <;> first | rfl | exact absurd hreason (by decide)

theorem RowsPresent.mono {command : LedgerCommand} {a b : Db} (h : RowsPresent blake3 command a)
    (hcontained : Contained a b) : RowsPresent blake3 command b where
  nullifiers row hrow := hcontained.nullifiers _ _ (h.nullifiers row hrow)
  utxos row hrow := hcontained.utxos _ _ (h.utxos row hrow)

/-- Behind an entry which the log accepts the ledger has its rows. -/
theorem rowsPresent_of_accepted {before : List Entry} {entry : Entry} {command : LedgerCommand}
    (hpayload : entry.payload = .normal command)
    (hok : Acceptable blake3 backend command (ledgerOf blake3 backend before)) :
    RowsPresent blake3 command (ledgerOf blake3 backend (before++[entry])) := by
  have hrows := rowsAdded_of_acceptable blake3 hok
  rw [ledgerOf_accepts hpayload hok]
  constructor
  · intro row hrow
    rw [hrows.nullifiers]
    exact lookup_addAll_inside hrows.nullifiersFree hrow
  · intro row hrow
    rw [hrows.utxos]
    exact lookup_addAll_inside hrows.utxosFree hrow

/-- A node whose marker is at an entry or behind it has the entry in its tables. -/
theorem passed_of_marker {committed done before : List Entry} {entry : Entry} {node : Node}
    {id : LogId} (hascending : Ascending committed)
    (h : (logTracking blake3 backend cbor committed).Standing done node)
    (hentry : before++[entry] <+: committed)
    (hmarker : metaValue cbor.logId .lastAppliedLogId node.db = .ok (some id))
    (hindex : entry.logId.index ≤ id.index) : before++[entry] <+: done := by
  by_contra hnot
  rcases (logTracking blake3 backend cbor committed).marker _ _ _ h.fits hmarker with
    ⟨marked,hmem,hid⟩
  have hinside : done <+: committed := h.fits.1
  have hshort : done.length ≤ before.length := by
    by_contra hlong
    apply hnot
    apply List.prefix_of_prefix_length_le hentry hinside
    rw [List.length_append,List.length_singleton]
    omega
  have hbefore : done <+: before :=
    List.prefix_of_prefix_length_le hinside ((List.prefix_append before [entry]).trans hentry) hshort
  have hpairs := List.pairwise_append.mp (hascending.sublist hentry.sublist)
  have hless := hpairs.2.2 marked (hbefore.subset hmem) entry List.mem_cons_self
  rw [hid] at hless
  exact absurd hindex (UInt64.not_le.mpr hless)

/-- What the outcome of a submission means, in whatever state the cluster is now, if no batch has
lost a claim. Accepted: every node whose marker has reached the index has the claim's nullifiers and
outputs. Replayed: the log has claimed one of its leaves. Rejected for its proof or its shape: no
ledger accepts it. -/
theorem submission_outcomes (h : Lossless blake3 backend cbor σ)
    (hwrites : AnswersWrites σ clientWrite) {claim : ClaimTx} {outcome : SubmitOutcome}
    (hsubmit : submitClaim backend shared clientWrite claim = .ok outcome) :
    ∃ command index, LedgerCommand.applyClaim backend claim = .ok command ∧
      outcome.appliedIndex = some index ∧
      (outcome.accepted = true → ∀ n id,
        metaValue cbor.logId .lastAppliedLogId (σ.nodes n).db = .ok (some id) → index ≤ id.index →
          RowsPresent blake3 command (σ.nodes n).db) ∧
      (outcome.rejectReason = some "replay" → Claimed command (ledgerOf blake3 backend σ.committed)) ∧
      (outcome.rejectReason = some "verify" ∨ outcome.rejectReason = some "invalid" →
        ∀ db, ¬Acceptable blake3 backend command db) := by
  have hsound := sound_reachable h
  rcases submitClaim_ok hwrites hsubmit with ⟨command,entry,response,hcommand,hpayload,hmem,houtcome⟩
  rcases hsound.answered _ hmem with ⟨before,hentry,hanswer⟩
  have hanswer := hanswer command hpayload
  have hspec := outcomeOf_ok houtcome
  refine ⟨command,entry.logId.index,hcommand,hspec.2.1,?_,?_,?_⟩
  · intro haccepted n id hmarker hindex
    rcases hsound.tracked.nodes n with ⟨done,hstanding⟩
    have hpassed := passed_of_marker hsound.ascending hstanding hentry hmarker hindex
    have hrows := rowsPresent_of_accepted hpayload (hanswer.accepted (hspec.1 ▸ haccepted))
    have hclaims := hstanding.fits.2.claims
    exact (hrows.mono (ledgerOf_contained hpassed)).mono
      (Contained.of_sameClaims ⟨hclaims.nullifiers.symm,hclaims.utxos.symm⟩)
  · intro hreason
    exact hanswer.replay (outcomeOf_reason houtcome (Or.inr (Or.inr rfl)) hreason)
  · intro hreason
    apply hanswer.refused
    rcases hreason with hreason | hreason
    · exact Or.inl (outcomeOf_reason houtcome (Or.inl rfl) hreason)
    · exact Or.inr (outcomeOf_reason houtcome (Or.inr (Or.inl rfl)) hreason)

omit [DecidableEq N] in
/-- An accepted outcome comes from an entry which the log accepts at its place. -/
theorem accepted_entry (hsound : Sound blake3 backend cbor σ) (hwrites : AnswersWrites σ clientWrite)
    {claim : ClaimTx} {outcome : SubmitOutcome}
    (hsubmit : submitClaim backend shared clientWrite claim = .ok outcome)
    (haccepted : outcome.accepted = true) :
    ∃ before entry command, before++[entry] <+: σ.committed ∧ entry.payload = .normal command ∧
      command.claim = claim ∧ outcome.appliedIndex = some entry.logId.index ∧
      Acceptable blake3 backend command (ledgerOf blake3 backend before) := by
  rcases submitClaim_ok hwrites hsubmit with ⟨command,entry,response,hcommand,hpayload,hmem,houtcome⟩
  rcases hsound.answered _ hmem with ⟨before,hentry,hanswer⟩
  rcases applyClaim_ok.mp hcommand with ⟨envelope,-,hclaim⟩
  have hspec := outcomeOf_ok houtcome
  refine ⟨before,entry,command,hentry,hpayload,?_,hspec.2.1,?_⟩
  · rw [hclaim]
  · exact (hanswer command hpayload).accepted (hspec.1 ▸ haccepted)

/-- An entry which the log accepts behind another one claims none of its leaves. -/
theorem accepted_later {first second : List Entry} {a : Entry} {commandA commandB : LedgerCommand}
    (hpayload : a.payload = .normal commandA)
    (ha : Acceptable blake3 backend commandA (ledgerOf blake3 backend first))
    (hb : Acceptable blake3 backend commandB (ledgerOf blake3 backend second))
    (hbefore : first++[a] <+: second) :
    ∀ p ∈ claimInputs commandA.claim, ∀ q ∈ claimInputs commandB.claim,
      nullifierKey p ≠ nullifierKey q := by
  intro p hp q hq heq
  have hrows := (rowsPresent_of_accepted hpayload ha).mono (ledgerOf_contained hbefore)
  have hrow := hrows.nullifiers (nullifierRow commandA.blockIdx p) (List.mem_map_of_mem hp)
  apply (hb.unclaimed blake3 q hq).2
  rw [← heq]
  exact Finmap.mem_of_lookup_eq_some hrow

/-- Two accepted submissions at different indexes claim different leaves, whoever made them, on
whichever nodes, and whatever became of the calls in between, if no batch has lost a claim. -/
theorem accepted_submissions_disjoint (h : Lossless blake3 backend cbor σ)
    {sharedA sharedB : OmegaRpcShared} {writeA writeB : LedgerCommand → WriteResult}
    (hwritesA : AnswersWrites σ writeA) (hwritesB : AnswersWrites σ writeB) {claimA claimB : ClaimTx}
    {a b : SubmitOutcome} (ha : submitClaim backend sharedA writeA claimA = .ok a)
    (hb : submitClaim backend sharedB writeB claimB = .ok b) (haccepted : a.accepted = true)
    (haccepted' : b.accepted = true) (hindex : a.appliedIndex ≠ b.appliedIndex) :
    ∀ p ∈ claimInputs claimA, ∀ q ∈ claimInputs claimB, nullifierKey p ≠ nullifierKey q := by
  have hsound := sound_reachable h
  rcases accepted_entry hsound hwritesA ha haccepted with
    ⟨first,entryA,commandA,hentryA,hpayloadA,hclaimA,hindexA,hokA⟩
  rcases accepted_entry hsound hwritesB hb haccepted' with
    ⟨second,entryB,commandB,hentryB,hpayloadB,hclaimB,hindexB,hokB⟩
  rw [← hclaimA,← hclaimB]
  have hdiffer : first.length ≠ second.length := by
    intro hlength
    have heq : first++[entryA] = second++[entryB] := by
      apply (List.prefix_of_prefix_length_le hentryA hentryB _).eq_of_length <;> simp [hlength]
    have hentries := (List.append_inj heq hlength).2
    rw [hindexA,hindexB,(List.cons.inj hentries).1] at hindex
    exact hindex rfl
  rcases Nat.lt_or_gt_of_ne hdiffer with hless | hless
  · apply accepted_later hpayloadA hokA hokB
    apply List.prefix_of_prefix_length_le hentryA ((List.prefix_append second [entryB]).trans hentryB)
    simpa using hless
  · intro p hp q hq heq
    refine accepted_later hpayloadB hokB hokA ?_ q hq p hp heq.symm
    apply List.prefix_of_prefix_length_le hentryB ((List.prefix_append first [entryA]).trans hentryA)
    simpa using hless

/-- An answer of the state machine is never an error of the call. -/
theorem outcomeOf_answered (entry : Entry) {command : LedgerCommand} {response : LedgerResponse}
    {db : Db} (h : ResponseSound blake3 backend command response db) :
    ∃ outcome, outcomeOf entry.logId response = .ok outcome := by
  rcases h.form with hform | hform
  · rw [hform]
    exact ⟨_,rfl⟩
  · rcases hform with ⟨e,hform,hclass⟩
    rw [hform,outcomeOf,LedgerResponse.rejected]
    dsimp only
    cases hreject : rejectClass e with
    | writerClosed => exact (hclass hreject).elim
    | verify => exact ⟨_,rfl⟩
    | invalidClaim => exact ⟨_,rfl⟩
    | replay => exact ⟨_,rfl⟩
    | internal => exact ⟨_,rfl⟩

/-- The errors of a submission, whatever has failed in the cluster: the node is not the leader, the
envelope of the claim does not decode, the deadline elapsed, or the consensus library failed. A
claim which is replayed or of a wrong shape is an outcome and no error, a closed writer is never
reported, and an envelope which does not decode always fails. -/
theorem submission_error_codes {admits : List Entry → Ledger → Prop}
    (h : Reachable blake3 backend cbor admits σ) (hwrites : AnswersWrites σ clientWrite)
    (claim : ClaimTx) :
    (∀ error, submitClaim backend shared clientWrite claim = .error error →
      error.code ∈ [codeNotLeader,codeVerify,codeTimeout,internalErrorCode] ∧
        (error.code = codeVerify ↔ backend.decodeEnvelope (claimProof claim) = none)) ∧
    (backend.decodeEnvelope (claimProof claim) = none →
      ∃ error, submitClaim backend shared clientWrite claim = .error error ∧
        error.code = codeVerify) := by
  rw [submitClaim,LedgerCommand.applyClaim]
  cases hdecode : backend.decodeEnvelope (claimProof claim) with
  | none =>
      refine ⟨?_,fun _ => ⟨_,rfl,rfl⟩⟩
      intro error hsubmit
      cases hsubmit
      exact ⟨by decide,by decide⟩
  | some envelope =>
      refine ⟨?_,fun hnone => by cases hnone⟩
      intro error hsubmit
      dsimp only at hsubmit
      have hother {code : ℤ}
          (hcode : code = codeNotLeader ∨ code = codeTimeout ∨ code = internalErrorCode) :
          code ∈ [codeNotLeader,codeVerify,codeTimeout,internalErrorCode] ∧
            (code = codeVerify ↔ some envelope = none) := by
        rcases hcode with rfl | rfl | rfl <;> exact ⟨by decide,iff_of_false (by decide) nofun⟩
      split at hsubmit
      · cases hsubmit
        exact hother (Or.inr (Or.inl rfl))
      · next logId data hwrite =>
          rcases hwrites _ logId data hwrite with ⟨entry,hid,hpayload,hmem⟩
          rcases (lawful_reachable h).answered _ hmem _ hpayload with ⟨db,hanswer⟩
          rcases outcomeOf_answered entry hanswer with ⟨outcome,houtcome⟩
          rw [hid,hsubmit] at houtcome
          cases houtcome
      · next err hwrite =>
          cases hsubmit
          cases err with
          | forwardToLeader leaderId => exact hother (Or.inl rfl)
          | changeMembershipError text => exact hother (Or.inr (Or.inr rfl))
      · cases hsubmit
        exact hother (Or.inr (Or.inr rfl))

end Submissions

inductive ServerState where
  | leader
  | follower
  | candidate
  | learner
  | shutdown
  deriving DecidableEq, Repr

inductive NodeRole where
  | leader
  | follower
  | candidate
  | learner
  deriving DecidableEq, Repr

/-- The part of the consensus library's metrics which a node reports. -/
structure RaftMetrics where
  state : ServerState
  currentLeader : Option UInt64
  lastApplied : Option LogId
  deriving DecidableEq, Repr

structure LogIdView where
  term : UInt64
  index : UInt64
  deriving DecidableEq, Repr

structure NodeState where
  nodeId : UInt64
  role : NodeRole
  leaderId : Option UInt64
  lastLogId : Option LogIdView
  appliedIndex : UInt64
  nullifierCount : ℕ
  starstreamUtxoCount : ℕ
  deriving DecidableEq, Repr

/-- Take a connection from the pool, count, and join the reader's task. -/
def countRows (count : Db → ℕ) : LedgerOp ℕ := do
  mark LedgerError.pool
  let rows ← sql fun db => .ok (count db,db)
  mark LedgerError.readerJoin
  pure rows

def nullifierCount : LedgerOp ℕ := countRows fun db => db.nullifiers.keys.card

def starstreamUtxoCount : LedgerOp ℕ := countRows fun db => db.starstreamUtxos.keys.card

def nodeRole : ServerState → NodeRole
  | .leader => .leader
  | .follower => .follower
  | .candidate => .candidate
  | .learner => .learner
  | .shutdown => .follower

/-- The two tables are counted one after the other, each as it is then. -/
def getState (shared : OmegaRpcShared) (metrics : RaftMetrics) (first second : Ledger) :
    Except ErrorObject NodeState :=
  match (nullifierCount.run first).1 with
  | .error e => .error (translateLedgerError e)
  | .ok nullifiers =>
      match (starstreamUtxoCount.run second).1 with
      | .error e => .error (translateLedgerError e)
      | .ok utxos => .ok {
          nodeId := shared.nodeId
          role := nodeRole metrics.state
          leaderId := metrics.currentLeader
          lastLogId := metrics.lastApplied.map fun logId => ⟨logId.leaderId.term,logId.index⟩
          appliedIndex := (metrics.lastApplied.map LogId.index).getD 0
          nullifierCount := nullifiers
          starstreamUtxoCount := utxos }

section Counters
variable {N : Type} [DecidableEq N] {blake3 : Bytes → Hash} {backend : ProofBackend} {cbor : Cbor}
  {σ τ : Cluster N}

theorem countRows_ok {count : Db → ℕ} {s t : Ledger} {rows : ℕ}
    (h : (countRows count).run s = (.ok rows,t)) : rows = count s.db := by
  rcases bind_ok.mp h with ⟨_,u,hpool,hrest⟩
  rcases bind_ok.mp hrest with ⟨counted,v,hcount,hrest⟩
  rcases bind_ok.mp hrest with ⟨_,_,-,hpure⟩
  cases hpure
  rcases (statement_ok.mp hpool).2 with ⟨_,hsame,hu⟩
  cases hsame
  rw [hu] at hcount
  rcases (statement_ok.mp hcount).2 with ⟨_,hread,-⟩
  cases hread
  rfl

theorem getState_counts {shared : OmegaRpcShared} {metrics : RaftMetrics} {first second : Ledger}
    {state : NodeState} (h : getState shared metrics first second = .ok state) :
    state.nullifierCount = first.db.nullifiers.keys.card ∧
      state.starstreamUtxoCount = second.db.starstreamUtxos.keys.card := by
  rw [getState] at h
  cases hnullifiers : nullifierCount.run first with
  | mk counted t =>
    rw [hnullifiers] at h
    cases counted with
    | error e => cases h
    | ok nullifiers =>
        cases hutxos : starstreamUtxoCount.run second with
        | mk counted t' =>
          rw [hutxos] at h
          cases counted with
          | error e => cases h
          | ok utxos =>
              cases h
              exact ⟨countRows_ok hnullifiers,countRows_ok hutxos⟩

theorem getState_calm (shared : OmegaRpcShared) (metrics : RaftMetrics) (first second : Db)
    (outside outside' : Outside) :
    ∃ state, getState shared metrics (calmAt first outside) (calmAt second outside') = .ok state :=
  ⟨_,rfl⟩

theorem recorded_count {commands : List LedgerCommand} {db : Db}
    (h : Recorded blake3 backend commands db) :
    db.nullifiers.keys.card = (commands.flatMap claimedPairs).length := by
  have hnodup := recorded_pairs_nodup h
  rw [recorded_keys h,List.toFinset_card_of_nodup (hnodup.map pairKey_inj),List.length_map]

/-- The counters of a state are read one after the other, and the writer goes on in between, under
any faults. Each leaf which is claimed between the reads shows as one output more; so a state never
shows more nullifiers than outputs, and as many if no claim was accepted in between. -/
theorem counters_of_state {admits : List Entry → Ledger → Prop}
    (h : Reachable blake3 backend cbor admits σ) (n : N) {cmds : List WriteCmd}
    (hcmds : ∀ cmd ∈ cmds, Ordinary cmd) {shared : OmegaRpcShared} {metrics : RaftMetrics}
    {faults between faults' : ℕ → Option String} {outside : Outside} {state : NodeState}
    (hstate : getState shared metrics ((σ.nodes n).session faults)
      ⟨(runAll blake3 backend cbor cmds ((σ.nodes n).session between)).db,outside,faults'⟩ =
        .ok state) :
    state.starstreamUtxoCount = state.nullifierCount+((acceptedAlong blake3 backend cbor cmds
      ((σ.nodes n).session between)).flatMap claimedPairs).length := by
  rcases (lawful_reachable h).tracked.nodes n with ⟨_,hstanding⟩
  rcases hstanding.fits with ⟨commands,hrecorded⟩
  have hlater := recorded_runAll blake3 backend cbor hcmds
    (s := (σ.nodes n).session between) hrecorded
  have hleft := (getState_counts hstate).1.trans (recorded_count hrecorded)
  have hright := (getState_counts hstate).2.trans
    ((recorded_card hlater).trans (recorded_count hlater))
  rw [hleft,hright,List.flatMap_append,List.length_append]

end Counters

/-- A write which answers one command only. -/
def writeOf (command : LedgerCommand) (logId : LogId) : LedgerCommand → WriteResult := fun other =>
  if other = command then .returned (.ok (logId,.ofAccepted)) else .elapsed

theorem writeOf_answers {N : Type} {σ : Cluster N} {command : LedgerCommand} {logId : LogId}
    (h : ((⟨logId,.normal command⟩ : Entry),LedgerResponse.ofAccepted) ∈ σ.answered) :
    AnswersWrites σ (writeOf command logId) := by
  intro other found response hwrite
  rw [writeOf] at hwrite
  split at hwrite
  · next heq =>
      cases hwrite
      rw [heq]
      exact ⟨_,rfl,rfl,h⟩
  · cases hwrite

theorem submitClaim_writeOf {backend : ProofBackend} {shared : OmegaRpcShared} {claim : ClaimTx}
    {command : LedgerCommand} {logId : LogId}
    (h : LedgerCommand.applyClaim backend claim = .ok command) :
    submitClaim backend shared (writeOf command logId) claim = .ok ⟨true,some logId.index,none⟩ := by
  have hwrite : writeOf command logId command = .returned (.ok (logId,.ofAccepted)) := if_pos rfl
  rw [submitClaim,h]
  dsimp only
  rw [hwrite]
  rfl

theorem submitClaim_elapsed {backend : ProofBackend} {shared : OmegaRpcShared} {claim : ClaimTx}
    {command : LedgerCommand} (h : LedgerCommand.applyClaim backend claim = .ok command) :
    submitClaim backend shared (fun _ => .elapsed) claim =
      .error (.timeout (min shared.applyDeadline (2^32-1))) := by
  rw [submitClaim,h]

def mixedShared : OmegaRpcShared := ⟨1,[],5000⟩

/-- The first claim was accepted, and the node which is past it has its rows. -/
theorem first_submission_durable :
    ∃ σ : Cluster Bool, Lossless singleChunkHash mixedBackend mixedCbor σ ∧
      RowsPresent singleChunkHash (firstCommand [1]) (σ.nodes true).db := by
  rcases mixed_cluster with ⟨σ,hreachable,-,hanswered,hmarker,-⟩
  have hwrites : AnswersWrites σ (writeOf (firstCommand [1]) (mixedLogId 1)) := by
    apply writeOf_answers
    rw [hanswered]
    exact List.mem_cons_self
  have hsubmit := @submitClaim_writeOf mixedBackend mixedShared _ _ (mixedLogId 1) mixed_submitted.1
  rcases submission_outcomes hreachable hwrites hsubmit with ⟨command,index,hcommand,hindex,hrows,-⟩
  rw [mixed_submitted.1] at hcommand
  cases hcommand
  cases hindex
  exact ⟨σ,hreachable,hrows rfl true (mixedLogId 2) hmarker (by decide)⟩

/-- Both claims were accepted, and they claim different leaves. -/
theorem mixed_submissions_disjoint :
    ∃ σ : Cluster Bool, Lossless singleChunkHash mixedBackend mixedCbor σ ∧
      ∀ p ∈ claimInputs (firstCommand [1]).claim, ∀ q ∈ claimInputs secondCommand.claim,
        nullifierKey p ≠ nullifierKey q := by
  rcases mixed_cluster with ⟨σ,hreachable,-,hanswered,-⟩
  have hfirst : AnswersWrites σ (writeOf (firstCommand [1]) (mixedLogId 1)) := by
    apply writeOf_answers
    rw [hanswered]
    exact List.mem_cons_self
  have hsecond : AnswersWrites σ (writeOf secondCommand (mixedLogId 2)) := by
    apply writeOf_answers
    rw [hanswered]
    exact List.mem_cons_of_mem _ List.mem_cons_self
  refine ⟨σ,hreachable,?_⟩
  exact accepted_submissions_disjoint hreachable hfirst hsecond
    (@submitClaim_writeOf mixedBackend mixedShared _ _ (mixedLogId 1) mixed_submitted.1)
    (@submitClaim_writeOf mixedBackend mixedShared _ _ (mixedLogId 2) mixed_submitted.2) rfl rfl
    (by decide)

/-- A write which does not return in time: the envelope was fine and the call timed out. -/
theorem elapsed_submission_code :
    (ErrorObject.timeout 5000).code ∈ [codeNotLeader,codeVerify,codeTimeout,internalErrorCode] ∧
      ((ErrorObject.timeout 5000).code = codeVerify ↔
        mixedBackend.decodeEnvelope (claimProof (firstCommand [1]).claim) = none) := by
  have hwrites : AnswersWrites mixedStarted fun _ => .elapsed := by
    intro command logId response hwrite
    cases hwrite
  have hsubmit := @submitClaim_elapsed mixedBackend mixedShared _ _ mixed_submitted.1
  have hdeadline : min mixedShared.applyDeadline (2^32-1) = 5000 := by decide
  rw [hdeadline] at hsubmit
  exact (submission_error_codes mixedStarted_reachable hwrites _).1 _ hsubmit

/-- Both claims are accepted between the two reads: no nullifier is shown and two outputs are. -/
theorem counters_around_batch :
    ∃ state : NodeState,
      getState mixedShared ⟨.leader,some 1,none⟩ ((mixedStarted.nodes true).session fun _ => none)
        (calmAt (runAll singleChunkHash mixedBackend mixedCbor [.applyRaftEntries mixedEntries none]
          ((mixedStarted.nodes true).session fun _ => none)).db ⟨∅,false⟩) = .ok state ∧
      state.nullifierCount = 0 ∧ state.starstreamUtxoCount = 2 := by
  have hsession : (mixedStarted.nodes true).session (fun _ => none) = calmAt emptyDb ⟨∅,false⟩ := by
    rw [mixedStarted,Cluster.put_self]
    rfl
  have haccepted := @acceptedAlong_batch singleChunkHash mixedBackend mixedCbor ⟨∅,false⟩ _ _
    (mixedLogId 1) (mixedLogId 2) (mixedLogBytes 1) (mixedLogBytes 2) rfl rfl mixed_compatible
  rw [← hsession] at haccepted
  generalize hlater : (runAll singleChunkHash mixedBackend mixedCbor
    [.applyRaftEntries mixedEntries none] ((mixedStarted.nodes true).session fun _ => none)).db = later
  rcases getState_calm mixedShared ⟨.leader,some 1,none⟩ emptyDb later ⟨∅,false⟩ ⟨∅,false⟩ with
    ⟨state,hstate⟩
  have hzero : state.nullifierCount = 0 := (getState_counts hstate).1
  rw [← hsession] at hstate
  refine ⟨state,hstate,hzero,?_⟩
  rw [← hlater] at hstate
  have hordinary : ∀ cmd ∈ [WriteCmd.applyRaftEntries mixedEntries none], Ordinary cmd :=
    List.forall_mem_singleton.mpr trivial
  have hcount := counters_of_state mixedStarted_reachable true hordinary hstate
  have hfirst : claimedPairs (firstCommand [1]) = [(1,0)] := rfl
  have hsecond : claimedPairs secondCommand = [(1,1)] := rfl
  rw [hcount,hzero,mixedEntries,haccepted,List.flatMap_cons,List.flatMap_singleton,hfirst,hsecond]
  rfl

end OmegaHarness.ClaimSubmission
