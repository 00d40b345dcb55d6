import OmegaHarness.ActorOrder
import OmegaHarness.ClaimUniqueness
import OmegaHarness.FaultStreams
import OmegaHarness.WriterFrames

/-!
# The writer's thread and its callers

The ledger's writes go through one thread and a channel of 256 commands. The methods of its
handle are the calls of a bounded actor whose turns are those of the writer's loop. Files may
change beside the thread. A thread which dies inside a turn leaves what the statements before
its death have committed.
-/
namespace OmegaHarness.WriterActor
open DomainHashes ClaimTypes ClaimVerifier FaultyTransactions FaultStreams KeyedTables LedgerStore
open RaftTypes ClaimApplication LedgerWriter Blake3Compression MintedValues WriterFrames LedgerHistory ClaimUniqueness
open BoundedActors

def writerChannelCapacity : ℕ := 256

section Instance
variable (blake3 : Bytes → Hash) (backend : ProofBackend) (cbor : Cbor)

/-- The sessions in which a thread can leave a turn when it dies. -/
def Torn (command : WriteCmd) (s left : Ledger) : Prop :=
  ∃ faults, Crashing faults ∧ left = (runWriter blake3 backend cbor command ⟨s.db,s.world,faults⟩).2

def writer : Behaviour WriteCmd Outside Reply Ledger where
  capacity := writerChannelCapacity
  handle := runWriter blake3 backend cbor
  disturb outside s := ⟨s.db,outside,s.faults⟩
  torn := Torn blake3 backend cbor

/-- A method of the handle: the command it sends, what the thread runs for it, and the kind of
reply its one-shot channel carries. -/
structure Method (A : Type) where
  command : WriteCmd
  op : LedgerOp A
  wrap : Except LedgerError A → Reply
  take : Reply → Option (Except LedgerError A)
  take_wrap : ∀ result, take (wrap result) = some result
  runs : runWriter blake3 backend cbor command = replyWith wrap op

end Instance

abbrev Writer := Actor WriteCmd Outside Reply Ledger

def takeDone : Reply → Option (Except LedgerError Unit)
  | .done result => some result
  | _ => none

def takePath : Reply → Option (Except LedgerError String)
  | .path result => some result
  | _ => none

def takeResponses : Reply → Option (Except LedgerError (List LedgerResponse))
  | .responses result => some result
  | _ => none

namespace WriterHandle
variable (blake3 : Bytes → Hash) (backend : ProofBackend) (cbor : Cbor)

def applyClaim (command : LedgerCommand) : Method blake3 backend cbor Unit :=
  ⟨.applyClaim command,applyClaimTx blake3 backend command,.done,takeDone,fun _ => rfl,rfl⟩

def checkpointWalTruncate : Method blake3 backend cbor Unit :=
  ⟨.checkpointWalTruncate,LedgerWriter.checkpointWalTruncate,.done,takeDone,fun _ => rfl,rfl⟩

def snapshot (snapshotId : String) : Method blake3 backend cbor String :=
  ⟨.snapshot snapshotId,LedgerWriter.snapshot snapshotId,.path,takePath,fun _ => rfl,rfl⟩

def restoreSnapshot (path : String) : Method blake3 backend cbor Unit :=
  ⟨.restoreSnapshot path,LedgerWriter.restoreSnapshot path,.done,takeDone,fun _ => rfl,rfl⟩

def insertSyntheticClaimForTest (subTreeId : UInt8) (leafIndex blockIdx : UInt64) :
    Method blake3 backend cbor Unit :=
  ⟨.insertSyntheticClaim subTreeId leafIndex blockIdx,
    insertSyntheticClaim blake3 subTreeId leafIndex blockIdx,.done,takeDone,fun _ => rfl,rfl⟩

def saveRaftMeta (key : MetaKey) (value : Option Bytes) : Method blake3 backend cbor Unit :=
  ⟨.saveRaftMeta key value,LedgerWriter.saveRaftMeta key value,.done,takeDone,fun _ => rfl,rfl⟩

def appendRaftLogs (rows : List RaftLogRow) : Method blake3 backend cbor Unit :=
  ⟨.appendRaftLogs rows,LedgerWriter.appendRaftLogs rows,.done,takeDone,fun _ => rfl,rfl⟩

def deleteRaftLogsSince (logIdx : UInt64) : Method blake3 backend cbor Unit :=
  ⟨.deleteRaftLogsSince logIdx,LedgerWriter.deleteRaftLogsSince logIdx,.done,takeDone,
    fun _ => rfl,rfl⟩

def purgeRaftLogsUpto (logIdx : UInt64) (lastPurged : Bytes) : Method blake3 backend cbor Unit :=
  ⟨.purgeRaftLogsUpto logIdx lastPurged,LedgerWriter.purgeRaftLogsUpto logIdx lastPurged,.done,
    takeDone,fun _ => rfl,rfl⟩

def applyRaftEntries (entries : List Entry) (lastMembership : Option Bytes) :
    Method blake3 backend cbor (List LedgerResponse) :=
  ⟨.applyRaftEntries entries lastMembership,
    LedgerWriter.applyRaftEntries blake3 backend cbor entries lastMembership,.responses,
    takeResponses,fun _ => rfl,rfl⟩

end WriterHandle

section Calls
variable {blake3 : Bytes → Hash} {backend : ProofBackend} {cbor : Cbor} {A : Type}

/-- What a method returns to its caller, once it does. -/
def Method.returned (m : Method blake3 backend cbor A) : Phase Reply → Option (Except LedgerError A)
  | .answered reply => m.take reply
  | .closed => some (.error .writerClosed)
  | .canceled => some (.error .writerReplyCanceled)
  | _ => none

theorem handle_applyClaim {command : LedgerCommand} {s t : Ledger} {r : Except LedgerError Unit}
    (hrun : (applyClaimTx blake3 backend command).run s = (r,t)) :
    (writer blake3 backend cbor).handle (.applyClaim command) s = (.done r,t) := by
  change runWriter blake3 backend cbor (.applyClaim command) s = (.done r,t)
  rw [runWriter,replyWith,hrun]

theorem writer_room : 0 < (writer blake3 backend cbor).capacity := Nat.succ_pos 255

/-- One claim, sent to a fresh ledger and answered. -/
theorem first_claim_answered : ∃ a : Writer,
    Runs (writer singleChunkHash firstBackend unusedCbor) (start (calmAt emptyDb ⟨∅,false⟩)) a ∧
      a.alive = true ∧ a.channel = [] ∧
      a.state = calmAt (applied singleChunkHash (firstCommand [1]) emptyDb) ⟨∅,false⟩ ∧
      a.calls 0 = some (.applyClaim (firstCommand [1]),.answered (.done (.ok ()))) ∧
      ∀ i ≠ 0, a.calls i = none := by
  obtain ⟨a,hruns,halive,hempty,hstate,-,hcall,hothers⟩ := served_next
    (a := start (calmAt emptyDb ⟨∅,false⟩)) (@writer_room singleChunkHash firstBackend unusedCbor)
    rfl rfl 0 rfl (.applyClaim (firstCommand [1]))
  rw [start,handle_applyClaim (@firstCommand_run [1] (by decide) ⟨∅,false⟩)] at hstate hcall
  exact ⟨a,hruns,halive,hempty,hstate,hcall,hothers⟩

/-- Two claims and the first of them again, from three callers who wait at once. -/
theorem three_claims_queued : ∃ queued : Writer,
    Runs (writer singleChunkHash pairBackend unusedCbor) (start (calmAt emptyDb ⟨∅,false⟩)) queued ∧
      queued.alive = true ∧
      queued.channel = [(0,.applyClaim (firstCommand [1])),(1,.applyClaim laterCommand),
        (2,.applyClaim (firstCommand [1]))] ∧
      queued.state = calmAt emptyDb ⟨∅,false⟩ ∧ queued.history = [] ∧
      queued.calls 0 = some (.applyClaim (firstCommand [1]),.waiting) ∧
      queued.calls 1 = some (.applyClaim laterCommand,.waiting) ∧
      queued.calls 2 = some (.applyClaim (firstCommand [1]),.waiting) ∧
      ∀ i, 2 < i → queued.calls i = none := by
  have hroom (n : ℕ) (hn : n < 3) : n < (writer singleChunkHash pairBackend unusedCbor).capacity :=
    hn.trans (by decide)
  obtain ⟨x,hx,hlive,hchannel,hstate,hhistory,hfirst,hothers⟩ :=
    sent_next (a := start (calmAt emptyDb ⟨∅,false⟩)) rfl (hroom 0 (by decide)) 0 rfl
      (.applyClaim (firstCommand [1]))
  obtain ⟨y,hy,hlive',hchannel',hstate',hhistory',hsecond,hothers'⟩ :=
    sent_next hlive (by rw [hchannel]; exact hroom 1 (by decide)) 1
      (hothers 1 (by decide)) (.applyClaim laterCommand)
  rw [hchannel] at hchannel'
  obtain ⟨z,hz,hlive'',hchannel'',hstate'',hhistory'',hthird,hothers''⟩ :=
    sent_next hlive' (by rw [hchannel']; exact hroom 2 (by decide)) 2
      ((hothers' 2 (by decide)).trans (hothers 2 (by decide))) (.applyClaim (firstCommand [1]))
  rw [hchannel'] at hchannel''
  refine ⟨z,hx.trans (hy.trans hz),hlive'',hchannel'',hstate''.trans (hstate'.trans hstate),
    hhistory''.trans (hhistory'.trans hhistory),?_,?_,hthird,?_⟩
  · rw [hothers'' 0 (by decide),hothers' 0 (by decide),hfirst]
  · rw [hothers'' 1 (by decide),hsecond]
  · intro i hi
    rw [hothers'' i (by omega),hothers' i (by omega),hothers i (by omega)]
    rfl

/-- The thread answers the three in the order in which they came. -/
theorem three_claims_answered : ∃ queued done : Writer,
    Runs (writer singleChunkHash pairBackend unusedCbor) (start (calmAt emptyDb ⟨∅,false⟩)) queued ∧
      Runs (writer singleChunkHash pairBackend unusedCbor) queued done ∧
      queued.channel = [(0,.applyClaim (firstCommand [1])),(1,.applyClaim laterCommand),
        (2,.applyClaim (firstCommand [1]))] ∧
      queued.history = [] ∧ done.alive = true ∧
      done.history = [.serve 0 (.applyClaim (firstCommand [1])),.serve 1 (.applyClaim laterCommand),
        .serve 2 (.applyClaim (firstCommand [1]))] ∧
      done.calls 0 = some (.applyClaim (firstCommand [1]),.answered (.done (.ok ()))) ∧
      done.calls 1 = some (.applyClaim laterCommand,.answered (.done (.ok ()))) ∧
      (∃ e, done.calls 2 = some (.applyClaim (firstCommand [1]),.answered (.done (.error e)))) ∧
      ∀ i, 2 < i → done.calls i = none := by
  obtain ⟨queued,hqueued,halive,hchannel,hstate,hhistory,hfirst,hsecond,hthird,hnone⟩ :=
    three_claims_queued
  obtain ⟨x,hx,hlive,hrest,hturn,hpast,hzero,hothers⟩ :=
    answered_next (b := writer singleChunkHash pairBackend unusedCbor) halive hchannel hfirst
  rw [hstate,handle_applyClaim (pair_first_run _)] at hturn hzero
  obtain ⟨y,hy,hlive',hrest',hturn',hpast',hone,hothers'⟩ :=
    answered_next (b := writer singleChunkHash pairBackend unusedCbor) hlive hrest
      ((hothers 1 (by decide)).trans hsecond)
  rw [hturn,handle_applyClaim (pair_later_run _)] at hturn' hone
  obtain ⟨z,hz,hlive'',-,-,hpast'',htwo,hothers''⟩ :=
    answered_next (b := writer singleChunkHash pairBackend unusedCbor) hlive' hrest'
      ((hothers' 2 (by decide)).trans ((hothers 2 (by decide)).trans hthird))
  obtain ⟨e,hreplay⟩ := pair_replay_fails ⟨∅,false⟩
  rw [hturn',handle_applyClaim (Prod.ext hreplay rfl)] at htwo
  rw [hpast',hpast,hhistory] at hpast''
  refine ⟨queued,z,hqueued,hx.trans (hy.trans hz),hchannel,hhistory,hlive'',hpast'',?_,?_,
    ⟨e,htwo⟩,?_⟩
  · rw [hothers'' 0 (by decide),hothers' 0 (by decide),hzero]
  · rw [hothers'' 1 (by decide),hone]
  · intro i hi
    rw [hothers'' i (by omega),hothers' i (by omega),hothers i (by omega),hnone i hi]

variable {s₀ : Ledger} {a a' : Writer}

/-- The calls of the handle are linearizable. A result other than the two errors of the handle is
that of the method's own run at one place of the history, which no other turn of this call shares
and which everything answered before the call began precedes; and the two errors are returned only
by a thread which is gone, for commands it has not served. -/
theorem calls_linearizable (m : Method blake3 backend cbor A) {call : ℕ} {phase : Phase Reply}
    {result : Except LedgerError A} (hfirst : Runs (writer blake3 backend cbor) (start s₀) a)
    (hlater : Runs (writer blake3 backend cbor) a a')
    (hcall : a'.calls call = some (m.command,phase)) (hreturned : m.returned phase = some result) :
    (∃ before after, a'.history = before++.serve call m.command::after ∧
      result = (m.op.run ((writer blake3 backend cbor).replay before s₀)).1 ∧
      call ∉ (served before).map Prod.fst ∧ call ∉ (served after).map Prod.fst ∧
      (a.calls call = none → ∀ earlier c r, a.calls earlier = some (c,.answered r) →
        (earlier,c) ∈ served before) ∧
      (a'.alive = true → a'.state = (writer blake3 backend cbor).replay a'.history s₀)) ∨
    (result = .error .writerClosed ∨ result = .error .writerReplyCanceled) ∧ a'.alive = false ∧
      call ∉ (served a'.history).map Prod.fst := by
  have hsound := sound_runs hfirst
  have hsound' := hsound.runs hlater
  cases phase with
  | answered reply =>
      left
      obtain ⟨before,after,hsplit,hreply⟩ := hsound'.answered _ _ _ hcall
      have honce := hsound'.once hsplit
      refine ⟨before,after,hsplit,?_,honce.1,honce.2,?_,hsound'.living⟩
      · have hruns : reply = m.wrap (m.op.run ((writer blake3 backend cbor).replay before s₀)).1 :=
          hreply.trans (congrArg Prod.fst (congrFun m.runs _))
        have htaken : m.take reply = some result := hreturned
        rw [hruns,m.take_wrap] at htaken
        exact (Option.some.inj htaken).symm
      · exact fun hfresh earlier c r hearlier => real_time hsound hlater hearlier hfresh hsplit
  | closed =>
      cases hreturned
      exact Or.inr ⟨Or.inl rfl,hsound'.lost (Or.inl hcall)⟩
  | canceled =>
      cases hreturned
      exact Or.inr ⟨Or.inr rfl,hsound'.lost (Or.inr hcall)⟩
  | sending => cases hreturned
  | waiting => cases hreturned
  | abandoned => cases hreturned

/-- The first claim is answered with the result of its run on the fresh ledger. -/
theorem first_claim_linearized : ∃ (a : Writer) (before after : List (Turn WriteCmd Outside)),
    a.history = before++.serve 0 (.applyClaim (firstCommand [1]))::after ∧
      .ok () = ((applyClaimTx singleChunkHash firstBackend (firstCommand [1])).run
        ((writer singleChunkHash firstBackend unusedCbor).replay before
          (calmAt emptyDb ⟨∅,false⟩))).1 := by
  obtain ⟨a,hruns,-,-,-,hcall,-⟩ := first_claim_answered
  rcases calls_linearizable (WriterHandle.applyClaim singleChunkHash firstBackend unusedCbor
    (firstCommand [1])) .refl hruns hcall rfl with ⟨before,after,hsplit,hresult,-⟩ | ⟨hlost,-⟩
  · exact ⟨a,before,after,hsplit,hresult⟩
  · rcases hlost with hlost | hlost <;> cases hlost

/-- The channel never holds more than its 256 commands, a living thread serves them in the order in
which they were sent, a command with `k` others before it is settled by the time `k+1` have been
served, and whoever sends or waits can still be answered. -/
theorem calls_served_in_turn (hfirst : Runs (writer blake3 backend cbor) (start s₀) a)
    (hlater : Runs (writer blake3 backend cbor) a a') (halive : a'.alive = true) :
    a.channel.length ≤ writerChannelCapacity ∧
      served a.history++a.channel <+: served a'.history++a'.channel ∧
      (∀ k call command, a.channel[k]? = some (call,command) →
        (served a.history).length+k < (served a'.history).length →
        (∃ reply, a'.calls call = some (command,.answered reply)) ∨
          a'.calls call = some (command,.abandoned)) ∧
      ∀ call command phase, a'.calls call = some (command,phase) →
        phase = .sending ∨ phase = .waiting →
        ∃ final reply, Runs (writer blake3 backend cbor) a' final ∧
          final.calls call = some (command,.answered reply) := by
  have hsound := sound_runs hfirst
  have hsound' := hsound.runs hlater
  refine ⟨hsound.bounded,(hlater.fifo halive).2,?_,?_⟩
  · intro k call command hplace hturns
    obtain ⟨reply,hreply⟩ := answers_of_mem (served_in_turn hlater halive hplace hturns)
    exact (hsound'.replied _ _ _ hreply).imp (fun h => ⟨reply,h⟩) id
  · exact fun call command phase hcall hphase => answerable hsound' halive writer_room hcall hphase

/-- Three callers in the channel, the third with the first one's claim again: the second is settled
after two turns, whatever becomes of the third. -/
theorem queued_claims_in_turn : ∃ queued done : Writer,
    Runs (writer singleChunkHash pairBackend unusedCbor) queued done ∧
      queued.channel = [(0,.applyClaim (firstCommand [1])),(1,.applyClaim laterCommand),
        (2,.applyClaim (firstCommand [1]))] ∧
      served queued.history++queued.channel <+: served done.history++done.channel ∧
      ((∃ reply, done.calls 1 = some (.applyClaim laterCommand,.answered reply)) ∨
        done.calls 1 = some (.applyClaim laterCommand,.abandoned)) := by
  obtain ⟨queued,done,hfirst,hlater,hqueued,hbefore,halive,hafter,-⟩ := three_claims_answered
  have hturns := calls_served_in_turn hfirst hlater halive
  refine ⟨queued,done,hlater,hqueued,hturns.2.1,hturns.2.2.1 1 1 _ (by rw [hqueued]; rfl) ?_⟩
  rw [hbefore,hafter]
  decide

/-- A snapshot cuts the writes in two. Its file holds the tables after exactly the turns before its
own; what was answered before the snapshot was asked for is among them, and what was asked for after
the snapshot was answered is not. -/
theorem snapshot_cuts_writes {asked done : Writer} {call : ℕ} {snapshotId path : String}
    (hfirst : Runs (writer blake3 backend cbor) (start s₀) asked)
    (hthen : Runs (writer blake3 backend cbor) asked done)
    (hlater : Runs (writer blake3 backend cbor) done a) (hfresh : asked.calls call = none)
    (hdone : done.calls call = some (.snapshot snapshotId,.answered (.path (.ok path)))) :
    ∃ before after, a.history = before++.serve call (.snapshot snapshotId)::after ∧
      ((writer blake3 backend cbor).replay (before++[.serve call (.snapshot snapshotId)])
        s₀).world.files.lookup path =
          some (.database (imageOf ((writer blake3 backend cbor).replay before s₀).db)) ∧
      (∀ i command reply, asked.calls i = some (command,.answered reply) →
        (i,command) ∈ served before) ∧
      ∀ i command, done.calls i = none → (i,command) ∉ served before := by
  have hasked := sound_runs hfirst
  have hsound := hasked.runs hthen
  obtain ⟨before,after,hsplit,hreply⟩ := hsound.answered _ _ _ hdone
  obtain ⟨more,hmore⟩ := hlater.history
  have hsplit' : a.history = before++.serve call (.snapshot snapshotId)::(after++more) := by
    rw [← hmore,hsplit,List.append_assoc,List.cons_append]
  refine ⟨before,after++more,hsplit',?_,?_,?_⟩
  · have hpath : ((snapshot snapshotId).run ((writer blake3 backend cbor).replay before s₀)).1 =
        .ok path := (Reply.path.inj hreply).symm
    rw [replay_concat]
    exact (snapshot_ok (Prod.ext hpath rfl)).2
  · exact fun i command reply hi => real_time hasked (hthen.trans hlater) hi hfresh hsplit'
  · exact fun i command hi => later_call hsound hlater hdone hi hsplit'

/-- A snapshot of a ledger which has accepted one claim holds that claim. -/
theorem snapshot_after_first_claim : ∃ (a : Writer) (before after : List (Turn WriteCmd Outside)),
    a.history = before++.serve 1 (.snapshot "1-1")::after ∧
      (0,.applyClaim (firstCommand [1])) ∈ served before := by
  obtain ⟨asked,hruns,halive,hempty,hstate,hcall,hothers⟩ := first_claim_answered
  obtain ⟨done,hthen,-,-,-,-,hdone,-⟩ := served_next
    (@writer_room singleChunkHash firstBackend unusedCbor) halive hempty 1
    (hothers 1 (by decide)) (.snapshot "1-1")
  have hturn : (runWriter singleChunkHash firstBackend unusedCbor (.snapshot "1-1")
      asked.state).1 = .path (.ok (snapshotFile "1-1")) := by
    rw [hstate,runWriter,replyWith,snapshot_calm]
  have hanswer := hdone.trans (congrArg (fun r => some (_,Phase.answered r)) hturn)
  obtain ⟨before,after,hsplit,-,hbefore,-⟩ := snapshot_cuts_writes hruns hthen .refl
    (hothers 1 (by decide)) hanswer
  exact ⟨done,before,after,hsplit,hbefore 0 _ _ hcall⟩

end Calls

section Claims
variable (blake3 : Bytes → Hash) (backend : ProofBackend) (cbor : Cbor)

variable {blake3} {backend} {cbor}

end Claims

end OmegaHarness.WriterActor
