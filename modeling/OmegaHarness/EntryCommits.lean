import OmegaHarness.ClaimStatements
import OmegaHarness.CommitPrefixes
import OmegaHarness.RaftStorage

/-!
# The commits of a batch of entries

Applying a batch commits, for each entry, what its payload does to the tables and
then the marker of the last applied entry, and after all entries the membership of
the batch if there was one. These are transactions of their own, so a crash can
fall between any two of them.
-/
namespace OmegaHarness.EntryCommits
open DomainHashes ClaimTypes ClaimVerifier FaultyTransactions FaultStreams CommitPrefixes KeyedTables
open LedgerStore RaftTypes ClaimApplication LedgerWriter LedgerHistory ClaimStatements RaftStorage

inductive Commit where
  | claim (payload : EntryPayload)
  | mark (logId : LogId)
  | membership (bytes : Bytes)
  deriving DecidableEq, Repr

def putMeta (key : MetaKey) (bytes : Bytes) (db : Db) : Db :=
  { db with raftMeta := db.raftMeta.insert key bytes }

theorem saveRaftMeta_ok {key : MetaKey} {bytes : Bytes} {s t : Ledger} {a : Unit}
    (h : (saveRaftMeta key (some bytes)).run s = (.ok a,t)) : t.db = putMeta key bytes s.db := by
  rcases execute_calm.mp (steady_execute _ s a t h) with ⟨db,hinsert,hdb⟩
  cases hinsert
  exact congrArg Session.db hdb

def entryCommits (entry : Entry) : List Commit := [.claim entry.payload,.mark entry.logId]

def membershipCommit : Option Bytes → List Commit
  | none => []
  | some bytes => [.membership bytes]

def batchCommits (entries : List Entry) (lastMembership : Option Bytes) : List Commit :=
  entries.flatMap entryCommits++membershipCommit lastMembership

/-- Equal claim tables and equal markers of the last applied entry. -/
structure SameLedger (a b : Db) : Prop extends SameClaims a b where
  lastApplied : a.raftMeta.lookup .lastAppliedLogId = b.raftMeta.lookup .lastAppliedLogId

theorem SameLedger.refl (db : Db) : SameLedger db db := ⟨⟨rfl,rfl⟩,rfl⟩

theorem SameLedger.trans {a b c : Db} (h : SameLedger a b) (h' : SameLedger b c) : SameLedger a c :=
  ⟨⟨h.nullifiers.trans h'.nullifiers,h.utxos.trans h'.utxos⟩,h.lastApplied.trans h'.lastApplied⟩

theorem SameLedger.symm {a b : Db} (h : SameLedger a b) : SameLedger b a :=
  ⟨⟨h.nullifiers.symm,h.utxos.symm⟩,h.lastApplied.symm⟩

/-- Both sides get the same marker. -/
theorem sameLedger_marked {a b : Db} (h : SameClaims a b) (bytes : Bytes) :
    SameLedger (putMeta .lastAppliedLogId bytes a) (putMeta .lastAppliedLogId bytes b) where
  toSameClaims := ⟨h.nullifiers,h.utxos⟩
  lastApplied := by rw [putMeta,putMeta,Finmap.lookup_insert,Finmap.lookup_insert]

/-- The membership row is not part of the ledger. -/
theorem sameLedger_membership (bytes : Bytes) (db : Db) :
    SameLedger (putMeta .lastMembership bytes db) db where
  toSameClaims := ⟨rfl,rfl⟩
  lastApplied := Finmap.lookup_insert_of_ne _ (by decide)

section Writer
variable (blake3 : Bytes → Hash) (backend : ProofBackend) (cbor : Cbor)

def perform : Commit → Db → Db
  | .claim payload => settle blake3 backend payload
  | .mark logId => fun db =>
      match cbor.logId.encode logId with
      | .ok bytes => putMeta .lastAppliedLogId bytes db
      | .error _ => db
  | .membership bytes => putMeta .lastMembership bytes

variable {blake3} {backend} {cbor} in
theorem performAll_entry {entry : Entry} {bytes : Bytes}
    (h : cbor.logId.encode entry.logId = .ok bytes) (db : Db) :
    performAll (perform blake3 backend cbor) (entryCommits entry) db =
      putMeta .lastAppliedLogId bytes (settle blake3 backend entry.payload db) := by
  simp only [performAll,entryCommits,List.foldl_cons,List.foldl_nil,perform,h]

theorem commits_applyPayload (payload : EntryPayload) :
    Commits (perform blake3 backend cbor) (applyPayload blake3 backend payload) [.claim payload] where
  draws := draws_applyPayload payload
  dead s hdead := by
    by_cases hinterrupted : Interrupted blake3 backend payload s
    · exact (applyPayload_interrupted hinterrupted).1
    · rw [applyPayload_settles hinterrupted]
      apply settle_unchanged
      intro command hpayload hok
      by_contra hsome
      rw [hpayload] at hinterrupted
      exact hinterrupted ⟨hok,hsome,0,Nat.succ_pos _,hdead 0⟩
  crash s hcrash := by
    by_cases hinterrupted : Interrupted blake3 backend payload s
    · have hspec := applyPayload_interrupted hinterrupted
      refine ⟨0,hspec.1,?_⟩
      intro a t hrun
      right
      rw [hrun] at hspec
      exact hspec.2 hcrash
    · exact ⟨1,applyPayload_settles hinterrupted,fun _ _ _ => Or.inl le_rfl⟩

theorem commits_saveRaftMeta {key : MetaKey} {bytes : Bytes} {c : Commit}
    (h : perform blake3 backend cbor c = putMeta key bytes) :
    Commits (perform blake3 backend cbor) (saveRaftMeta key (some bytes)) [c] := by
  unfold saveRaftMeta execute sql
  apply commits_statement
  intro db a db' hrun
  cases hrun
  rw [h]
  rfl

theorem commits_applyEntry (entry : Entry) :
    Commits (perform blake3 backend cbor) (applyEntry blake3 backend cbor entry)
      (entryCommits entry) := by
  unfold applyEntry
  have hmark : ∀ bytes, (cbor.logId.encode entry.logId).mapError LedgerError.codec = .ok bytes →
      perform blake3 backend cbor (.mark entry.logId) = putMeta .lastAppliedLogId bytes := by
    intro bytes hencode
    rw [FallibleSteps.mapError_ok] at hencode
    funext db
    rw [perform,hencode]
  refine commits_bind (commits_applyPayload blake3 backend cbor entry.payload) fun response => ?_
  apply commits_ofExcept_bind
  intro bytes hencode
  exact commits_bind (commits_saveRaftMeta blake3 backend cbor (hmark bytes hencode)) fun _ =>
    commits_pure response

theorem commits_applyEntries (entries : List Entry) :
    Commits (perform blake3 backend cbor) (applyEntries blake3 backend cbor entries)
      (entries.flatMap entryCommits) := by
  induction entries with
  | nil => exact commits_pure []
  | cons entry rest ih =>
      rw [List.flatMap_cons,← List.append_nil (rest.flatMap entryCommits)]
      refine commits_bind (commits_applyEntry blake3 backend cbor entry) fun response => ?_
      exact commits_bind ih fun responses => commits_pure _

theorem commits_applyRaftEntries (entries : List Entry) (lastMembership : Option Bytes) :
    Commits (perform blake3 backend cbor) (applyRaftEntries blake3 backend cbor entries lastMembership)
      (batchCommits entries lastMembership) := by
  have hsave : Commits (perform blake3 backend cbor) (saveLastMembership lastMembership)
      (membershipCommit lastMembership) := by
    cases lastMembership with
    | none => exact commits_pure ()
    | some bytes => exact commits_saveRaftMeta blake3 backend cbor rfl
  rw [batchCommits,← List.append_nil (membershipCommit lastMembership)]
  refine commits_bind (commits_applyEntries blake3 backend cbor entries) fun responses => ?_
  exact commits_bind hsave fun _ => commits_pure responses

theorem applyPayload_answers (payload : EntryPayload) (s : Ledger) :
    ∃ response t, (applyPayload blake3 backend payload).run s = (.ok response,t) := by
  cases payload with
  | blank => exact ⟨_,_,rfl⟩
  | membership m => exact ⟨_,_,rfl⟩
  | normal command =>
      rcases applyPayload_normal blake3 backend command s with ⟨response,hrun⟩
      exact ⟨response,_,hrun⟩

variable {blake3} {backend} {cbor}

theorem applyEntry_calm {entry : Entry} {db : Db} {outside : Outside}
    (h : ∃ bytes, cbor.logId.encode entry.logId = .ok bytes) :
    ∃ response, (applyEntry blake3 backend cbor entry).run (calmAt db outside) =
      (.ok response,calmAt (performAll (perform blake3 backend cbor) (entryCommits entry) db)
        outside) := by
  rcases h with ⟨bytes,hencode⟩
  rcases applyPayload_answers blake3 backend entry.payload (calmAt db outside) with ⟨response,t,hrun⟩
  have ht := (commits_applyPayload blake3 backend cbor entry.payload).calm hrun
  have hsave : (saveRaftMeta .lastAppliedLogId (some bytes)).run t =
      (.ok (),calmAt (putMeta .lastAppliedLogId bytes t.db) outside) := by
    rw [ht]
    exact execute_calm.mpr ⟨_,rfl,rfl⟩
  have hentry : (applyEntry blake3 backend cbor entry).run (calmAt db outside) =
      (.ok response,calmAt (putMeta .lastAppliedLogId bytes t.db) outside) :=
    bind_ok.mpr ⟨_,_,hrun,ofExcept_bind_ok.mpr
      ⟨bytes,FallibleSteps.mapError_ok.mpr hencode,
        bind_ok.mpr ⟨_,_,hsave,rfl⟩⟩⟩
  refine ⟨response,?_⟩
  rw [← (commits_applyEntry blake3 backend cbor entry).calm hentry]
  exact hentry

theorem applyEntries_calm {entries : List Entry} {db : Db} {outside : Outside}
    (h : ∀ entry ∈ entries, ∃ bytes, cbor.logId.encode entry.logId = .ok bytes) :
    ∃ responses t, (applyEntries blake3 backend cbor entries).run (calmAt db outside) =
      (.ok responses,t) := by
  induction entries generalizing db with
  | nil => exact ⟨[],_,rfl⟩
  | cons entry rest ih =>
      rcases applyEntry_calm (h entry List.mem_cons_self) with ⟨response,hentry⟩
      rcases ih fun e he => h e (List.mem_cons_of_mem entry he) with ⟨responses,t,hrest⟩
      exact ⟨response::responses,t,bind_ok.mpr ⟨_,_,hentry,
        bind_ok.mpr ⟨_,_,hrest,rfl⟩⟩⟩

theorem saveLastMembership_calm (lastMembership : Option Bytes) (db : Db) (outside : Outside) :
    ∃ t, (saveLastMembership lastMembership).run (calmAt db outside) = (.ok (),t) := by
  cases lastMembership with
  | none => exact ⟨_,rfl⟩
  | some bytes => exact ⟨_,execute_calm.mpr ⟨_,rfl,rfl⟩⟩

/-- Without faults a batch is answered after all its commits. -/
theorem applyToStateMachine_calm {entries : List Entry} {lastMembership : Option Bytes} {db : Db}
    {outside : Outside} (hmembership : latestMembership cbor none entries = .ok lastMembership)
    (h : ∀ entry ∈ entries, ∃ bytes, cbor.logId.encode entry.logId = .ok bytes) :
    ∃ responses, (applyToStateMachine blake3 backend cbor entries).run (calmAt db outside) =
      (.ok responses,calmAt (performAll (perform blake3 backend cbor)
        (batchCommits entries lastMembership) db) outside) := by
  rcases @applyEntries_calm blake3 backend cbor entries db outside h with ⟨responses,t,hentries⟩
  have ht := (commits_applyEntries blake3 backend cbor entries).calm hentries
  rcases saveLastMembership_calm lastMembership t.db outside with ⟨u,hsave⟩
  have hsave : (saveLastMembership lastMembership).run t = (.ok (),u) := by
    rw [ht] at hsave ⊢
    exact hsave
  have hbatch : (applyRaftEntries blake3 backend cbor entries lastMembership).run
      (calmAt db outside) = (.ok responses,u) :=
    bind_ok.mpr ⟨_,_,hentries,bind_ok.mpr ⟨_,_,hsave,rfl⟩⟩
  refine ⟨responses,?_⟩
  rw [← (commits_applyRaftEntries blake3 backend cbor entries lastMembership).calm hbatch]
  exact ofExcept_bind_ok.mpr ⟨lastMembership,hmembership,mapFailure_ok.mpr hbatch⟩

/-- A crash inside a batch leaves some of its first commits. -/
theorem applyToStateMachine_crash {entries : List Entry} {lastMembership : Option Bytes} {s : Ledger}
    (hmembership : latestMembership cbor none entries = .ok lastMembership)
    (hcrash : Crashing s.faults) :
    ∃ k, ((applyToStateMachine blake3 backend cbor entries).run s).2.db =
      performAll (perform blake3 backend cbor) ((batchCommits entries lastMembership).take k) s.db := by
  have hcommits : Commits (perform blake3 backend cbor) (applyToStateMachine blake3 backend cbor entries)
      (batchCommits entries lastMembership) := by
    apply commits_ofExcept_bind
    intro found hfound
    rw [hmembership] at hfound
    cases hfound
    exact commits_mapFailure (commits_applyRaftEntries blake3 backend cbor entries lastMembership)
  rcases hcommits.crash s hcrash with ⟨k,hdb,-⟩
  exact ⟨k,hdb⟩

/-- What a finished batch says about its entries. -/
theorem applyEntries_encodes {entries : List Entry} {s t : Ledger} {responses : List LedgerResponse}
    (h : (applyEntries blake3 backend cbor entries).run s = (.ok responses,t)) :
    ∀ entry ∈ entries, ∃ bytes, cbor.logId.encode entry.logId = .ok bytes := by
  induction entries generalizing s responses with
  | nil => exact fun _ he => (List.not_mem_nil he).elim
  | cons entry rest ih =>
      rcases bind_ok.mp h with ⟨response,u,hentry,hrest⟩
      rcases bind_ok.mp hrest with ⟨_,_,hrest,hpure⟩
      cases hpure
      rcases bind_ok.mp hentry with ⟨_,_,_,hsave⟩
      rcases ofExcept_bind_ok.mp hsave with ⟨bytes,hencode,-⟩
      exact List.forall_mem_cons.mpr ⟨⟨bytes,FallibleSteps.mapError_ok.mp hencode⟩,ih hrest⟩

theorem applyToStateMachine_encodes {entries : List Entry} {s t : Ledger}
    {responses : List LedgerResponse}
    (h : (applyToStateMachine blake3 backend cbor entries).run s = (.ok responses,t)) :
    (∃ lastMembership, latestMembership cbor none entries = .ok lastMembership) ∧
      ∀ entry ∈ entries, ∃ bytes, cbor.logId.encode entry.logId = .ok bytes := by
  rcases ofExcept_bind_ok.mp h with ⟨lastMembership,hmembership,hbatch⟩
  rcases bind_ok.mp (mapFailure_ok.mp hbatch) with ⟨_,_,hentries,-⟩
  exact ⟨⟨lastMembership,hmembership⟩,applyEntries_encodes hentries⟩

end Writer

end OmegaHarness.EntryCommits
