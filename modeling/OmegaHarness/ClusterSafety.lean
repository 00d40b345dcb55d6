import OmegaHarness.NodeTracking
import OmegaHarness.SubmittedCommitments

/-!
# What holds in every run of a cluster which loses no claim

The tables of every node are those of the first entries of the committed log, however the
entries were batched, wherever nodes stopped and whichever snapshots they installed, as long
as no batch loses a claim. So any two nodes are comparable, and a node which is left alone
reaches the end of the log.
-/
namespace OmegaHarness.ClusterRuns
open DomainHashes ClaimTypes ClaimVerifier FaultyTransactions FaultStreams CommitPrefixes KeyedTables
open LedgerStore RaftTypes ClaimApplication LedgerWriter LedgerHistory WriterFrames ClaimStatements
open RaftStorage EntryCommits ReplicaAgreement CrashRecovery AbsorbingLogs
open Blake3Compression MintedValues SubmittedCommitments
open ReplayClasses (Claimed IsInternal fails_sqliteI64 fails_insertRowsFrom)
open SnapshotInterleaving (Phase)

section Rejections
variable {blake3 : Bytes → Hash} {backend : ProofBackend}

theorem ofExcept_bind_error {A B : Type} {x : Except LedgerError A} {f : A → LedgerOp B}
    {s t : Ledger} {e : LedgerError} (h : (ofExcept x >>= f).run s = (.error e,t)) :
    x = .error e ∨ ∃ a, x = .ok a ∧ (f a).run s = (.error e,t) := by
  cases x with
  | error e' =>
      cases h
      exact Or.inl rfl
  | ok a => exact Or.inr ⟨a,rfl,h⟩

theorem sqlTransaction_error {A : Type} {body : LedgerOp A} {s t : Ledger} {e : LedgerError}
    (h : (sqlTransaction body).run s = (.error e,t)) :
    IsInternal e ∨ ∃ u, body.run s.next = (.error e,u) := by
  rw [sqlTransaction,transaction_run] at h
  cases hbegin : s.faults 0 with
  | some text =>
      rw [hbegin] at h
      cases h
      exact Or.inl rfl
  | none =>
      rw [hbegin] at h
      cases hbody : body.run s.next with
      | mk r u =>
        rw [hbody] at h
        cases r with
        | error e' =>
            cases h
            exact Or.inr ⟨u,rfl⟩
        | ok a =>
            dsimp only at h
            cases hcommit : u.faults 0 with
            | some text =>
                rw [hcommit] at h
                cases h
                exact Or.inl rfl
            | none =>
                rw [hcommit] at h
                cases h

/-- A probe fails for the ledger's own reasons or because it finds the leaf. -/
theorem rejectReplay_error {p : ClaimPublicInputs} {s t : Ledger} {e : LedgerError}
    (h : (rejectReplay p).run s = (.error e,t)) :
    IsInternal e ∨ rejectClass e = .replay ∧ nullifierKey p ∈ s.db.nullifiers := by
  rcases ofExcept_bind_error h with hrange | hprobe
  · exact Or.inl (fails_sqliteI64 _ _ s e s (congrArg (·,s) hrange))
  · rcases hprobe with ⟨leafIndex,hindex,hprobe⟩
    have hindex := (sqliteI64_ok.mp hindex).2
    rw [sql,bind_run,statement_run] at hprobe
    cases hfault : s.faults 0 with
    | some text =>
        rw [hfault] at hprobe
        cases hprobe
        exact Or.inl rfl
    | none =>
        rw [hfault] at hprobe
        by_cases hmem : ((p.subTreeId.toNat : ℤ),leafIndex) ∈ s.db.nullifiers
        · simp only [hmem,decide_true,if_true] at hprobe
          cases hprobe
          rw [hindex] at hmem
          exact Or.inr ⟨rfl,hmem⟩
        · simp only [hmem,decide_false,Bool.false_eq_true,if_false] at hprobe
          cases hprobe

theorem keeps_rejectReplay {I : Db → Prop} (p : ClaimPublicInputs) : Keeps I (rejectReplay p) := by
  refine keeps_bind (keeps_ofExcept _) fun _ => keeps_bind (keeps_statement ?_) fun _ =>
    keeps_ofExcept _
  intro db a db' h hrun
  cases hrun
  exact h

theorem rejectReplays_error {publicInputs : List ClaimPublicInputs} {s t : Ledger} {e : LedgerError}
    (h : (rejectReplays publicInputs).run s = (.error e,t)) :
    IsInternal e ∨ rejectClass e = .replay ∧ ∃ p ∈ publicInputs, nullifierKey p ∈ s.db.nullifiers := by
  induction publicInputs generalizing s with
  | nil => cases h
  | cons p rest ih =>
      rw [rejectReplays,bind_run] at h
      have hkept := @keeps_rejectReplay (fun db => db = s.db) p s rfl
      cases hprobe : (rejectReplay p).run s with
      | mk r u =>
        rw [hprobe] at h hkept
        cases r with
        | error e' =>
            cases h
            rcases rejectReplay_error hprobe with hinternal | hreplay
            · exact Or.inl hinternal
            · exact Or.inr ⟨hreplay.1,p,List.mem_cons_self,hreplay.2⟩
        | ok a =>
            rcases ih h with hinternal | hreplay
            · exact Or.inl hinternal
            · rcases hreplay with ⟨hclass,q,hq,hkey⟩
              rw [hkept] at hkey
              exact Or.inr ⟨hclass,q,List.mem_cons_of_mem p hq,hkey⟩

theorem parseClaim_error {claim : ClaimTx} {e : LedgerError} (h : parseClaim claim = .error e) :
    rejectClass e = .invalidClaim ∧ (claimInputs claim).length ≠ (claimWitnesses claim).length := by
  cases claim with
  | utxo claim => cases h
  | collection claim =>
      by_cases harity : claim.publicInputs.length = claim.witness.length
      · simp [parseClaim,harity] at h
      · rw [parseClaim,if_pos harity] at h
        cases h
        exact ⟨rfl,harity⟩

/-- Why a claim is rejected: for the ledger's own reasons, for a leaf which is taken, or for
its shape or its proof, which are the same on every ledger. -/
theorem applyClaimTx_error {command : LedgerCommand} {s t : Ledger} {e : LedgerError}
    (h : (applyClaimTx blake3 backend command).run s = (.error e,t)) :
    IsInternal e ∨ rejectClass e = .replay ∧ Claimed command s.db ∨
      (rejectClass e = .verify ∨ rejectClass e = .invalidClaim) ∧
        ∀ db, ¬Acceptable blake3 backend command db := by
  rcases ofExcept_bind_error h with hblock | hrest
  · exact Or.inl (fails_sqliteI64 _ _ s e s (congrArg (·,s) hblock))
  rcases hrest with ⟨blockIdxI64,-,hrest⟩
  rcases ofExcept_bind_error hrest with hparse | hrest
  · have hinvalid := parseClaim_error hparse
    exact Or.inr (Or.inr ⟨Or.inr hinvalid.1,fun db hok => hinvalid.2 hok.arity⟩)
  rcases hrest with ⟨parsed,hparse,hrest⟩
  have hparsed := (parseClaim_ok.mp hparse).2
  rw [hparsed] at hrest
  rcases ofExcept_bind_error hrest with hverify | hrest
  · cases hresult : verify blake3 backend command.commitment (claimInputs command.claim)
      (claimProof command.claim) with
    | ok a =>
        rw [hresult] at hverify
        cases hverify
    | error reason =>
        rw [hresult] at hverify
        cases hverify
        refine Or.inr (Or.inr ⟨Or.inl rfl,fun db hok => ?_⟩)
        cases hresult.symm.trans hok.verified
  rcases hrest with ⟨_,-,hrest⟩
  rcases sqlTransaction_error hrest with hinternal | hbody
  · exact Or.inl hinternal
  rcases hbody with ⟨u,hbody⟩
  rw [bind_run] at hbody
  cases hprobes : (rejectReplays (claimInputs command.claim)).run s.next with
  | mk r v =>
    rw [hprobes] at hbody
    cases r with
    | error e' =>
        cases hbody
        rcases rejectReplays_error hprobes with hinternal | hreplay
        · exact Or.inl hinternal
        · exact Or.inr (Or.inl hreplay)
    | ok a => exact Or.inl (fails_insertRowsFrom blake3 _ _ _ _ _ _ _ hbody)

/-- What the response to a claim says about the ledger which gave it. -/
structure ResponseSound (blake3 : Bytes → Hash) (backend : ProofBackend) (command : LedgerCommand)
    (response : LedgerResponse) (db : Db) : Prop where
  form : response = .ofAccepted ∨ ∃ e, response = .rejected e ∧ rejectClass e ≠ .writerClosed
  accepted : response.accepted = true → Acceptable blake3 backend command db
  replay : response.reject = some .replay → Claimed command db
  refused : response.reject = some .verify ∨ response.reject = some .invalidClaim →
    ∀ db, ¬Acceptable blake3 backend command db

theorem responseSound_rejected {command : LedgerCommand} {s t : Ledger} {e : LedgerError}
    (h : (applyClaimTx blake3 backend command).run s = (.error e,t)) :
    ResponseSound blake3 backend command (.rejected e) s.db := by
  have hclass {c : LedgerReject} (hc : (LedgerResponse.rejected e).reject = some c) :
      rejectClass e = c := Option.some.inj hc
  rcases applyClaimTx_error h with hinternal | hclaimed | hrefused
  · have hother {c : LedgerReject} (hc : (LedgerResponse.rejected e).reject = some c) :
        c = .internal := (hclass hc).symm.trans hinternal
    refine ⟨Or.inr ⟨e,rfl,fun hc => ?_⟩,nofun,fun hc => ?_,fun hc => ?_⟩
    · cases hc.symm.trans hinternal
    · cases hother hc
    · rcases hc with hc | hc <;> cases hother hc
  · refine ⟨Or.inr ⟨e,rfl,fun hc => ?_⟩,nofun,fun _ => hclaimed.2,fun hc => ?_⟩
    · cases hc.symm.trans hclaimed.1
    · rcases hc with hc | hc <;> cases (hclass hc).symm.trans hclaimed.1
  · refine ⟨Or.inr ⟨e,rfl,fun hc => ?_⟩,nofun,fun hc => ?_,fun _ => hrefused.2⟩
    · rw [hc] at hrefused
      rcases hrefused.1 with hclosed | hclosed <;> cases hclosed
    · rw [hclass hc] at hrefused
      rcases hrefused.1 with hreplay | hreplay <;> cases hreplay

theorem applyPayload_response {command : LedgerCommand} {s t : Ledger} {response : LedgerResponse}
    (h : (applyPayload blake3 backend (.normal command)).run s = (.ok response,t)) :
    ResponseSound blake3 backend command response s.db := by
  rw [applyPayload,bind_run,attempt_run] at h
  cases hrun : (applyClaimTx blake3 backend command).run s with
  | mk r u =>
    rw [hrun] at h
    cases r with
    | error e =>
        cases h
        exact responseSound_rejected hrun
    | ok a =>
        cases h
        refine ⟨Or.inl rfl,fun _ => (applyClaimTx_ok blake3 hrun).1,?_,?_⟩
        · intro hc
          cases hc
        · intro hc
          rcases hc with hc | hc <;> cases hc

end Rejections

section Batches
variable {blake3 : Bytes → Hash} {backend : ProofBackend} {cbor : Cbor}
  {committed done start : List Entry} {s t : Ledger}

/-- The entries behind a log id which the tables have reached continue a part of the log which
the tables contain. -/
theorem behind_split (hascending : Ascending committed) (hdone : done <+: committed)
    {id : Option LogId} (h : Reached done id) :
    ∃ start, start++behind committed id = committed ∧ start <+: done := by
  cases id with
  | none => exact ⟨[],rfl,List.nil_prefix⟩
  | some id =>
      rcases h with ⟨e,he,hid⟩
      rcases List.append_of_mem he with ⟨before,after,hsplit⟩
      rcases hdone with ⟨rest,hrest⟩
      have hcommitted : committed = (before++[e])++(after++rest) := by
        rw [← hrest,hsplit]
        simp
      refine ⟨before++[e],?_,?_⟩
      · rw [hcommitted] at hascending ⊢
        rw [behind,← hid,filter_behind hascending]
      · rw [hsplit,List.append_cons before e after]
        exact List.prefix_append _ _

/-- A node which only fails by going down loses nothing: a failure on the way to the marker stops
the marker too. -/
theorem losesNone_of_crashing {entries : List Entry} (hcrash : Crashing s.faults) :
    LosesNone blake3 backend cbor entries s := by
  induction entries generalizing s with
  | nil => trivial
  | cons entry rest ih =>
      constructor
      · rintro ⟨hinterrupted,response,t,hrun⟩
        rcases bind_ok.mp hrun with ⟨first,u,hpayload,hrest⟩
        rcases ofExcept_bind_ok.mp hrest with ⟨_,-,hrest⟩
        rcases bind_ok.mp hrest with ⟨_,v,hsave,-⟩
        have hdead := (applyPayload_interrupted hinterrupted).2 hcrash
        rw [hpayload] at hdead
        unfold saveRaftMeta execute sql at hsave
        exact hdead 0 (statement_ok.mp hsave).1
      · intro response t hrun
        have hfaults := ((commits_applyEntry blake3 backend cbor entry).draws s).2
        rw [hrun] at hfaults
        rcases hfaults with ⟨k,hfaults⟩
        apply ih
        rw [hfaults]
        exact hcrash.later k

theorem losesNone_calm {entries : List Entry} {db : Db} {outside : Outside} :
    LosesNone blake3 backend cbor entries (calmAt db outside) :=
  losesNone_of_crashing fun _ hstruck => (hstruck rfl).elim

/-- An entry which was answered and not lost has its rows and its marker. -/
theorem applyEntry_settles {entry : Entry} {response : LedgerResponse}
    (hkept : ¬Lost blake3 backend cbor entry s)
    (h : (applyEntry blake3 backend cbor entry).run s = (.ok response,t)) :
    (∃ u, (applyPayload blake3 backend entry.payload).run s = (.ok response,u)) ∧
      ∃ bytes, cbor.logId.encode entry.logId = .ok bytes ∧
        t.db = putMeta .lastAppliedLogId bytes (settle blake3 backend entry.payload s.db) := by
  have hquiet : ¬Interrupted blake3 backend entry.payload s :=
    fun hinterrupted => hkept ⟨hinterrupted,response,t,h⟩
  rcases applyEntry_ok h with ⟨bytes,hencode,hdb⟩
  rcases bind_ok.mp h with ⟨first,u,hpayload,hrest⟩
  rcases ofExcept_bind_ok.mp hrest with ⟨_,-,hrest⟩
  rcases bind_ok.mp hrest with ⟨_,v,hsave,hpure⟩
  cases hpure
  rw [applyPayload_settles hquiet] at hdb
  exact ⟨⟨u,hpayload⟩,bytes,hencode,hdb⟩

/-- An entry which was not answered has its rows or has not, and no marker. -/
theorem applyEntry_stops {entry : Entry} {e : LedgerError}
    (h : (applyEntry blake3 backend cbor entry).run s = (.error e,t)) :
    t.db = s.db ∨ t.db = settle blake3 backend entry.payload s.db := by
  have hpayload : t.db = ((applyPayload blake3 backend entry.payload).run s).2.db := by
    rcases applyPayload_answers blake3 backend entry.payload s with ⟨response,u,hanswer⟩
    rw [applyEntry,bind_run,hanswer] at h
    rw [hanswer]
    cases hencode : (cbor.logId.encode entry.logId).mapError LedgerError.codec with
    | error e' =>
        rw [hencode] at h
        cases h
        rfl
    | ok bytes =>
        rw [hencode] at h
        change (saveRaftMeta .lastAppliedLogId (some bytes) >>= fun _ => pure response).run u = _ at h
        rw [bind_run] at h
        cases hsave : (saveRaftMeta .lastAppliedLogId (some bytes)).run u with
        | mk r v =>
          rw [hsave] at h
          cases r with
          | ok a => cases h
          | error e' =>
              cases h
              exact atomic_execute _ _ _ _ hsave
  by_cases hinterrupted : Interrupted blake3 backend entry.payload s
  · exact Or.inl (hpayload.trans (applyPayload_interrupted hinterrupted).1)
  · exact Or.inr (hpayload.trans (applyPayload_settles hinterrupted))

theorem answered_entry {entry : Entry} {response : LedgerResponse}
    (hholds : Holds blake3 backend cbor done s.db) (hnext : start++[entry] <+: committed)
    (hdone : done <+: committed) (hpassed : start <+: done)
    (hrun : (applyPayload blake3 backend entry.payload).run s = (.ok response,t)) :
    Answered blake3 backend committed (entry,response) := by
  refine ⟨start,hnext,?_⟩
  intro command hpayload
  rw [hpayload] at hrun
  have hresponse := applyPayload_response hrun
  have hbelow : Contained (ledgerOf blake3 backend start) s.db :=
    (ledgerOf_contained hpassed).trans
      (Contained.of_sameClaims ⟨hholds.claims.nullifiers.symm,hholds.claims.utxos.symm⟩)
  have habove : Contained s.db (ledgerOf blake3 backend committed) :=
    (Contained.of_sameClaims hholds.claims).trans (ledgerOf_contained hdone)
  exact ⟨hresponse.form,fun h => hbelow.acceptable (hresponse.accepted h),
    fun h => claimed_mono (hresponse.replay h) habove,hresponse.refused⟩

/-- A finished batch: the tables contain all its entries, and its answers are sound. -/
theorem applyEntries_sound {entries : List Entry} {responses : List LedgerResponse}
    (hids : ∀ e ∈ committed, StorableId cbor e.logId)
    (hholds : Holds blake3 backend cbor done s.db) (hnext : start++entries <+: committed)
    (hdone : done <+: committed) (hpassed : start <+: done)
    (hkept : LosesNone blake3 backend cbor entries s)
    (hrun : (applyEntries blake3 backend cbor entries).run s = (.ok responses,t)) :
    (∃ done', done <+: done' ∧ done' <+: committed ∧ start++entries <+: done' ∧
        Holds blake3 backend cbor done' t.db) ∧
      ∀ answer ∈ entries.zip responses, Answered blake3 backend committed answer := by
  induction entries generalizing start done s responses with
  | nil =>
      cases hrun
      rw [List.append_nil]
      exact ⟨⟨done,List.prefix_rfl,hdone,hpassed,hholds⟩,fun _ hmem => (List.not_mem_nil hmem).elim⟩
  | cons entry rest ih =>
      rcases bind_ok.mp hrun with ⟨response,u,hentry,hrest⟩
      rcases bind_ok.mp hrest with ⟨later,_,hrest,hpure⟩
      cases hpure
      rw [List.append_cons] at hnext
      have hone : start++[entry] <+: committed := (List.prefix_append _ rest).trans hnext
      rcases applyEntry_settles hkept.1 hentry with ⟨⟨v,hpayload⟩,bytes,hencode,hdb⟩
      rcases hids entry (hone.subset (by simp)) with ⟨stored,hstored,hdecode⟩
      rw [hencode] at hstored
      cases hstored
      rcases hholds.settle_mark hone hdone hpassed hdecode with
        ⟨first,hgrown,hinside,hreached,hfirst⟩
      rw [← hdb] at hfirst
      rcases ih hfirst hnext hinside hreached (hkept.2 _ _ hentry) hrest with
        ⟨⟨done',hgrown',hinside',hreached',hholds'⟩,hanswers⟩
      rw [← List.append_cons] at hreached'
      refine ⟨⟨done',hgrown.trans hgrown',hinside',hreached',hholds'⟩,?_⟩
      rw [List.zip_cons_cons]
      exact List.forall_mem_cons.mpr ⟨answered_entry hholds hone hdone hpassed hpayload,hanswers⟩

/-- A batch which was answered. -/
theorem applyToStateMachine_sound {entries : List Entry} {responses : List LedgerResponse}
    (hids : ∀ e ∈ committed, StorableId cbor e.logId)
    (hholds : Holds blake3 backend cbor done s.db) (hnext : start++entries <+: committed)
    (hdone : done <+: committed) (hpassed : start <+: done)
    (hkept : LosesNone blake3 backend cbor entries s)
    (hrun : (applyToStateMachine blake3 backend cbor entries).run s = (.ok responses,t)) :
    (∃ done', done <+: done' ∧ done' <+: committed ∧ start++entries <+: done' ∧
        Holds blake3 backend cbor done' t.db) ∧
      ∀ answer ∈ entries.zip responses, Answered blake3 backend committed answer := by
  rcases ofExcept_bind_ok.mp hrun with ⟨lastMembership,-,hbatch⟩
  rcases bind_ok.mp (mapFailure_ok.mp hbatch) with ⟨_,u,hentries,hrest⟩
  rcases bind_ok.mp hrest with ⟨_,v,hsave,hpure⟩
  cases hpure
  rcases applyEntries_sound hids hholds hnext hdone hpassed hkept hentries with
    ⟨⟨done',hgrown,hinside,hreached,hholds'⟩,hanswers⟩
  exact ⟨⟨done',hgrown,hinside,hreached,hholds'.congr (saveLastMembership_ok hsave)⟩,hanswers⟩

/-- The entries of a batch however it ended. -/
theorem applyEntries_stopped {entries : List Entry}
    (hids : ∀ e ∈ committed, StorableId cbor e.logId)
    (hholds : Holds blake3 backend cbor done s.db) (hnext : start++entries <+: committed)
    (hdone : done <+: committed) (hpassed : start <+: done)
    (hkept : LosesNone blake3 backend cbor entries s) :
    ∃ done', done' <+: committed ∧
      Holds blake3 backend cbor done' ((applyEntries blake3 backend cbor entries).run s).2.db := by
  induction entries generalizing start done s with
  | nil => exact ⟨done,hdone,hholds⟩
  | cons entry rest ih =>
      rw [List.append_cons] at hnext
      have hone : start++[entry] <+: committed := (List.prefix_append _ rest).trans hnext
      rw [applyEntries,bind_run]
      cases hentry : (applyEntry blake3 backend cbor entry).run s with
      | mk r u =>
        cases r with
        | error e =>
            rcases applyEntry_stops hentry with hdb | hdb
            · exact ⟨done,hdone,hdb ▸ hholds⟩
            · rcases hholds.settle hone hdone hpassed with ⟨done',-,hinside,-,hsettled⟩
              exact ⟨done',hinside,hdb ▸ hsettled⟩
        | ok response =>
            rcases applyEntry_settles hkept.1 hentry with ⟨-,bytes,hencode,hdb⟩
            rcases hids entry (hone.subset (by simp)) with ⟨stored,hstored,hdecode⟩
            rw [hencode] at hstored
            cases hstored
            rcases hholds.settle_mark hone hdone hpassed hdecode with ⟨first,-,hinside,hreached,hfirst⟩
            rw [← hdb] at hfirst
            have hrest := ih hfirst hnext hinside hreached (hkept.2 _ _ hentry)
            rcases hrest with ⟨done',hinside',hholds'⟩
            exact ⟨done',hinside',keeps_after (fun _ => keeps_pure _) hholds'⟩

/-- A batch however it ended. -/
theorem applyToStateMachine_stopped {entries : List Entry}
    (hids : ∀ e ∈ committed, StorableId cbor e.logId)
    (hholds : Holds blake3 backend cbor done s.db) (hnext : start++entries <+: committed)
    (hdone : done <+: committed) (hpassed : start <+: done)
    (hkept : LosesNone blake3 backend cbor entries s) :
    ∃ done', done' <+: committed ∧ Holds blake3 backend cbor done'
      ((applyToStateMachine blake3 backend cbor entries).run s).2.db := by
  cases hmembership : latestMembership cbor none entries with
  | error e =>
      have hnone : ((applyToStateMachine blake3 backend cbor entries).run s).2 = s := by
        rw [applyToStateMachine,hmembership]
        rfl
      rw [hnone]
      exact ⟨done,hdone,hholds⟩
  | ok lastMembership =>
      rcases applyEntries_stopped hids hholds hnext hdone hpassed hkept with ⟨done',hinside,hentries⟩
      refine ⟨done',hinside,?_⟩
      rw [applyToStateMachine,hmembership]
      exact keeps_after (fun _ => keeps_bind (keeps_saveLastMembership
        (Holds.ignoresMeta (by decide)) lastMembership) fun _ => keeps_pure _) hentries

end Batches

section Nodes
variable {blake3 : Bytes → Hash} {backend : ProofBackend} {cbor : Cbor}
  {committed committed' done : List Entry} {node : Node}

variable (blake3 backend cbor) in
/-- The position of a node is the part of the log whose entries its tables hold. -/
def logTracking (committed : List Entry) : Tracking cbor (List Entry) where
  Fits done db := done <+: committed ∧ Holds blake3 backend cbor done db
  Has done id := Reached done id
  ignoresLog _ db table h := ⟨h.1,Holds.ignoresLog db table h.2⟩
  ignoresMeta _ _ hkey db table hothers h := ⟨h.1,Holds.ignoresMeta hkey db table hothers h.2⟩
  marker done db id h hread := by
    rcases h.2.marker with ⟨found,hfound,hreached⟩
    rw [hread] at hfound
    cases hfound
    exact hreached

theorem logTracking_grows (hextends : committed <+: committed') (done : List Entry) (db : Db)
    (h : (logTracking blake3 backend cbor committed).Fits done db) :
    (logTracking blake3 backend cbor committed').Fits done db := ⟨h.1.trans hextends,h.2⟩

theorem reached_batchEnd {lastApplied : Option LogId} {start entries : List Entry}
    (h : Reached done lastApplied) (hentries : start++entries <+: done) :
    Reached done (batchEnd lastApplied entries) := by
  rw [batchEnd]
  cases hlast : entries.getLast? with
  | none => exact h
  | some e =>
      have hmem := List.mem_of_getLast? hlast
      exact ⟨e,hentries.subset (List.mem_append_right start hmem),rfl⟩

/-- The node behind a batch, and what it answered. -/
theorem standing_applied {lastApplied : Option LogId} {entries : List Entry}
    {faults : ℕ → Option String}
    {outcome : Except StorageError (List LedgerResponse) × Ledger}
    (hascending : Ascending committed) (hids : ∀ e ∈ committed, StorableId cbor e.logId)
    (h : (logTracking blake3 backend cbor committed).Standing done node)
    (hup : node.lastApplied = some lastApplied)
    (hnext : entries <+: behind committed lastApplied)
    (hkept : LosesNone blake3 backend cbor entries (node.session faults))
    (hrun : (applyToStateMachine blake3 backend cbor entries).run (node.session faults) = outcome) :
    (∃ done', (logTracking blake3 backend cbor committed).Standing done'
        (node.applied lastApplied entries outcome)) ∧
      ∀ answer ∈ answers entries outcome.1, Answered blake3 backend committed answer := by
  rcases outcome with ⟨result,t⟩
  rcases h.fits with ⟨hdone,hholds⟩
  have hreached : Reached done lastApplied := h.lastApplied lastApplied hup
  rcases behind_split hascending hdone hreached with ⟨start,hsplit,hpassed⟩
  have hbatch : start++entries <+: committed := by
    rw [← hsplit]
    exact (List.prefix_append_right_inj start).mpr hnext
  cases result with
  | error e =>
      rcases applyToStateMachine_stopped (s := node.session faults) hids hholds hbatch hdone
        hpassed hkept with ⟨done',hinside,hstopped⟩
      rw [hrun] at hstopped
      refine ⟨⟨done',⟨hinside,hstopped⟩,?_,trivial⟩,fun _ hmem => (List.not_mem_nil hmem).elim⟩
      intro id hid
      cases hid
  | ok responses =>
      rcases applyToStateMachine_sound (s := node.session faults) hids hholds hbatch hdone
        hpassed hkept hrun with ⟨⟨done',hgrown,hinside,hall,hfinished⟩,hanswers⟩
      refine ⟨⟨done',⟨hinside,hfinished⟩,?_,?_⟩,hanswers⟩
      · intro id hid
        cases hid
        exact reached_batchEnd (hreached.mono hgrown) hall
      · have hdraws : Draws (applyToStateMachine blake3 backend cbor entries) :=
          draws_bind (draws_ofExcept _) fun _ =>
            (commits_applyRaftEntries blake3 backend cbor _ _).draws
        have hworld := (hdraws (node.session faults)).1
        rw [hrun] at hworld
        change Tracking.Prepared _ done' t.world.files node.phase
        rw [hworld]
        exact h.prepared.moved fun id hid => Reached.mono hid hgrown

end Nodes

section Runs
variable {N : Type} {blake3 : Bytes → Hash} {backend : ProofBackend} {cbor : Cbor} {σ τ : Cluster N}

variable (blake3 backend cbor) in
structure Sound (σ : Cluster N) : Prop where
  ascending : Ascending σ.committed
  ids : ∀ e ∈ σ.committed, StorableId cbor e.logId
  tracked : (logTracking blake3 backend cbor σ.committed).Tracked σ
  answered : ∀ answer ∈ σ.answered, Answered blake3 backend σ.committed answer

theorem sound_initial : Sound blake3 backend cbor (Cluster.initial N) where
  ascending := List.Pairwise.nil
  ids _ he := (List.not_mem_nil he).elim
  tracked := Tracking.tracked_initial (p := []) ⟨List.prefix_rfl,holds_empty⟩
  answered _ hanswer := (List.not_mem_nil hanswer).elim

variable [DecidableEq N]

theorem Sound.step (h : Sound blake3 backend cbor σ)
    (hstep : Step blake3 backend cbor (LosesNone blake3 backend cbor) σ τ) :
    Sound blake3 backend cbor τ := by
  cases hstep with
  | @commit entry hahead hid =>
      have hgrown : σ.committed <+: σ.committed++[entry] := List.prefix_append _ _
      refine ⟨?_,?_,⟨?_,?_⟩,?_⟩
      · apply List.pairwise_append.mpr
        refine ⟨h.ascending,List.pairwise_singleton _ _,?_⟩
        intro e he other hother
        rw [List.mem_singleton.mp hother]
        exact hahead e he
      · exact List.forall_mem_append.mpr ⟨h.ids,List.forall_mem_singleton.mpr hid⟩
      · intro n
        rcases h.tracked.nodes n with ⟨done,hstanding⟩
        exact ⟨done,hstanding.imp (logTracking_grows hgrown) fun _ _ hid => hid⟩
      · intro built hbuilt
        have hgood := h.tracked.offered built hbuilt
        exact ⟨hgood.1.imp (logTracking_grows hgrown) fun _ _ hid => hid,hgood.2⟩
      · exact fun answer hanswer => (h.answered answer hanswer).mono hgrown
  | @act n node hlocal => exact { h with tracked := h.tracked.act hlocal }
  | @offer n built hphase => exact { h with tracked := h.tracked.offer hphase }
  | @apply n lastApplied entries faults outcome hup hnext hkept hrun =>
      rcases h.tracked.nodes n with ⟨done,hstanding⟩
      have hbatch := standing_applied h.ascending h.ids hstanding hup hnext hkept hrun
      have hput := h.tracked.put (n := n) hbatch.1
      exact { h with
        tracked := ⟨hput.nodes,hput.offered⟩
        answered := List.forall_mem_append.mpr ⟨h.answered,hbatch.2⟩ }

theorem sound_reachable (h : Lossless blake3 backend cbor σ) : Sound blake3 backend cbor σ := by
  induction h with
  | initial => exact sound_initial
  | step _ hstep ih => exact ih.step hstep

end Runs

/-- Two claims of two leaves, as the first entries of a log. -/
def mixedEntries : List Entry :=
  [⟨mixedLogId 1,.normal (firstCommand [1])⟩,⟨mixedLogId 2,.normal secondCommand⟩]

theorem mixedEntries_storable : ∀ e ∈ mixedEntries, StorableId mixedCbor e.logId := by
  intro e he
  rcases List.mem_cons.mp he with he | he
  · rw [he]
    exact ⟨mixedLogBytes 1,rfl,rfl⟩
  · rw [List.mem_singleton.mp he]
    exact ⟨mixedLogBytes 2,rfl,rfl⟩

theorem applyEntries_accepts {blake3 : Bytes → Hash} {backend : ProofBackend} {cbor : Cbor}
    {command : LedgerCommand} {logId : LogId} {bytes : Bytes} {db : Db} (outside : Outside)
    {rest : List Entry} {responses : List LedgerResponse} {t : Ledger}
    (hok : Acceptable blake3 backend command db) (hencode : cbor.logId.encode logId = .ok bytes)
    (hrest : (applyEntries blake3 backend cbor rest).run (calmAt { applied blake3 command db with
      raftMeta := db.raftMeta.insert .lastAppliedLogId bytes } outside) = (.ok responses,t)) :
    (applyEntries blake3 backend cbor (⟨logId,.normal command⟩::rest)).run (calmAt db outside) =
      (.ok (.ofAccepted::responses),t) :=
  bind_ok.mpr ⟨_,_,applyEntry_accepts blake3 backend cbor hok hencode,bind_ok.mpr ⟨_,_,hrest,rfl⟩⟩

theorem mixedEntries_run (outside : Outside) :
    ∃ t : Ledger, (applyToStateMachine singleChunkHash mixedBackend mixedCbor mixedEntries).run
        (calmAt emptyDb outside) = (.ok [.ofAccepted,.ofAccepted],t) ∧
      metaValue mixedCbor.logId .lastAppliedLogId t.db = .ok (some (mixedLogId 2)) := by
  have hfirst : mixedCbor.logId.encode (mixedLogId 1) = .ok (mixedLogBytes 1) := rfl
  have hsecond : mixedCbor.logId.encode (mixedLogId 2) = .ok (mixedLogBytes 2) := rfl
  have hend (db : Db) : (applyEntries singleChunkHash mixedBackend mixedCbor []).run
      (calmAt db outside) = (.ok [],calmAt db outside) := rfl
  have hrun := applyEntries_accepts outside mixed_compatible.acceptable_first hfirst
    (applyEntries_accepts outside (mixed_compatible.acceptable_second _) hsecond (hend _))
  refine ⟨_,ofExcept_bind_ok.mpr ⟨none,rfl,mapFailure_ok.mpr
    (bind_ok.mpr ⟨_,_,hrun,bind_ok.mpr ⟨(),_,rfl,rfl⟩⟩)⟩,?_⟩
  rw [metaValue,calmAt_db,Finmap.lookup_insert]
  rfl

/-- Two nodes; both entries are committed and the first node has started. -/
def mixedStarted : Cluster Bool :=
  ({ Cluster.initial Bool with committed := mixedEntries }).put true
    ⟨emptyDb,⟨∅,false⟩,some none,.ready⟩

theorem mixedStarted_reachable : Lossless singleChunkHash mixedBackend mixedCbor mixedStarted := by
  have hfirst : Lossless singleChunkHash mixedBackend mixedCbor
      { Cluster.initial Bool with committed := [⟨mixedLogId 1,.normal (firstCommand [1])⟩] } :=
    .step .initial (.commit nofun (mixedEntries_storable _ List.mem_cons_self))
  have hsecond : Lossless singleChunkHash mixedBackend mixedCbor
      { Cluster.initial Bool with committed := mixedEntries } := by
    refine .step hfirst (.commit ?_
      (mixedEntries_storable _ (List.mem_cons_of_mem _ List.mem_cons_self)))
    intro e he
    rw [List.mem_singleton.mp he]
    decide
  exact .step hsecond (.act (.start rfl))

/-- Of two nodes the first has applied both entries and the second none. -/
theorem mixed_cluster :
    ∃ σ : Cluster Bool, Lossless singleChunkHash mixedBackend mixedCbor σ ∧
      σ.committed = mixedEntries ∧
      σ.answered = mixedEntries.zip [.ofAccepted,.ofAccepted] ∧
      metaValue mixedCbor.logId .lastAppliedLogId (σ.nodes true).db = .ok (some (mixedLogId 2)) ∧
      (σ.nodes false).db = emptyDb := by
  rcases mixedEntries_run ⟨∅,false⟩ with ⟨t,hrun,hmarker⟩
  have hnode : mixedStarted.nodes true = ⟨emptyDb,⟨∅,false⟩,some none,.ready⟩ :=
    Cluster.put_self _ true _
  have hup : (mixedStarted.nodes true).lastApplied = some none := by rw [hnode]
  have hsession : (mixedStarted.nodes true).session (fun _ => none) = calmAt emptyDb ⟨∅,false⟩ := by
    rw [hnode]
    rfl
  rw [← hsession] at hrun
  have hnext : mixedEntries <+: behind mixedStarted.committed none := List.prefix_rfl
  have hkept := @losesNone_calm singleChunkHash mixedBackend mixedCbor mixedEntries emptyDb ⟨∅,false⟩
  rw [← hsession] at hkept
  have hreachable := mixedStarted_reachable.step (.apply hup hnext hkept hrun)
  refine ⟨_,hreachable,rfl,rfl,?_,?_⟩
  · dsimp only
    rw [Cluster.put_self]
    exact hmarker
  · dsimp only
    rw [Cluster.put_of_ne mixedStarted Bool.false_ne_true,mixedStarted,
      Cluster.put_of_ne _ Bool.false_ne_true]
    rfl

section Runs
variable {N : Type} [DecidableEq N] {blake3 : Bytes → Hash} {backend : ProofBackend} {cbor : Cbor}
  {σ : Cluster N}

/-- However the log was batched, wherever nodes stopped and whichever snapshots they installed:
the tables of a node are those of the first entries of the log, its marker is the id of one of
them, and of any two nodes one has every row of the other. -/
theorem replicas_never_fork (h : Lossless blake3 backend cbor σ) (n m : N) :
    (∃ k, SameClaims (σ.nodes n).db (ledgerOf blake3 backend (σ.committed.take k)) ∧
        ∃ id, metaValue cbor.logId .lastAppliedLogId (σ.nodes n).db = .ok id ∧
          Reached (σ.committed.take k) id) ∧
      (Contained (σ.nodes n).db (σ.nodes m).db ∨ Contained (σ.nodes m).db (σ.nodes n).db) := by
  have hsound := sound_reachable h
  rcases hsound.tracked.nodes n with ⟨done,hn⟩
  rcases hsound.tracked.nodes m with ⟨other,hm⟩
  rcases hn.fits with ⟨hdone,hholds⟩
  rcases hm.fits with ⟨hother,hholds'⟩
  constructor
  · have htake := List.prefix_iff_eq_take.mp hdone
    refine ⟨done.length,?_⟩
    rw [← htake]
    exact ⟨hholds.claims,hholds.marker⟩
  · have hsame {a b : Db} (hab : SameClaims a b) : SameClaims b a :=
      ⟨hab.nullifiers.symm,hab.utxos.symm⟩
    have htables {a b : Db} {first second : List Entry}
        (ha : SameClaims a (ledgerOf blake3 backend first))
        (hb : SameClaims b (ledgerOf blake3 backend second))
        (hle : Contained (ledgerOf blake3 backend first) (ledgerOf blake3 backend second)) :
        Contained a b :=
      (Contained.of_sameClaims ha).trans (hle.trans (Contained.of_sameClaims (hsame hb)))
    rcases (settle_absorbing blake3 backend).comparable hdone hother emptyDb with hle | hle
    · exact Or.inl (htables hholds.claims hholds'.claims hle)
    · exact Or.inr (htables hholds'.claims hholds.claims hle)

/-- Batches which nothing interrupts lead to the end of the log. -/
theorem Holds.applyBatches {committed done start : List Entry} {batches : List (List Entry)} {db : Db}
    (hids : ∀ e ∈ committed, StorableId cbor e.logId)
    (hmemberships : StorableMemberships cbor committed) (h : Holds blake3 backend cbor done db)
    (hdone : done <+: committed) (hpassed : start <+: done)
    (hbatches : start++batches.flatten = committed) (outside : Outside) :
    ∃ final, (CrashRecovery.applyBatches blake3 backend cbor batches).run (calmAt db outside) =
        (.ok (),final) ∧ Holds blake3 backend cbor committed final.db := by
  induction batches generalizing start done db with
  | nil =>
      rw [List.flatten_nil,List.append_nil] at hbatches
      rw [← hbatches] at hdone ⊢
      rw [← hpassed.eq_of_length_le hdone.length_le] at h
      exact ⟨_,rfl,h⟩
  | cons entries rest ih =>
      rw [List.flatten_cons,← List.append_assoc] at hbatches
      have hnext : start++entries <+: committed := by
        rw [← hbatches]
        exact List.prefix_append _ _
      have hmem : ∀ e ∈ entries, e ∈ committed := fun e he =>
        hnext.subset (List.mem_append_right start he)
      rcases (@latestMembership_ok cbor none entries).mpr fun e he => hmemberships e (hmem e he) with
        ⟨lastMembership,hmembership⟩
      have hencode : ∀ e ∈ entries, ∃ bytes, cbor.logId.encode e.logId = .ok bytes := by
        intro e he
        rcases hids e (hmem e he) with ⟨bytes,hbytes,-⟩
        exact ⟨bytes,hbytes⟩
      rcases @applyToStateMachine_calm blake3 backend cbor entries lastMembership db outside
        hmembership hencode with ⟨responses,hrun⟩
      rcases (applyToStateMachine_sound hids h hnext hdone hpassed losesNone_calm hrun).1 with
        ⟨done',-,hinside,hreached,hholds⟩
      rcases ih hholds hinside hreached hbatches with ⟨final,hrest,hfinal⟩
      exact ⟨final,bind_ok.mpr ⟨_,_,hrun,hrest⟩,hfinal⟩

/-- From every reachable state every node can catch up: over the entries behind its own marker,
or by any offered snapshot and the entries behind what its metadata states, in any batches. Its
tables are then those of the whole log. -/
theorem every_node_can_catch_up (h : Lossless blake3 backend cbor σ)
    (hmemberships : StorableMemberships cbor σ.committed) (n : N) :
    (∃ id, metaValue cbor.logId .lastAppliedLogId (σ.nodes n).db = .ok id ∧
        ∀ batches outside, batches.flatten = behind σ.committed id →
          ∃ final, (applyBatches blake3 backend cbor batches).run (calmAt (σ.nodes n).db outside) =
              (.ok (),final) ∧
            SameClaims final.db (ledgerOf blake3 backend σ.committed)) ∧
      ∀ built ∈ σ.offered, ∀ batches files,
        batches.flatten = behind σ.committed built.metadata.lastLogId →
          ∃ installed final,
            (installSnapshot cbor built.metadata built.contents).run
              (calmAt (σ.nodes n).db ⟨files,false⟩) = (.ok (),installed) ∧
            (applyBatches blake3 backend cbor batches).run installed = (.ok (),final) ∧
            SameClaims final.db (ledgerOf blake3 backend σ.committed) := by
  have hsound := sound_reachable h
  constructor
  · rcases hsound.tracked.nodes n with ⟨done,hstanding⟩
    rcases hstanding.fits with ⟨hdone,hholds⟩
    rcases hholds.marker with ⟨id,hid,hreached⟩
    refine ⟨id,hid,?_⟩
    intro batches outside hbatches
    rcases behind_split hsound.ascending hdone hreached with ⟨start,hsplit,hpassed⟩
    rw [← hbatches] at hsplit
    rcases hholds.applyBatches hsound.ids hmemberships hdone hpassed hsplit outside with
      ⟨final,hrun,hfinal⟩
    exact ⟨final,hrun,hfinal.claims⟩
  · intro built hbuilt batches files hbatches
    rcases hsound.tracked.offered built hbuilt with
      ⟨⟨done,restored,hcontents,⟨hinside,hholds⟩,hreached⟩,bytes,hencode⟩
    have hinstall := installSnapshot_calm hencode (σ.nodes n).db restored files
    have hrestored : Holds blake3 backend cbor done
        { restored with raftMeta := restored.raftMeta.insert .snapshotMeta bytes } :=
      hholds.congr ⟨⟨rfl,rfl⟩,Finmap.lookup_insert_of_ne _ (by decide)⟩
    rcases behind_split hsound.ascending hinside hreached with ⟨start,hsplit,hpassed⟩
    rw [← hbatches] at hsplit
    rcases hrestored.applyBatches hsound.ids hmemberships hinside hpassed hsplit
      ⟨files.erase (snapshotFile built.metadata.snapshotId),false⟩ with ⟨final,hrun,hfinal⟩
    rw [hcontents]
    exact ⟨_,final,hinstall,hrun,hfinal.claims⟩

end Runs

/-- One of the two nodes has every row of the other. -/
theorem mixed_nodes_comparable :
    ∃ σ : Cluster Bool, Lossless singleChunkHash mixedBackend mixedCbor σ ∧
      σ.committed = mixedEntries ∧
      (Contained (σ.nodes true).db (σ.nodes false).db ∨
        Contained (σ.nodes false).db (σ.nodes true).db) := by
  rcases mixed_cluster with ⟨σ,hreachable,hcommitted,-⟩
  exact ⟨σ,hreachable,hcommitted,(replicas_never_fork hreachable true false).2⟩

theorem mixed_memberships : StorableMemberships mixedCbor mixedEntries := by
  intro e he m hpayload
  rcases List.mem_cons.mp he with he | he
  · rw [he] at hpayload
    cases hpayload
  · rw [List.mem_singleton.mp he] at hpayload
    cases hpayload

/-- The second node, which has applied nothing, catches up over both entries. -/
theorem mixed_node_catches_up :
    ∃ (σ : Cluster Bool) (final : Ledger), Lossless singleChunkHash mixedBackend mixedCbor σ ∧
      (applyBatches singleChunkHash mixedBackend mixedCbor [mixedEntries]).run
        (calmAt (σ.nodes false).db ⟨∅,false⟩) = (.ok (),final) ∧
      SameClaims final.db (ledgerOf singleChunkHash mixedBackend mixedEntries) := by
  rcases mixed_cluster with ⟨σ,hreachable,hcommitted,-,-,hempty⟩
  have hmemberships : StorableMemberships mixedCbor σ.committed := by
    rw [hcommitted]
    exact mixed_memberships
  rcases (every_node_can_catch_up hreachable hmemberships false).1 with ⟨id,hid,hbatches⟩
  have hnone : id = none := by
    rw [hempty] at hid
    cases hid
    rfl
  rw [hnone,hcommitted] at hbatches
  rcases hbatches [mixedEntries] ⟨∅,false⟩ rfl with ⟨final,hrun,hfinal⟩
  exact ⟨σ,final,hreachable,hrun,hfinal⟩

end OmegaHarness.ClusterRuns
