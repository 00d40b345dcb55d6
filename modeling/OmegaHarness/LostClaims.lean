import OmegaHarness.ClusterSafety

/-!
# Runs which lose claims

Any statement of a batch may fail. A statement of a claim which fails on its own makes the node
answer the claim with a rejection and go on: its marker passes the entry, which is not among those
that it is handed behind the marker. Its tables are then those of no part of the log which reaches
the marker.

What a node guarantees by itself does not depend on that. Its tables hold the rows of commands
which it has accepted one after the other, so each claimed leaf has one output, and what it
answers to a claim is true of the tables it had then.
-/
namespace OmegaHarness.LostClaims
open DomainHashes ClaimTypes ClaimVerifier FaultyTransactions FaultStreams CommitPrefixes KeyedTables
open LedgerStore RaftTypes ClaimApplication LedgerWriter WriterFrames ClaimStatements
open RaftStorage EntryCommits ReplicaAgreement CrashRecovery AbsorbingLogs ClusterRuns
open Blake3Compression MintedValues SubmittedCommitments ClaimUniqueness
open LedgerHistory hiding Reachable
open ReplayClasses (Claimed IsInternal)

section Tables
variable (blake3 : Bytes → Hash) (backend : ProofBackend) (cbor : Cbor)

/-- The tables hold the rows of commands which were accepted one after the other. -/
def Tabled (db : Db) : Prop := ∃ commands, Recorded blake3 backend commands db

theorem tabled_ledgerOnly : LedgerOnly (Tabled blake3 backend) := by
  intro db db' hnullifiers hutxos h
  rcases h with ⟨commands,hrecorded⟩
  exact ⟨commands,recorded_ledgerOnly blake3 backend commands db db' hnullifiers hutxos hrecorded⟩

/-- Nothing is known of a node but that its tables are such. -/
def tableTracking : Tracking cbor Unit where
  Fits _ db := Tabled blake3 backend db
  Has _ _ := True
  ignoresLog _ := (tabled_ledgerOnly blake3 backend).ignoresLog
  ignoresMeta _ key _ := (tabled_ledgerOnly blake3 backend).ignoresMeta key
  marker _ _ _ _ _ := trivial

theorem keeps_tabled_batch (entries : List Entry) :
    Keeps (Tabled blake3 backend) (applyToStateMachine blake3 backend cbor entries) := by
  refine keeps_bind (keeps_ofExcept _) fun lastMembership => keeps_throughWriter ?_
  intro s h
  rcases h with ⟨commands,hrecorded⟩
  exact ⟨_,recorded_applyRaftEntries blake3 backend cbor hrecorded entries lastMembership⟩

end Tables

section Runs
variable {N : Type} {blake3 : Bytes → Hash} {backend : ProofBackend} {cbor : Cbor}
  {σ τ : Cluster N} {admits : List Entry → Ledger → Prop}

/-- The answers of a batch are what its payloads answered on the way. -/
theorem applyEntries_answers {entries : List Entry} {responses : List LedgerResponse} {s t : Ledger}
    (h : (applyEntries blake3 backend cbor entries).run s = (.ok responses,t)) :
    ∀ answer ∈ entries.zip responses,
      ∃ u v, (applyPayload blake3 backend answer.1.payload).run u = (.ok answer.2,v) := by
  induction entries generalizing s responses with
  | nil => exact fun _ hmem => (List.not_mem_nil hmem).elim
  | cons entry rest ih =>
      rcases bind_ok.mp h with ⟨response,u,hentry,hrest⟩
      rcases bind_ok.mp hrest with ⟨later,_,hrest,hpure⟩
      cases hpure
      rcases bind_ok.mp hentry with ⟨first,v,hpayload,hmark⟩
      rcases ofExcept_bind_ok.mp hmark with ⟨_,-,hmark⟩
      rcases bind_ok.mp hmark with ⟨_,_,-,hpure⟩
      cases hpure
      rw [List.zip_cons_cons]
      exact List.forall_mem_cons.mpr ⟨⟨s,v,hpayload⟩,ih hrest⟩

variable (blake3 backend cbor) in
/-- What every run keeps: tables of accepted commands everywhere, and answers which were true of
some tables when they were given. -/
structure Lawful (σ : Cluster N) : Prop where
  tracked : (tableTracking blake3 backend cbor).Tracked σ
  answered : ∀ answer ∈ σ.answered, ∀ command, answer.1.payload = .normal command →
    ∃ db, ResponseSound blake3 backend command answer.2 db

theorem answers_sound {entries : List Entry} {s : Ledger}
    {outcome : Except StorageError (List LedgerResponse) × Ledger}
    (hrun : (applyToStateMachine blake3 backend cbor entries).run s = outcome) :
    ∀ answer ∈ answers entries outcome.1, ∀ command, answer.1.payload = .normal command →
      ∃ db, ResponseSound blake3 backend command answer.2 db := by
  rcases outcome with ⟨result,t⟩
  cases result with
  | error e => exact fun _ hmem => (List.not_mem_nil hmem).elim
  | ok responses =>
      intro answer hmem command hpayload
      rcases ofExcept_bind_ok.mp hrun with ⟨lastMembership,-,hbatch⟩
      rcases bind_ok.mp (mapFailure_ok.mp hbatch) with ⟨_,u,hentries,hrest⟩
      rcases bind_ok.mp hrest with ⟨_,v,-,hpure⟩
      cases hpure
      rcases applyEntries_answers hentries answer hmem with ⟨x,y,hanswer⟩
      rw [hpayload] at hanswer
      exact ⟨x.db,applyPayload_response hanswer⟩

variable [DecidableEq N]

theorem Lawful.step (h : Lawful blake3 backend cbor σ)
    (hstep : Step blake3 backend cbor admits σ τ) : Lawful blake3 backend cbor τ := by
  cases hstep with
  | commit hahead hid => exact ⟨⟨h.tracked.nodes,h.tracked.offered⟩,h.answered⟩
  | act hlocal => exact ⟨h.tracked.act hlocal,h.answered⟩
  | offer hphase => exact ⟨h.tracked.offer hphase,h.answered⟩
  | @apply n lastApplied entries faults outcome hup hnext hadmits hrun =>
      rcases h.tracked.nodes n with ⟨p,hstanding⟩
      have hdraws : Draws (applyToStateMachine blake3 backend cbor entries) :=
        draws_bind (draws_ofExcept _) fun _ =>
          (commits_applyRaftEntries blake3 backend cbor _ _).draws
      have hcall := hstanding.call hdraws (keeps_tabled_batch blake3 backend cbor entries) faults
      rw [hrun] at hcall
      have hnode : ∃ p, (tableTracking blake3 backend cbor).Standing p
          ((σ.nodes n).applied lastApplied entries outcome) := by
        rcases outcome with ⟨result,t⟩
        cases result with
        | ok responses => exact ⟨p,hcall.fits,fun _ _ => trivial,hcall.prepared⟩
        | error e => exact ⟨p,hcall.fits,fun _ _ => trivial,trivial⟩
      have hput := h.tracked.put (n := n) hnode
      exact ⟨⟨hput.nodes,hput.offered⟩,
        List.forall_mem_append.mpr ⟨h.answered,answers_sound hrun⟩⟩

/-- Whatever fails in a run. -/
theorem lawful_reachable (h : Reachable blake3 backend cbor admits σ) :
    Lawful blake3 backend cbor σ := by
  induction h with
  | initial =>
      exact ⟨Tracking.tracked_initial (p := ()) ⟨[],recorded_empty blake3 backend⟩,
        fun _ hanswer => (List.not_mem_nil hanswer).elim⟩
  | step _ hstep ih => exact ih.step hstep

end Runs

section Forks
variable {blake3 : Bytes → Hash} {backend : ProofBackend} {cbor : Cbor} {entry : Entry}
  {command : LedgerCommand} {db : Db}

/-- One statement fails, and none before or after it. -/
def failsOnce (message : String) (k : ℕ) : ℕ → Option String :=
  fun i => if i = k then some message else none

theorem failsOnce_later {message : String} {k j : ℕ} (h : ∃ i < j, failsOnce message k i ≠ none) :
    later (failsOnce message k) j = fun _ => none := by
  rcases h with ⟨i,hi,hstruck⟩
  have hik : i = k := by
    by_contra hne
    exact hstruck (if_neg hne)
  funext n
  exact if_neg (by omega)

/-- The claim is refused for the ledger's own reasons, and nothing is left of the failure. -/
theorem applyClaimTx_failsOnce (hok : Acceptable blake3 backend command db) (outside : Outside)
    (message : String) {k : ℕ} (hk : k < claimStatements command) :
    ∃ e, IsInternal e ∧ (applyClaimTx blake3 backend command).run
      ⟨db,outside,failsOnce message k⟩ = (.error e,calmAt db outside) := by
  have hstruck : ∃ i < claimStatements command, failsOnce message k i ≠ none :=
    ⟨k,hk,by simp [failsOnce]⟩
  rcases (applyClaimTx_takes blake3 backend hok outside).struck _ hstruck with
    ⟨e,t,j,hrun,hbefore,hleft⟩
  have hdb := atomic_applyClaimTx blake3 backend command _ e t hrun
  have hdraws : Draws (applyClaimTx blake3 backend command) := draws_applyClaimTx command
  have hworld := (hdraws ⟨db,outside,failsOnce message k⟩).1
  rw [hrun] at hworld
  have ht : t = calmAt db outside := by
    rcases t with ⟨tdb,tworld,tfaults⟩
    rw [failsOnce_later hbefore] at hleft
    cases hdb
    cases hworld
    cases hleft
    rfl
  refine ⟨e,?_,by rw [hrun,ht]⟩
  rcases applyClaimTx_error hrun with hinternal | ⟨-,p,hp,hkey⟩ | ⟨-,hrefused⟩
  · exact hinternal
  · exact absurd hkey (hok.unclaimed blake3 p hp).2
  · exact absurd hok (hrefused db)

/-- The batch of that entry is answered all the same, and the marker moves on. -/
theorem applyToStateMachine_failsOnce {bytes : Bytes} (hpayload : entry.payload = .normal command)
    (hok : Acceptable blake3 backend command db) (hencode : cbor.logId.encode entry.logId = .ok bytes)
    (outside : Outside) (message : String) {k : ℕ} (hk : k < claimStatements command) :
    ∃ e, IsInternal e ∧ (applyToStateMachine blake3 backend cbor [entry]).run
        ⟨db,outside,failsOnce message k⟩ =
      (.ok [.rejected e],calmAt (putMeta .lastAppliedLogId bytes db) outside) := by
  rcases applyClaimTx_failsOnce hok outside message hk with ⟨e,hinternal,hclaim⟩
  have hanswer : (applyPayload blake3 backend entry.payload).run ⟨db,outside,failsOnce message k⟩ =
      (.ok (.rejected e),calmAt db outside) := by
    rw [hpayload,applyPayload,bind_run,attempt_run,hclaim]
    rfl
  have hsave : (saveRaftMeta .lastAppliedLogId (some bytes)).run (calmAt db outside) =
      (.ok (),calmAt (putMeta .lastAppliedLogId bytes db) outside) :=
    execute_calm.mpr ⟨_,rfl,rfl⟩
  have hentry : (applyEntry blake3 backend cbor entry).run ⟨db,outside,failsOnce message k⟩ =
      (.ok (.rejected e),calmAt (putMeta .lastAppliedLogId bytes db) outside) :=
    bind_ok.mpr ⟨_,_,hanswer,ofExcept_bind_ok.mpr
      ⟨bytes,FallibleSteps.mapError_ok.mpr hencode,bind_ok.mpr ⟨_,_,hsave,rfl⟩⟩⟩
  have hmembership : latestMembership cbor none [entry] = .ok none := by
    simp [latestMembership,hpayload]
  refine ⟨e,hinternal,ofExcept_bind_ok.mpr ⟨none,hmembership,mapFailure_ok.mpr ?_⟩⟩
  exact bind_ok.mpr ⟨_,_,bind_ok.mpr ⟨_,_,hentry,bind_ok.mpr ⟨_,_,rfl,rfl⟩⟩,
    bind_ok.mpr ⟨(),_,rfl,rfl⟩⟩

/-- A ledger which would still accept a claim is not that of a log with the claim in it. -/
theorem not_ledgerOf_of_acceptable {entries : List Entry} (hpayload : entry.payload = .normal command)
    (hok : Acceptable blake3 backend command db) (hinputs : claimInputs command.claim ≠ [])
    (hmem : entry ∈ entries) : ¬SameClaims db (ledgerOf blake3 backend entries) := by
  intro hsame
  rcases List.append_of_mem hmem with ⟨before,after,hsplit⟩
  have hwhole : Contained (ledgerOf blake3 backend entries) db :=
    Contained.of_sameClaims ⟨hsame.nullifiers.symm,hsame.utxos.symm⟩
  have hprefix : before++[entry] <+: entries := ⟨after,by rw [hsplit]; simp⟩
  have hbefore : Acceptable blake3 backend command (ledgerOf blake3 backend before) :=
    ((ledgerOf_contained ((List.prefix_append _ _).trans hprefix)).trans hwhole).acceptable hok
  have hafter := ((ledgerOf_contained hprefix).trans hwhole).acceptable hok
  rw [ledgerOf_accepts hpayload hbefore] at hafter
  exact not_acceptable_applied hinputs hbefore hafter

/-- An index of a log belongs to one entry. -/
theorem ascending_inj {entries : List Entry} (h : Ascending entries) {a b : Entry} (ha : a ∈ entries)
    (hb : b ∈ entries) (hindex : a.logId.index = b.logId.index) : a = b := by
  have hnodup : (entries.map fun e => e.logId.index).Nodup :=
    (List.pairwise_map.mpr h).imp fun hless => UInt64.ne_of_lt hless
  exact List.inj_on_of_nodup_map hnodup ha hb hindex

variable {N : Type} [DecidableEq N] {σ : Cluster N}

/-- One failing statement is enough. Whichever statement of a claim it is, the node answers the claim
with an internal error, its marker is at the entry, the entry is not behind the marker, and its
tables are those of no part of the log which reaches the marker. -/
theorem lost_claim_forks (h : Lossless blake3 backend cbor σ) {n : N} {lastApplied : Option LogId}
    {rest : List Entry} (hup : (σ.nodes n).lastApplied = some lastApplied)
    (hnext : behind σ.committed lastApplied = entry::rest) (hpayload : entry.payload = .normal command)
    (hok : Acceptable blake3 backend command (σ.nodes n).db) (hinputs : claimInputs command.claim ≠ [])
    (message : String) {k : ℕ} (hk : k < claimStatements command) :
    ∃ τ e, Step blake3 backend cbor (fun _ s => s.faults = failsOnce message k) σ τ ∧
      τ.committed = σ.committed ∧ τ.answered = σ.answered++[(entry,.rejected e)] ∧
      rejectClass e = .internal ∧
      metaValue cbor.logId .lastAppliedLogId (τ.nodes n).db = .ok (some entry.logId) ∧
      entry ∉ behind τ.committed (some entry.logId) ∧
      ¬∃ j, SameClaims (τ.nodes n).db (ledgerOf blake3 backend (τ.committed.take j)) ∧
        Reached (τ.committed.take j) (some entry.logId) := by
  have hsound := sound_reachable h
  have hmem : entry ∈ σ.committed := by
    have hsub : ∀ e ∈ behind σ.committed lastApplied, e ∈ σ.committed := by
      cases lastApplied with
      | none => exact fun e he => he
      | some id => exact fun e he => List.mem_of_mem_filter he
    exact hsub entry (hnext ▸ List.mem_cons_self)
  rcases hsound.ids entry hmem with ⟨bytes,hencode,hdecode⟩
  rcases applyToStateMachine_failsOnce hpayload hok hencode (σ.nodes n).outside message hk with
    ⟨e,hinternal,hrun⟩
  have hbatch : [entry] <+: behind σ.committed lastApplied := by
    rw [hnext]
    exact ⟨rest,rfl⟩
  have hstep : Step blake3 backend cbor (fun _ s => s.faults = failsOnce message k) σ _ :=
    .apply hup hbatch rfl hrun
  refine ⟨_,e,hstep,rfl,rfl,hinternal,?_,?_,?_⟩
  · dsimp only
    rw [Cluster.put_self]
    dsimp only [Node.applied,Node.after,calmAt]
    rw [metaValue,putMeta,Finmap.lookup_insert]
    dsimp only
    rw [hdecode]
    rfl
  · intro hagain
    have hless := (List.mem_filter.mp hagain).2
    simp at hless
  · intro hpart
    rcases hpart with ⟨j,hsame,e',he',hid⟩
    have hentry : e' = entry :=
      ascending_inj hsound.ascending (List.mem_of_mem_take he') hmem (congrArg LogId.index hid)
    dsimp only at hsame
    rw [Cluster.put_self] at hsame
    rw [hentry] at he'
    exact not_ledgerOf_of_acceptable hpayload hok hinputs he' ⟨hsame.nullifiers,hsame.utxos⟩

end Forks

/-- The first `BEGIN` of a node fails: its marker is at the first claim, and its tables are empty. -/
theorem first_claim_lost :
    ∃ (τ : Cluster Bool) (e : LedgerError),
      Step singleChunkHash mixedBackend mixedCbor (fun _ s => s.faults = failsOnce "disk I/O error" 0)
        mixedStarted τ ∧
      rejectClass e = .internal ∧
      metaValue mixedCbor.logId .lastAppliedLogId (τ.nodes true).db = .ok (some (mixedLogId 1)) ∧
      ¬∃ j, SameClaims (τ.nodes true).db
          (ledgerOf singleChunkHash mixedBackend (τ.committed.take j)) ∧
        Reached (τ.committed.take j) (some (mixedLogId 1)) := by
  have hup : (mixedStarted.nodes true).lastApplied = some none := by
    rw [mixedStarted,Cluster.put_self]
  have hok : Acceptable singleChunkHash mixedBackend (firstCommand [1])
      (mixedStarted.nodes true).db := by
    rw [mixedStarted,Cluster.put_self]
    exact mixed_compatible.acceptable_first
  rcases lost_claim_forks mixedStarted_reachable hup rfl rfl hok (List.cons_ne_nil _ _)
    "disk I/O error" (k := 0) (Nat.succ_pos _) with ⟨τ,e,hstep,-,-,hclass,hmarker,-,hforked⟩
  exact ⟨τ,e,hstep,hclass,hmarker,hforked⟩

end OmegaHarness.LostClaims
