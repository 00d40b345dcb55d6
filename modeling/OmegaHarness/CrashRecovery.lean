import OmegaHarness.ReplicaAgreement

/-!
# Crashes and restarts of a node

A node applies the committed entries in batches. A crash leaves the database after
some of the first commits of the running batch, and a restarted node continues with
the entries behind the persisted marker. An entry whose rows were committed without
its marker is applied again, which the replay check turns into nothing, so the node
ends where one uninterrupted run ends.
-/
namespace OmegaHarness.CrashRecovery
open DomainHashes ClaimTypes ClaimVerifier FaultyTransactions FaultStreams CommitPrefixes KeyedTables
open LedgerStore RaftTypes ClaimApplication LedgerWriter LedgerHistory ClaimStatements RaftStorage
open EntryCommits Blake3Compression MintedValues SubmittedCommitments ReplicaAgreement

def Ascending (entries : List Entry) : Prop :=
  entries.Pairwise fun a b => a.logId.index < b.logId.index

section Recovery
variable (blake3 : Bytes → Hash) (backend : ProofBackend) (cbor : Cbor)

/-- The entries behind the persisted marker. -/
def remaining (committed : List Entry) (db : Db) : List Entry :=
  match metaValue cbor.logId .lastAppliedLogId db with
  | .ok none => committed
  | .ok (some lastApplied) => committed.filter fun e => lastApplied.index < e.logId.index
  | .error _ => []

/-- The databases from which a node restarts, where the crashes of a batch are
restricted to those allowed. A batch with all its commits is a finished one. -/
inductive Recovered (allowed : List Entry → ℕ → Prop) (committed : List Entry) (start : Db) :
    Db → Prop
  | start : Recovered allowed committed start start
  | batch {db : Db} {entries : List Entry} {lastMembership : Option Bytes} {k : ℕ}
      (before : Recovered allowed committed start db) (next : entries <+: remaining cbor committed db)
      (encoded : latestMembership cbor none entries = .ok lastMembership) (point : allowed entries k) :
      Recovered allowed committed start
        (performAll (perform blake3 backend cbor) ((batchCommits entries lastMembership).take k) db)

def applyBatches : List (List Entry) → StorageOp Unit
  | [] => pure ()
  | entries::rest => do
      let _ ← applyToStateMachine blake3 backend cbor entries
      applyBatches rest

/-- The ledger after an uninterrupted run over some entries. -/
def settled (entries : List Entry) (start : Db) : Db :=
  performAll (perform blake3 backend cbor) (entries.flatMap entryCommits) start

/-- Where a node stands in the log: the entries marked as applied, and possibly the
rows of the next one. -/
def Position (start : Db) (done rest : List Entry) (db : Db) : Prop :=
  SameLedger db (settled blake3 backend cbor done start) ∨
    ∃ e tail, rest = e::tail ∧
      SameLedger db (settle blake3 backend e.payload (settled blake3 backend cbor done start))

end Recovery

section Ledger
variable {blake3 : Bytes → Hash} {backend : ProofBackend} {cbor : Cbor}

theorem sameLedger_settle {a b : Db} (h : SameLedger a b) (payload : EntryPayload) :
    SameLedger (settle blake3 backend payload a) (settle blake3 backend payload b) where
  toSameClaims := settle_sameClaims h.toSameClaims payload
  lastApplied := by
    rw [settle_raftMeta,settle_raftMeta]
    exact h.lastApplied

theorem sameLedger_entry {entry : Entry} {a b : Db}
    (hencode : ∃ bytes, cbor.logId.encode entry.logId = .ok bytes)
    (h : SameClaims (settle blake3 backend entry.payload a) (settle blake3 backend entry.payload b)) :
    SameLedger (performAll (perform blake3 backend cbor) (entryCommits entry) a)
      (performAll (perform blake3 backend cbor) (entryCommits entry) b) := by
  rcases hencode with ⟨bytes,hencode⟩
  rw [performAll_entry hencode,performAll_entry hencode]
  exact sameLedger_marked h bytes

theorem sameLedger_membershipCommit (lastMembership : Option Bytes) (k : ℕ) (db : Db) :
    SameLedger (performAll (perform blake3 backend cbor) ((membershipCommit lastMembership).take k) db)
      db := by
  cases lastMembership with
  | none =>
      rw [membershipCommit,List.take_nil]
      exact SameLedger.refl db
  | some bytes =>
      cases k with
      | zero => exact SameLedger.refl db
      | succ k =>
          rw [membershipCommit,List.take_succ_cons,List.take_nil]
          exact sameLedger_membership bytes db

theorem settled_append (done : List Entry) (entry : Entry) (start : Db) :
    settled blake3 backend cbor (done++[entry]) start =
      performAll (perform blake3 backend cbor) (entryCommits entry)
        (settled blake3 backend cbor done start) := by
  rw [settled,List.flatMap_append,List.flatMap_singleton,performAll_append]
  rfl

variable {start : Db} {done rest : List Entry} {db : Db}

theorem Position.congr {db' : Db} (h : Position blake3 backend cbor start done rest db)
    (hsame : SameLedger db' db) : Position blake3 backend cbor start done rest db' := by
  rcases h with hdone | hnext
  · exact Or.inl (hsame.trans hdone)
  · rcases hnext with ⟨e,tail,hrest,hnext⟩
    exact Or.inr ⟨e,tail,hrest,hsame.trans hnext⟩

theorem Position.finished (h : Position blake3 backend cbor start done [] db) :
    SameLedger db (settled blake3 backend cbor done start) := by
  rcases h with hdone | hnext
  · exact hdone
  · rcases hnext with ⟨e,tail,hrest,-⟩
    cases hrest

/-- The rows of the next entry are the same whether they were there or not. -/
theorem Position.settle_next {entry : Entry}
    (h : Position blake3 backend cbor start done (entry::rest) db) :
    SameLedger (settle blake3 backend entry.payload db)
      (settle blake3 backend entry.payload (settled blake3 backend cbor done start)) := by
  rcases h with hdone | hnext
  · exact sameLedger_settle hdone entry.payload
  · rcases hnext with ⟨e,tail,hrest,hnext⟩
    cases hrest
    have htwice := @sameLedger_settle blake3 backend _ _ hnext entry.payload
    rw [settle_twice] at htwice
    exact htwice

theorem Position.half {entry : Entry}
    (h : Position blake3 backend cbor start done (entry::rest) db) :
    Position blake3 backend cbor start done (entry::rest)
      (settle blake3 backend entry.payload db) :=
  Or.inr ⟨entry,rest,rfl,h.settle_next⟩

theorem Position.next {entry : Entry}
    (hencode : ∃ bytes, cbor.logId.encode entry.logId = .ok bytes)
    (h : Position blake3 backend cbor start done (entry::rest) db) :
    Position blake3 backend cbor start (done++[entry]) rest
      (performAll (perform blake3 backend cbor) (entryCommits entry) db) := by
  left
  rw [settled_append]
  exact sameLedger_entry hencode h.settle_next.toSameClaims

/-- Part of the commits of some entries: every second one completes an entry. -/
theorem Position.entries {batch : List Entry}
    (hencode : ∀ e ∈ batch, ∃ bytes, cbor.logId.encode e.logId = .ok bytes)
    (h : Position blake3 backend cbor start done (batch++rest) db) (k : ℕ) :
    Position blake3 backend cbor start (done++batch.take (k/2)) (batch.drop (k/2)++rest)
      (performAll (perform blake3 backend cbor) ((batch.flatMap entryCommits).take k) db) := by
  induction batch generalizing done db k with
  | nil =>
      rw [List.take_nil,List.drop_nil,List.append_nil,List.flatMap_nil,List.take_nil]
      exact h
  | cons entry batch ih =>
      have hhead := hencode entry List.mem_cons_self
      have htail := fun e he => hencode e (List.mem_cons_of_mem entry he)
      match k with
      | 0 =>
          rw [Nat.zero_div,List.take_zero,List.append_nil]
          exact h
      | 1 =>
          rw [show 1/2 = 0 from rfl,List.take_zero,List.append_nil]
          exact h.half
      | k+2 =>
          have hnext := ih htail (h.next hhead) k
          have hcommits : (entry::batch).flatMap entryCommits =
              entryCommits entry++batch.flatMap entryCommits := List.flatMap_cons
          have htwo : (entryCommits entry).length = 2 := rfl
          rw [Nat.add_div_right k (Nat.succ_pos 1),List.take_succ_cons,List.drop_succ_cons,hcommits,
            Nat.add_comm k 2,← htwo,List.take_length_add_append,performAll_append]
          rw [List.append_assoc,List.singleton_append] at hnext
          exact hnext

theorem performAll_take_batch (entries : List Entry) (lastMembership : Option Bytes) (k : ℕ) (db : Db) :
    performAll (perform blake3 backend cbor) ((batchCommits entries lastMembership).take k) db =
      performAll (perform blake3 backend cbor)
        ((membershipCommit lastMembership).take (k-(entries.flatMap entryCommits).length))
        (performAll (perform blake3 backend cbor) ((entries.flatMap entryCommits).take k) db) := by
  rw [batchCommits,List.take_append,performAll_append]

/-- A crash inside a batch leaves the node behind every entry it marked. -/
theorem Position.batch {entries : List Entry} {lastMembership : Option Bytes}
    (hencode : ∀ e ∈ entries, ∃ bytes, cbor.logId.encode e.logId = .ok bytes)
    (h : Position blake3 backend cbor start done (entries++rest) db) (k : ℕ) :
    Position blake3 backend cbor start (done++entries.take (k/2)) (entries.drop (k/2)++rest)
      (performAll (perform blake3 backend cbor) ((batchCommits entries lastMembership).take k) db) := by
  rw [performAll_take_batch]
  exact (h.entries hencode k).congr (sameLedger_membershipCommit lastMembership _ _)

theorem entryCommits_length (entries : List Entry) :
    (entries.flatMap entryCommits).length = 2*entries.length := by
  induction entries with
  | nil => rfl
  | cons entry rest ih =>
      rw [List.flatMap_cons,List.length_append,ih,List.length_cons]
      change 2+2*rest.length = 2*(rest.length+1)
      omega

theorem Position.whole_batch {entries : List Entry} {lastMembership : Option Bytes}
    (hencode : ∀ e ∈ entries, ∃ bytes, cbor.logId.encode e.logId = .ok bytes)
    (h : Position blake3 backend cbor start done (entries++rest) db) :
    Position blake3 backend cbor start (done++entries) rest
      (performAll (perform blake3 backend cbor) (batchCommits entries lastMembership) db) := by
  have hall := @Position.batch _ _ _ _ _ _ _ _ lastMembership hencode h (2*entries.length+2)
  have hlength : (batchCommits entries lastMembership).length ≤ 2*entries.length+2 := by
    rw [batchCommits,List.length_append,entryCommits_length]
    cases lastMembership <;> simp [membershipCommit]
  have hcount : entries.length ≤ (2*entries.length+2)/2 := by omega
  rw [List.take_of_length_le hlength,List.take_of_length_le hcount,
    List.drop_of_length_le hcount,List.nil_append] at hall
  exact hall

theorem metaValue_congr {A : Type} {codec : Codec A} {key : MetaKey} {a b : Db}
    (h : a.raftMeta.lookup key = b.raftMeta.lookup key) :
    metaValue codec key a = metaValue codec key b := by
  rw [metaValue,metaValue,h]

theorem Position.marker (h : Position blake3 backend cbor start done rest db) :
    metaValue cbor.logId .lastAppliedLogId db =
      metaValue cbor.logId .lastAppliedLogId (settled blake3 backend cbor done start) := by
  apply metaValue_congr
  rcases h with hdone | hnext
  · exact hdone.lastApplied
  · rcases hnext with ⟨e,tail,-,hnext⟩
    rw [hnext.lastApplied,settle_raftMeta]

/-- The log id which was written last is the one which is read. -/
theorem settled_marker {entry : Entry} {bytes : Bytes}
    (hencode : cbor.logId.encode entry.logId = .ok bytes)
    (hdecode : decode cbor.logId bytes = .ok entry.logId) (done : List Entry) (start : Db) :
    metaValue cbor.logId .lastAppliedLogId (settled blake3 backend cbor (done++[entry]) start) =
      .ok (some entry.logId) := by
  rw [settled_append,performAll_entry hencode,metaValue,putMeta,Finmap.lookup_insert]
  dsimp only
  rw [hdecode]
  rfl

end Ledger

/-- A list of committed entries which a node starts to apply: ascending, all of
them behind the marker it starts with, and with log ids which are read back. -/
structure LogFrom (cbor : Cbor) (committed : List Entry) (start : Db) : Prop where
  ascending : Ascending committed
  ahead : remaining cbor committed start = committed
  ids : ∀ e ∈ committed, ∃ bytes, cbor.logId.encode e.logId = .ok bytes ∧
    decode cbor.logId bytes = .ok e.logId

section Runs
variable {blake3 : Bytes → Hash} {backend : ProofBackend} {cbor : Cbor}

/-- In an ascending log the index of an entry separates what is before it from what
is behind it. -/
theorem ascending_split {done rest : List Entry} {entry : Entry}
    (h : Ascending ((done++[entry])++rest)) :
    (∀ e ∈ done++[entry], e.logId.index ≤ entry.logId.index) ∧
      ∀ e ∈ rest, entry.logId.index < e.logId.index := by
  have hsplit := List.pairwise_append.mp h
  have hdone := List.pairwise_append.mp hsplit.1
  constructor
  · intro e he
    rcases List.mem_append.mp he with he | he
    · exact UInt64.le_of_lt (hdone.2.2 e he entry List.mem_cons_self)
    · rw [List.mem_singleton.mp he]
      exact UInt64.le_refl _
  · exact hsplit.2.2 entry (List.mem_append_right done List.mem_cons_self)

theorem filter_behind {done rest : List Entry} {entry : Entry}
    (h : Ascending ((done++[entry])++rest)) :
    (((done++[entry])++rest).filter fun e => entry.logId.index < e.logId.index) = rest := by
  have hsplit := ascending_split h
  have hbefore : ((done++[entry]).filter fun e => entry.logId.index < e.logId.index) = [] := by
    apply List.filter_eq_nil_iff.mpr
    intro e he
    rw [decide_eq_true_eq,UInt64.not_lt]
    exact hsplit.1 e he
  have hafter : (rest.filter fun e => entry.logId.index < e.logId.index) = rest :=
    List.filter_eq_self.mpr fun e he => decide_eq_true (hsplit.2 e he)
  rw [List.filter_append,hbefore,hafter,List.nil_append]

/-- Behind some entries the marker reads as the last of them. -/
theorem Position.marker_last {committed before rest : List Entry} {entry : Entry} {start db : Db}
    (hlog : LogFrom cbor committed start) (hsplit : committed = (before++[entry])++rest)
    (h : Position blake3 backend cbor start (before++[entry]) rest db) :
    metaValue cbor.logId .lastAppliedLogId db = .ok (some entry.logId) := by
  have hmem : entry ∈ committed := by
    rw [hsplit]
    exact List.mem_append_left _ (List.mem_append_right _ List.mem_cons_self)
  rcases hlog.ids entry hmem with ⟨bytes,hencode,hdecode⟩
  rw [h.marker,settled_marker hencode hdecode]

/-- The marker tells a restarted node where it stands. -/
theorem Position.remaining {committed done rest : List Entry} {start db : Db}
    (hlog : LogFrom cbor committed start) (hsplit : committed = done++rest)
    (h : Position blake3 backend cbor start done rest db) :
    CrashRecovery.remaining cbor committed db = rest := by
  rcases List.eq_nil_or_concat done with hnil | hlast
  · have hahead := hlog.ahead
    rw [hnil] at hsplit h
    rw [CrashRecovery.remaining] at hahead ⊢
    rw [h.marker]
    exact hahead.trans hsplit
  · rcases hlast with ⟨before,entry,hlast⟩
    rw [List.concat_eq_append] at hlast
    rw [hlast] at hsplit h
    have hascending := hlog.ascending
    rw [hsplit] at hascending
    rw [CrashRecovery.remaining,h.marker_last hlog hsplit,hsplit]
    exact filter_behind hascending

/-- One batch from a known position: the node ends behind every entry it marked. -/
theorem Position.restart {committed done rest entries : List Entry} {start db : Db}
    (hlog : LogFrom cbor committed start) (hsplit : committed = done++rest)
    (h : Position blake3 backend cbor start done rest db)
    (hnext : entries <+: CrashRecovery.remaining cbor committed db) (lastMembership : Option Bytes)
    (k : ℕ) :
    ∃ tail, committed = (done++entries.take (k/2))++(entries.drop (k/2)++tail) ∧
      Position blake3 backend cbor start (done++entries.take (k/2)) (entries.drop (k/2)++tail)
        (performAll (perform blake3 backend cbor) ((batchCommits entries lastMembership).take k)
          db) := by
  rw [h.remaining hlog hsplit] at hnext
  rcases hnext with ⟨tail,hrest⟩
  have hencode : ∀ e ∈ entries, ∃ bytes, cbor.logId.encode e.logId = .ok bytes := by
    intro e he
    have hmem : e ∈ committed := by
      rw [hsplit,← hrest]
      exact List.mem_append_right _ (List.mem_append_left _ he)
    rcases hlog.ids e hmem with ⟨bytes,hbytes,-⟩
    exact ⟨bytes,hbytes⟩
  rw [← hrest] at h
  refine ⟨tail,?_,h.batch hencode k⟩
  rw [hsplit,← hrest,List.append_assoc,← List.append_assoc (entries.take (k/2)),
    List.take_append_drop]

theorem Recovered.position {allowed : List Entry → ℕ → Prop} {committed : List Entry} {start db : Db}
    (hlog : LogFrom cbor committed start)
    (h : Recovered blake3 backend cbor allowed committed start db) :
    ∃ done rest, committed = done++rest ∧ Position blake3 backend cbor start done rest db := by
  induction h with
  | start => exact ⟨[],committed,rfl,Or.inl (SameLedger.refl start)⟩
  | @batch db entries lastMembership k _ hnext _ _ ih =>
      rcases ih with ⟨done,rest,hsplit,hposition⟩
      rcases hposition.restart hlog hsplit hnext lastMembership k with ⟨tail,hsplit,hposition⟩
      exact ⟨_,_,hsplit,hposition⟩

/-- Rows without their marker leave as many entries as before. -/
theorem remaining_half (committed : List Entry) (entry : Entry) (lastMembership : Option Bytes)
    (db : Db) :
    remaining cbor committed (performAll (perform blake3 backend cbor)
      ((batchCommits [entry] lastMembership).take 1) db) = remaining cbor committed db := by
  have hmeta : (performAll (perform blake3 backend cbor)
      ((batchCommits [entry] lastMembership).take 1) db).raftMeta = db.raftMeta :=
    settle_raftMeta entry.payload db
  rw [remaining,metaValue,hmeta]
  rfl

/-- The run of the code under a crash is one of the recovered databases. -/
theorem recovered_crash {committed : List Entry} {start db : Db}
    (h : Recovered blake3 backend cbor (fun _ _ => True) committed start db) {entries : List Entry}
    (hnext : entries <+: remaining cbor committed db) {lastMembership : Option Bytes}
    (hmembership : latestMembership cbor none entries = .ok lastMembership) (outside : Outside)
    {faults : ℕ → Option String} (hcrash : Crashing faults) :
    Recovered blake3 backend cbor (fun _ _ => True) committed start
      ((applyToStateMachine blake3 backend cbor entries).run ⟨db,outside,faults⟩).2.db := by
  rcases @applyToStateMachine_crash blake3 backend cbor entries lastMembership ⟨db,outside,faults⟩
    hmembership hcrash with ⟨k,hdb⟩
  rw [hdb]
  exact Recovered.batch h hnext hmembership trivial

/-- Every membership of the entries can be stored. -/
def StorableMemberships (cbor : Cbor) (entries : List Entry) : Prop :=
  ∀ e ∈ entries, ∀ m, e.payload = .membership m →
    ∃ bytes, encode cbor.storedMembership ⟨some e.logId,m⟩ = .ok bytes

theorem latestMembership_ok {found : Option Bytes} {entries : List Entry} :
    (∃ bytes, latestMembership cbor found entries = .ok bytes) ↔
      StorableMemberships cbor entries := by
  induction entries generalizing found with
  | nil => exact iff_of_true ⟨found,rfl⟩ fun _ he => (List.not_mem_nil he).elim
  | cons entry rest ih =>
      rw [StorableMemberships,List.forall_mem_cons,← StorableMemberships]
      cases hpayload : entry.payload with
      | blank =>
          simp only [latestMembership,hpayload,ih,reduceCtorEq,false_implies,implies_true,true_and]
      | normal command =>
          simp only [latestMembership,hpayload,ih,reduceCtorEq,false_implies,implies_true,true_and]
      | membership m =>
          simp only [latestMembership,hpayload,EntryPayload.membership.injEq,forall_eq']
          cases encode cbor.storedMembership ⟨some entry.logId,m⟩ with
          | error e => simp
          | ok bytes => simp [ih]

/-- Without faults the batches of what is left finish the log. -/
theorem Position.applyBatches {batches : List (List Entry)} {done : List Entry} {start db : Db}
    (hencode : ∀ e ∈ batches.flatten, ∃ bytes, cbor.logId.encode e.logId = .ok bytes)
    (hmemberships : StorableMemberships cbor batches.flatten)
    (h : Position blake3 backend cbor start done batches.flatten db) (outside : Outside) :
    ∃ final, (CrashRecovery.applyBatches blake3 backend cbor batches).run (calmAt db outside) =
        (.ok (),final) ∧
      SameLedger final.db (settled blake3 backend cbor (done++batches.flatten) start) := by
  induction batches generalizing done db with
  | nil =>
      refine ⟨_,rfl,?_⟩
      rw [List.flatten_nil,List.append_nil]
      exact h.finished
  | cons entries rest ih =>
      rw [List.flatten_cons] at h hencode hmemberships
      have hhead := fun e he => hencode e (List.mem_append_left _ he)
      have htail := fun e he => hencode e (List.mem_append_right _ he)
      rcases (@latestMembership_ok cbor none entries).mpr fun e he =>
        hmemberships e (List.mem_append_left _ he) with ⟨lastMembership,hmembership⟩
      rcases applyToStateMachine_calm hmembership hhead with ⟨responses,hbatch⟩
      rcases ih htail (fun e he => hmemberships e (List.mem_append_right _ he))
        (h.whole_batch hhead) with ⟨final,hrest,hfinal⟩
      rw [List.append_assoc,← List.flatten_cons] at hfinal
      exact ⟨final,bind_ok.mpr ⟨_,_,hbatch,hrest⟩,hfinal⟩

/-- Crashes and restarts do not change where the ledger ends. However the entries
are split into batches and wherever the node was stopped, the remaining entries
lead to the tables and the marker of one uninterrupted run. -/
theorem crash_restart_convergence {committed : List Entry} {start db : Db} {t : Ledger}
    {responses : List LedgerResponse} {batches : List (List Entry)} {origin : Outside}
    (hascending : Ascending committed) (hahead : remaining cbor committed start = committed)
    (hids : ∀ e ∈ committed, ∀ bytes, cbor.logId.encode e.logId = .ok bytes →
      decode cbor.logId bytes = .ok e.logId)
    (huninterrupted : (applyToStateMachine blake3 backend cbor committed).run (calmAt start origin) =
      (.ok responses,t))
    (hrecovered : Recovered blake3 backend cbor (fun _ _ => True) committed start db)
    (hbatches : batches.flatten = remaining cbor committed db) (outside : Outside) :
    ∃ final, (applyBatches blake3 backend cbor batches).run (calmAt db outside) = (.ok (),final) ∧
      SameLedger final.db t.db := by
  rcases applyToStateMachine_encodes huninterrupted with ⟨⟨lastMembership,hmembership⟩,hencode⟩
  have hlog : LogFrom cbor committed start := by
    refine ⟨hascending,hahead,?_⟩
    intro e he
    rcases hencode e he with ⟨bytes,hbytes⟩
    exact ⟨bytes,hbytes,hids e he bytes hbytes⟩
  have hstorable : StorableMemberships cbor committed :=
    latestMembership_ok.mp ⟨lastMembership,hmembership⟩
  rcases hrecovered.position hlog with ⟨done,rest,hsplit,hposition⟩
  rw [hposition.remaining hlog hsplit] at hbatches
  rw [← hbatches] at hposition hsplit
  have hleft : ∀ e ∈ batches.flatten, e ∈ committed := by
    intro e he
    rw [hsplit]
    exact List.mem_append_right done he
  rcases hposition.applyBatches (fun e he => hencode e (hleft e he))
    (fun e he => hstorable e (hleft e he)) outside with ⟨final,hrun,hfinal⟩
  rcases @applyToStateMachine_calm blake3 backend cbor committed lastMembership start origin
    hmembership hencode with ⟨_,hwhole⟩
  rw [huninterrupted] at hwhole
  cases hwhole
  have hstart : Position blake3 backend cbor start [] (committed++[]) start :=
    Or.inl (SameLedger.refl start)
  have hend : SameLedger
      (performAll (perform blake3 backend cbor) (batchCommits committed lastMembership) start)
      (settled blake3 backend cbor ([]++committed) start) := (hstart.whole_batch hencode).finished
  rw [← hsplit] at hfinal
  exact ⟨final,hrun,hfinal.trans hend.symm⟩

end Runs

theorem firstEntry_reads_back : decode mixedCbor.logId (mixedLogBytes 1) = .ok (mixedLogId 1) := rfl

/-- The rows of the first claim were committed and its marker was not: the claim is
applied again and the ledger ends as if nothing had happened. -/
theorem lost_marker_converges :
    ∃ (responses : List LedgerResponse) (t final : Ledger),
      (applyToStateMachine singleChunkHash firstBackend mixedCbor [firstEntry]).run
        (calmAt emptyDb ⟨∅,false⟩) = (.ok responses,t) ∧
      (applyBatches singleChunkHash firstBackend mixedCbor [[firstEntry]]).run
        (calmAt (performAll (perform singleChunkHash firstBackend mixedCbor)
          ((batchCommits [firstEntry] none).take 1) emptyDb) ⟨∅,false⟩) = (.ok (),final) ∧
      SameLedger final.db t.db := by
  rcases firstEntry_calm ⟨∅,false⟩ with ⟨responses,t,hrun,-⟩
  have hahead : remaining mixedCbor [firstEntry] emptyDb = [firstEntry] := rfl
  have hrecovered : Recovered singleChunkHash firstBackend mixedCbor (fun _ _ => True) [firstEntry]
      emptyDb (performAll (perform singleChunkHash firstBackend mixedCbor)
        ((batchCommits [firstEntry] none).take 1) emptyDb) :=
    Recovered.batch Recovered.start (List.prefix_refl _) rfl trivial
  have hids : ∀ e ∈ [firstEntry], ∀ bytes, mixedCbor.logId.encode e.logId = .ok bytes →
      decode mixedCbor.logId bytes = .ok e.logId := by
    intro e he bytes hencode
    rw [List.mem_singleton.mp he] at hencode ⊢
    cases hencode
    exact firstEntry_reads_back
  have hleft : [[firstEntry]].flatten = remaining mixedCbor [firstEntry]
      (performAll (perform singleChunkHash firstBackend mixedCbor)
        ((batchCommits [firstEntry] none).take 1) emptyDb) := by
    rw [remaining_half,hahead]
    rfl
  rcases crash_restart_convergence (List.pairwise_singleton _ _) hahead hids hrun hrecovered hleft
    ⟨∅,false⟩ with ⟨final,hfinal,hsame⟩
  exact ⟨responses,t,final,hrun,hfinal,hsame⟩

end OmegaHarness.CrashRecovery
