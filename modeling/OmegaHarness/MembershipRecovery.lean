import OmegaHarness.CrashRecovery

/-!
# The membership of a restarted node

The marker is written with every entry, the membership once at the end of a batch.
As long as no crash falls behind the marker of a membership entry and before the end
of its batch, the stored membership is the latest one at or before the marker. A
crash in that window loses the membership for good: its entry is never applied again.
-/
namespace OmegaHarness.MembershipRecovery
open DomainHashes ClaimTypes ClaimVerifier FaultyTransactions FaultStreams CommitPrefixes KeyedTables
open LedgerStore RaftTypes ClaimApplication LedgerWriter LedgerHistory ClaimStatements RaftStorage
open EntryCommits CrashRecovery Blake3Compression MintedValues SubmittedCommitments

/-- The marker covers the entry. -/
def AppliedBy : Option LogId → Entry → Prop
  | none,_ => False
  | some lastApplied,e => e.logId.index ≤ lastApplied.index

/-- The stored membership is that of the membership entry with the greatest log index
which the marker covers, or the default if there is none. -/
def LatestMembership (committed : List Entry) (lastApplied : Option LogId) (stored : StoredMembership) :
    Prop :=
  (stored = defaultMembership ∧
      ∀ e ∈ committed, AppliedBy lastApplied e → ∀ m, e.payload ≠ .membership m) ∨
    ∃ e ∈ committed, ∃ m, e.payload = .membership m ∧ AppliedBy lastApplied e ∧
      stored = ⟨some e.logId,m⟩ ∧
      ∀ e' ∈ committed, AppliedBy lastApplied e' → ∀ m', e'.payload = .membership m' →
        e'.logId.index ≤ e.logId.index

/-- A crash after some commits of a batch which leaves no membership entry marked
without its membership: the batch is complete, or it marked none. -/
def MembershipSafe (entries : List Entry) (k : ℕ) : Prop :=
  2*entries.length < k ∨ ∀ e ∈ entries.take (k/2), ∀ m, e.payload ≠ .membership m

section Rows
variable {blake3 : Bytes → Hash} {backend : ProofBackend} {cbor : Cbor}

/-- A later membership replaces the one found before. -/
theorem latestMembership_found (found : Option Bytes) (entries : List Entry) :
    latestMembership cbor found entries =
      (latestMembership cbor none entries).map fun latest => latest.or found := by
  induction entries generalizing found with
  | nil => rfl
  | cons entry rest ih =>
      cases hpayload : entry.payload with
      | blank => simp only [latestMembership,hpayload,ih found]
      | normal command => simp only [latestMembership,hpayload,ih found]
      | membership m =>
          simp only [latestMembership,hpayload]
          cases encode cbor.storedMembership ⟨some entry.logId,m⟩ with
          | error e => rfl
          | ok bytes =>
              simp only [ih (some bytes)]
              cases latestMembership cbor none rest with
              | error e => rfl
              | ok latest => cases latest <;> rfl

theorem latestMembership_append {found row : Option Bytes} {first : List Entry}
    (h : latestMembership cbor found first = .ok row) (second : List Entry) :
    latestMembership cbor found (first++second) = latestMembership cbor row second := by
  induction first generalizing found with
  | nil =>
      cases h
      rfl
  | cons entry rest ih =>
      rw [List.cons_append]
      cases hpayload : entry.payload with
      | blank =>
          simp only [latestMembership,hpayload] at h ⊢
          exact ih h
      | normal command =>
          simp only [latestMembership,hpayload] at h ⊢
          exact ih h
      | membership m =>
          simp only [latestMembership,hpayload] at h ⊢
          cases hencode : encode cbor.storedMembership ⟨some entry.logId,m⟩ with
          | error e => simp [hencode] at h
          | ok bytes =>
              rw [hencode] at h
              exact ih h

theorem latestMembership_absent {entries : List Entry}
    (h : ∀ e ∈ entries, ∀ m, e.payload ≠ .membership m) (found : Option Bytes) :
    latestMembership cbor found entries = .ok found := by
  induction entries with
  | nil => rfl
  | cons entry rest ih =>
      rw [List.forall_mem_cons] at h
      cases hpayload : entry.payload with
      | blank =>
          simp only [latestMembership,hpayload]
          exact ih h.2
      | normal command =>
          simp only [latestMembership,hpayload]
          exact ih h.2
      | membership m => exact (h.1 m hpayload).elim

/-- Entries do not touch the membership row. -/
theorem performAll_membershipRow {commits : List Commit}
    (h : ∀ c ∈ commits, ∀ bytes, c ≠ .membership bytes) (db : Db) :
    (performAll (perform blake3 backend cbor) commits db).raftMeta.lookup .lastMembership =
      db.raftMeta.lookup .lastMembership := by
  induction commits generalizing db with
  | nil => rfl
  | cons c rest ih =>
      rw [List.forall_mem_cons] at h
      refine (ih h.2 (perform blake3 backend cbor c db)).trans ?_
      cases c with
      | claim payload => rw [perform,settle_raftMeta]
      | mark logId =>
          rw [perform]
          cases cbor.logId.encode logId with
          | error e => rfl
          | ok bytes => exact Finmap.lookup_insert_of_ne _ (by decide)
      | membership bytes => exact (h.1 bytes rfl).elim

theorem entryCommits_no_membership (entries : List Entry) (k : ℕ) :
    ∀ c ∈ (entries.flatMap entryCommits).take k, ∀ bytes, c ≠ .membership bytes := by
  intro c hc bytes hmembership
  rcases List.mem_flatMap.mp (List.mem_of_mem_take hc) with ⟨e,-,hmem⟩
  rw [hmembership] at hmem
  simp [entryCommits] at hmem

/-- The row after some of the commits of a batch. -/
theorem batch_membershipRow (entries : List Entry) (lastMembership : Option Bytes) (k : ℕ) (db : Db) :
    (performAll (perform blake3 backend cbor) ((batchCommits entries lastMembership).take k)
        db).raftMeta.lookup .lastMembership =
      if 2*entries.length < k then lastMembership.or (db.raftMeta.lookup .lastMembership)
      else db.raftMeta.lookup .lastMembership := by
  have hentries := @performAll_membershipRow blake3 backend cbor _
    (entryCommits_no_membership entries k) db
  rw [performAll_take_batch,entryCommits_length]
  split
  · next hend =>
      cases lastMembership with
      | none =>
          rw [membershipCommit,List.take_nil]
          exact hentries
      | some bytes =>
          rw [membershipCommit,List.take_of_length_le (by rw [List.length_singleton]; omega)]
          exact Finmap.lookup_insert _
  · next hinside =>
      rw [Nat.sub_eq_zero_of_le (not_lt.mp hinside),List.take_zero]
      exact hentries

/-- The row stores the last membership entry of the list. -/
def StoresLast (cbor : Cbor) (row : Option Bytes) (entries : List Entry) : Prop :=
  ∃ e ∈ entries, ∃ m bytes, e.payload = .membership m ∧ row = some bytes ∧
    encode cbor.storedMembership ⟨some e.logId,m⟩ = .ok bytes ∧
    ∀ e' ∈ entries, ∀ m', e'.payload = .membership m' → e'.logId.index ≤ e.logId.index

/-- An earlier entry does not matter, whatever it is. -/
theorem StoresLast.cons {row : Option Bytes} {entry : Entry} {rest : List Entry}
    (h : StoresLast cbor row rest) (hascending : ∀ e ∈ rest, entry.logId.index < e.logId.index) :
    StoresLast cbor row (entry::rest) := by
  rcases h with ⟨e,he,m,bytes,hpayload,hrow,hencode,hmax⟩
  refine ⟨e,List.mem_cons_of_mem entry he,m,bytes,hpayload,hrow,hencode,?_⟩
  exact List.forall_mem_cons.mpr ⟨fun _ _ => UInt64.le_of_lt (hascending e he),hmax⟩

/-- What the scan of a batch finds: nothing new, or the last membership entry. -/
theorem latestMembership_spec {found row : Option Bytes} {entries : List Entry}
    (hascending : Ascending entries) (h : latestMembership cbor found entries = .ok row) :
    (row = found ∧ ∀ e ∈ entries, ∀ m, e.payload ≠ .membership m) ∨ StoresLast cbor row entries := by
  induction entries generalizing found with
  | nil =>
      cases h
      exact Or.inl ⟨rfl,fun _ he => (List.not_mem_nil he).elim⟩
  | cons entry rest ih =>
      have hrest := List.pairwise_cons.mp hascending
      -- An entry without a membership leaves the scan where it was.
      have hskip : latestMembership cbor found rest = .ok row →
          (∀ m, entry.payload ≠ .membership m) →
          (row = found ∧ ∀ e ∈ entry::rest, ∀ m, e.payload ≠ .membership m) ∨
            StoresLast cbor row (entry::rest) := by
        intro hscan hother
        rcases ih hrest.2 hscan with hnone | hfound
        · exact Or.inl ⟨hnone.1,List.forall_mem_cons.mpr ⟨hother,hnone.2⟩⟩
        · exact Or.inr (hfound.cons hrest.1)
      cases hpayload : entry.payload with
      | blank =>
          simp only [latestMembership,hpayload] at h
          exact hskip h fun m hm => by rw [hpayload] at hm; cases hm
      | normal command =>
          simp only [latestMembership,hpayload] at h
          exact hskip h fun m hm => by rw [hpayload] at hm; cases hm
      | membership m =>
          right
          simp only [latestMembership,hpayload] at h
          cases hencode : encode cbor.storedMembership ⟨some entry.logId,m⟩ with
          | error e => simp [hencode] at h
          | ok bytes =>
              rw [hencode] at h
              rcases ih hrest.2 h with hnone | hfound
              · refine ⟨entry,List.mem_cons_self,m,bytes,hpayload,hnone.1,hencode,?_⟩
                exact List.forall_mem_cons.mpr ⟨fun _ _ => UInt64.le_refl _,
                  fun e' he' m' hm' => (hnone.2 e' he' m' hm').elim⟩
              · exact hfound.cons hrest.1

end Rows

section Runs
variable {blake3 : Bytes → Hash} {backend : ProofBackend} {cbor : Cbor} {committed : List Entry}
  {start db : Db}

/-- As long as every crash is safe the membership row is what a scan of the marked
entries finds. -/
theorem recovered_membershipRow (hlog : LogFrom cbor committed start)
    (hfresh : start.raftMeta.lookup .lastMembership = none)
    (h : Recovered blake3 backend cbor MembershipSafe committed start db) :
    ∃ done rest, committed = done++rest ∧ Position blake3 backend cbor start done rest db ∧
      latestMembership cbor none done = .ok (db.raftMeta.lookup .lastMembership) := by
  induction h with
  | start =>
      refine ⟨[],committed,rfl,Or.inl (SameLedger.refl start),?_⟩
      rw [hfresh]
      rfl
  | @batch db entries lastMembership k _ hnext hencoded hsafe ih =>
      rcases ih with ⟨done,rest,hsplit,hposition,hrow⟩
      rcases hposition.restart hlog hsplit hnext lastMembership k with ⟨tail,hsplit,hposition⟩
      refine ⟨_,_,hsplit,hposition,?_⟩
      rw [latestMembership_append hrow,batch_membershipRow]
      split
      · next hend =>
          rw [List.take_of_length_le (by omega),latestMembership_found,hencoded]
          rfl
      · next hinside =>
          exact latestMembership_absent (hsafe.resolve_left hinside) _

theorem appliedBy_marker {done rest : List Entry} {entry : Entry}
    (h : Ascending ((done++[entry])++rest)) :
    ∀ e ∈ (done++[entry])++rest, AppliedBy (some entry.logId) e ↔ e ∈ done++[entry] := by
  have hsplit := ascending_split h
  intro e he
  constructor
  · intro hle
    rcases List.mem_append.mp he with hmem | hmem
    · exact hmem
    · exact (UInt64.not_lt.mpr hle (hsplit.2 e hmem)).elim
  · intro hmem
    exact hsplit.1 e hmem

/-- The marker which is read covers the marked entries and no others. -/
theorem marker_covers (hlog : LogFrom cbor committed start)
    (hfresh : start.raftMeta.lookup .lastAppliedLogId = none) {done rest : List Entry}
    (hsplit : committed = done++rest) (h : Position blake3 backend cbor start done rest db) :
    ∃ lastApplied, metaValue cbor.logId .lastAppliedLogId db = .ok lastApplied ∧
      ∀ e ∈ committed, AppliedBy lastApplied e ↔ e ∈ done := by
  rcases List.eq_nil_or_concat done with hnil | hlast
  · have hstart : metaValue cbor.logId .lastAppliedLogId start = .ok none := by
      rw [metaValue,hfresh]
    rw [hnil] at h ⊢
    exact ⟨none,h.marker.trans hstart,fun e _ => iff_of_false id List.not_mem_nil⟩
  · rcases hlast with ⟨before,entry,hlast⟩
    rw [List.concat_eq_append] at hlast
    rw [hlast] at hsplit h ⊢
    refine ⟨some entry.logId,h.marker_last hlog hsplit,?_⟩
    have hascending := hlog.ascending
    rw [hsplit] at hascending ⊢
    exact appliedBy_marker hascending

/-- In every run whose crashes are all safe, a restarted node reads the latest
membership its marker covers. -/
theorem membership_not_behind_marker (hascending : Ascending committed)
    (hids : ∀ e ∈ committed, ∃ bytes, cbor.logId.encode e.logId = .ok bytes ∧
      decode cbor.logId bytes = .ok e.logId)
    (hround : cbor.storedMembership.RoundTrips)
    (hmarker : start.raftMeta.lookup .lastAppliedLogId = none)
    (hmembership : start.raftMeta.lookup .lastMembership = none)
    (h : Recovered blake3 backend cbor MembershipSafe committed start db) (outside : Outside) :
    ∃ lastApplied stored, (lastAppliedState cbor).run (calmAt db outside) =
        (.ok (lastApplied,stored),calmAt db outside) ∧
      LatestMembership committed lastApplied stored := by
  have hahead : remaining cbor committed start = committed := by
    rw [remaining,metaValue,hmarker]
  have hlog : LogFrom cbor committed start := ⟨hascending,hahead,hids⟩
  rcases recovered_membershipRow hlog hmembership h with ⟨done,rest,hsplit,hposition,hrow⟩
  rcases marker_covers hlog hmarker hsplit hposition with ⟨lastApplied,hlast,hcovers⟩
  have hdone : Ascending done := by
    rw [hsplit] at hascending
    exact (List.pairwise_append.mp hascending).1
  rcases latestMembership_spec hdone hrow with hnone | hfound
  · have hread : metaValue cbor.storedMembership .lastMembership db = .ok none := by
      rw [metaValue,hnone.1]
    refine ⟨lastApplied,defaultMembership,lastAppliedState_calm hlast hread outside,Or.inl ⟨rfl,?_⟩⟩
    intro e he happlied
    exact hnone.2 e ((hcovers e he).mp happlied)
  · rcases hfound with ⟨e,he,m,bytes,hpayload,hlookup,hencode,hmax⟩
    have hmem : e ∈ committed := by
      rw [hsplit]
      exact List.mem_append_left _ he
    have hread : metaValue cbor.storedMembership .lastMembership db =
        .ok (some ⟨some e.logId,m⟩) := by
      rw [metaValue,hlookup]
      dsimp only
      rw [decode_encode hround hencode]
      rfl
    refine ⟨lastApplied,_,lastAppliedState_calm hlast hread outside,Or.inr ⟨e,hmem,m,hpayload,
      (hcovers e hmem).mpr he,rfl,?_⟩⟩
    intro e' he' happlied
    exact hmax e' ((hcovers e' he').mp happlied)

end Runs

/-- A cluster of the node 1 alone. -/
def soloMembership : Membership := ⟨[[1]],[(1,"")]⟩

/-- The stored membership in CBOR: the log id, the configurations and the nodes. -/
def soloBytes : Bytes :=
  [0xa2,0x66,0x6c,0x6f,0x67,0x5f,0x69,0x64]++mixedLogBytes 1++
    [0x6a,0x6d,0x65,0x6d,0x62,0x65,0x72,0x73,0x68,0x69,0x70,
      0xa2,0x67,0x63,0x6f,0x6e,0x66,0x69,0x67,0x73,0x81,0x81,0x01,
      0x65,0x6e,0x6f,0x64,0x65,0x73,0xa1,0x01,0xa1,0x64,0x61,0x64,0x64,0x72,0x60]

def soloCbor : Cbor :=
  { mixedCbor with
    storedMembership := listedCodec [(⟨some (mixedLogId 1),soloMembership⟩,soloBytes)] }

def soloEntry : Entry := ⟨mixedLogId 1,.membership soloMembership⟩

/-- The entry is marked and its membership is not stored. -/
def markedDb : Db := putMeta .lastAppliedLogId (mixedLogBytes 1) emptyDb

/-- The process is lost behind the first statement of the batch: the membership entry
is not applied again, and the default membership is read. -/
theorem lost_membership :
    ∃ (cbor : Cbor) (committed : List Entry) (faults : ℕ → Option String) (e : StorageError)
      (t u : Ledger) (lastApplied : Option LogId) (stored : StoredMembership),
      Ascending committed ∧ Crashing faults ∧
      (applyToStateMachine singleChunkHash firstBackend cbor committed).run
        ⟨emptyDb,⟨∅,false⟩,faults⟩ = (.error e,t) ∧
      remaining cbor committed t.db = [] ∧
      (lastAppliedState cbor).run (calmAt t.db ⟨∅,false⟩) = (.ok (lastApplied,stored),u) ∧
      ¬LatestMembership committed lastApplied stored := by
  have hread : (lastAppliedState soloCbor).run (calmAt markedDb ⟨∅,false⟩) =
      (.ok (some (mixedLogId 1),defaultMembership),calmAt markedDb ⟨∅,false⟩) :=
    @lastAppliedState_calm soloCbor markedDb _ none rfl rfl ⟨∅,false⟩
  refine ⟨soloCbor,[soloEntry],crashAfter "power loss" 1,_,
    ⟨markedDb,⟨∅,false⟩,later (crashAfter "power loss" 1) 2⟩,_,_,_,List.pairwise_singleton _ _,
    crashing_crashAfter _ 1,rfl,rfl,hread,?_⟩
  intro hlatest
  rcases hlatest with hnone | hfound
  · exact hnone.2 soloEntry List.mem_cons_self (UInt64.le_refl _) soloMembership rfl
  · rcases hfound with ⟨e,-,m,-,-,hstored,-⟩
    cases hstored

/-- A finished batch stores its membership. -/
theorem stored_membership :
    ∃ lastApplied stored, (lastAppliedState soloCbor).run
        (calmAt (performAll (perform singleChunkHash firstBackend soloCbor)
          ((batchCommits [soloEntry] (some soloBytes)).take 3) emptyDb) ⟨∅,false⟩) =
        (.ok (lastApplied,stored),calmAt (performAll (perform singleChunkHash firstBackend soloCbor)
          ((batchCommits [soloEntry] (some soloBytes)).take 3) emptyDb) ⟨∅,false⟩) ∧
      LatestMembership [soloEntry] lastApplied stored := by
  have hround : soloCbor.storedMembership.RoundTrips := by
    apply listedCodec_roundTrips
    intro r hr r' hr' _
    rw [List.mem_singleton.mp hr,List.mem_singleton.mp hr']
  have hids : ∀ e ∈ [soloEntry], ∃ bytes, soloCbor.logId.encode e.logId = .ok bytes ∧
      decode soloCbor.logId bytes = .ok e.logId := by
    intro e he
    rw [List.mem_singleton.mp he]
    exact ⟨mixedLogBytes 1,rfl,rfl⟩
  have hsafe : MembershipSafe [soloEntry] 3 := Or.inl (by decide)
  have hahead : remaining soloCbor [soloEntry] emptyDb = [soloEntry] := rfl
  have hrecovered : Recovered singleChunkHash firstBackend soloCbor MembershipSafe [soloEntry] emptyDb
      (performAll (perform singleChunkHash firstBackend soloCbor)
        ((batchCommits [soloEntry] (some soloBytes)).take 3) emptyDb) := by
    refine Recovered.batch Recovered.start ?_ rfl hsafe
    rw [hahead]
  exact membership_not_behind_marker (List.pairwise_singleton _ _) hids hround rfl rfl hrecovered
    ⟨∅,false⟩

end OmegaHarness.MembershipRecovery
