import OmegaHarness.MembershipRecovery

/-!
# Cutting a batch of entries in two

A batch writes its claims and its marker entry by entry, and its membership once at the
end. Cut in two, it writes the membership of the first half before the entries of the
second half. These entries do not look at the membership row, so the row may as well be
written after them, where the second half either replaces it or leaves it.
-/
namespace OmegaHarness.BatchSplits
open DomainHashes ClaimTypes ClaimVerifier FaultyTransactions KeyedTables LedgerStore RaftTypes
open ClaimApplication LedgerWriter RaftStorage EntryCommits CrashRecovery MembershipRecovery

section Blindness
variable {blake3 : Bytes → Hash} {backend : ProofBackend} {cbor : Cbor} {key : MetaKey}
  {bytes : Bytes}

theorem blind_execute {change : Db → Db} {f : Db → Except LedgerError Db}
    (hf : ∀ db, f (change db) = (f db).map change) : Blind change (execute f) := by
  unfold execute sql
  apply blind_statement
  intro db
  rw [hf]
  cases f db <;> rfl

theorem blind_rejectReplays (publicInputs : List ClaimPublicInputs) :
    Blind (putMeta key bytes) (rejectReplays publicInputs) := by
  induction publicInputs with
  | nil => exact blind_pure ()
  | cons p rest ih =>
      have hprobe : Blind (putMeta key bytes) (rejectReplay p) :=
        blind_bind (blind_ofExcept _) fun _ => blind_bind (blind_statement fun _ => rfl) fun _ =>
          blind_ofExcept _
      exact blind_bind hprobe fun _ => ih

theorem blind_insertRowsFrom (blockIdx : UInt64) (blockIdxI64 : ℤ) (ordinal : ℕ)
    (rows : List (ClaimPublicInputs × ClaimWitness)) :
    Blind (putMeta key bytes) (insertRowsFrom blake3 blockIdx blockIdxI64 ordinal rows) := by
  induction rows generalizing ordinal with
  | nil => exact blind_pure ()
  | cons r rest ih =>
      have hnullifier : Blind (putMeta key bytes) (insertNullifier r.1 blockIdxI64) := by
        refine blind_bind (blind_ofExcept _) fun leafIndex => blind_execute fun db => ?_
        change Except.map _ (insertRow _ _ _ db.nullifiers) = _
        cases insertRow nullifierConflict ((r.1.subTreeId.toNat : ℤ),leafIndex) blockIdxI64
          db.nullifiers <;> rfl
      have hutxo : Blind (putMeta key bytes) (insertStarstreamUtxo blake3 r.1 r.2 blockIdx
          (UInt64.ofNat ordinal) blockIdxI64) := by
        refine blind_bind (blind_ofExcept _) fun value => blind_execute fun db => ?_
        change Except.map _ (insertRow _ _ _ db.starstreamUtxos) = _
        cases insertRow utxoConflict
          (starstreamUtxoId blake3 (utxoSource r.1 r.2 blockIdx (UInt64.ofNat ordinal)))
          (starstreamRow r.1.recipientStarstreamAddr value blockIdxI64) db.starstreamUtxos <;> rfl
      exact blind_bind hnullifier fun _ => blind_bind hutxo fun _ => ih (ordinal+1)

/-- A claim does not look at the consensus state. -/
theorem blind_applyPayload (payload : EntryPayload) :
    Blind (putMeta key bytes) (applyPayload blake3 backend payload) := by
  cases payload with
  | blank => exact blind_pure _
  | membership m => exact blind_pure _
  | normal command =>
      have hclaim : Blind (putMeta key bytes) (applyClaimTx blake3 backend command) :=
        blind_bind (blind_ofExcept _) fun _ => blind_bind (blind_ofExcept _) fun parsed =>
          blind_bind (blind_ofExcept _) fun _ => blind_transaction
            (blind_bind (blind_rejectReplays _) fun _ => blind_insertRowsFrom _ _ _ _)
      refine blind_bind (blind_attempt hclaim) fun result => ?_
      cases result <;> exact blind_pure _

theorem putMeta_comm {other : MetaKey} (h : key ≠ other) (bytes' : Bytes) (db : Db) :
    putMeta key bytes (putMeta other bytes' db) = putMeta other bytes' (putMeta key bytes db) := by
  unfold putMeta
  dsimp only
  rw [Finmap.insert_insert_of_ne _ h]

theorem putMeta_putMeta (bytes' : Bytes) (db : Db) :
    putMeta key bytes (putMeta key bytes' db) = putMeta key bytes db := by
  unfold putMeta
  dsimp only
  rw [Finmap.insert_insert]

theorem blind_applyEntries (entries : List Entry) :
    Blind (putMeta .lastMembership bytes) (applyEntries blake3 backend cbor entries) := by
  induction entries with
  | nil => exact blind_pure []
  | cons entry rest ih =>
      have hentry : Blind (putMeta .lastMembership bytes) (applyEntry blake3 backend cbor entry) := by
        refine blind_bind (blind_applyPayload _) fun response => blind_bind (blind_ofExcept _)
          fun lastApplied => blind_bind (blind_execute fun db => ?_) fun _ => blind_pure _
        exact congrArg Except.ok (putMeta_comm (by decide) bytes db)
      exact blind_bind hentry fun response => blind_bind ih fun responses => blind_pure _

end Blindness

section Split
variable {blake3 : Bytes → Hash} {backend : ProofBackend} {cbor : Cbor} {db : Db} {outside : Outside}

/-- What the end of a batch does with its membership. -/
def putMembership : Option Bytes → Db → Db
  | none => id
  | some bytes => putMeta .lastMembership bytes

theorem putMembership_or (first second : Option Bytes) (db : Db) :
    putMembership second (putMembership first db) = putMembership (second.or first) db := by
  cases second with
  | none => rfl
  | some bytes =>
      cases first with
      | none => rfl
      | some bytes' => exact putMeta_putMeta bytes' db

theorem blind_putMembership (membership : Option Bytes) (entries : List Entry) :
    Blind (putMembership membership) (applyEntries blake3 backend cbor entries) := by
  cases membership with
  | none => exact fun _ => rfl
  | some bytes => exact blind_applyEntries entries

/-- Without faults a batch is its entries and then its membership. -/
theorem applyToStateMachine_ok {entries : List Entry} {responses : List LedgerResponse}
    {t : Ledger} :
    (applyToStateMachine blake3 backend cbor entries).run (calmAt db outside) = (.ok responses,t) ↔
      ∃ membership db', latestMembership cbor none entries = .ok membership ∧
        (applyEntries blake3 backend cbor entries).run (calmAt db outside) =
          (.ok responses,calmAt db' outside) ∧
        t = calmAt (putMembership membership db') outside := by
  have hsave (membership : Option Bytes) (db' : Db) :
      (saveLastMembership membership).run (calmAt db' outside) =
        (.ok (),calmAt (putMembership membership db') outside) := by
    cases membership with
    | none => rfl
    | some bytes => exact execute_calm.mpr ⟨_,rfl,rfl⟩
  constructor
  · intro h
    obtain ⟨membership,hmembership,hbatch⟩ := ofExcept_bind_ok.mp h
    obtain ⟨_,u,hentries,hrest⟩ := bind_ok.mp (mapFailure_ok.mp hbatch)
    obtain ⟨_,_,hsaved,hpure⟩ := bind_ok.mp hrest
    have hu := (commits_applyEntries blake3 backend cbor entries).calm hentries
    rw [hu] at hentries hsaved
    rw [hsave] at hsaved
    cases hsaved
    cases hpure
    exact ⟨membership,_,hmembership,hentries,rfl⟩
  · rintro ⟨membership,db',hmembership,hentries,rfl⟩
    exact ofExcept_bind_ok.mpr ⟨membership,hmembership,mapFailure_ok.mpr
      (bind_ok.mpr ⟨_,_,hentries,bind_ok.mpr ⟨_,_,hsave membership db',rfl⟩⟩)⟩

theorem applyEntries_append {xs ys : List Entry} {s t : Ledger} {responses : List LedgerResponse} :
    (applyEntries blake3 backend cbor (xs++ys)).run s = (.ok responses,t) ↔
      ∃ first second u, (applyEntries blake3 backend cbor xs).run s = (.ok first,u) ∧
        (applyEntries blake3 backend cbor ys).run u = (.ok second,t) ∧ responses = first++second := by
  induction xs generalizing s responses with
  | nil =>
      constructor
      · intro h
        exact ⟨[],responses,s,rfl,h,rfl⟩
      · rintro ⟨first,second,u,hfirst,hsecond,rfl⟩
        cases hfirst
        exact hsecond
  | cons x xs ih =>
      rw [List.cons_append]
      constructor
      · intro h
        obtain ⟨response,u,hx,hrest⟩ := bind_ok.mp h
        obtain ⟨later,v,hlater,hpure⟩ := bind_ok.mp hrest
        cases hpure
        obtain ⟨first,second,w,hfirst,hsecond,rfl⟩ := ih.mp hlater
        exact ⟨response::first,second,w,
          bind_ok.mpr ⟨response,u,hx,bind_ok.mpr ⟨first,w,hfirst,rfl⟩⟩,hsecond,rfl⟩
      · rintro ⟨first,second,u,hfirst,hsecond,rfl⟩
        obtain ⟨response,v,hx,hrest⟩ := bind_ok.mp hfirst
        obtain ⟨later,w,hlater,hpure⟩ := bind_ok.mp hrest
        cases hpure
        exact bind_ok.mpr ⟨response,v,hx,
          bind_ok.mpr ⟨later++second,t,ih.mpr ⟨later,second,_,hlater,hsecond,rfl⟩,rfl⟩⟩

/-- The latest membership of a batch is that of its second half, if there is one. -/
theorem latestMembership_split {xs ys : List Entry} {membership : Option Bytes} :
    latestMembership cbor none (xs++ys) = .ok membership ↔
      ∃ first second, latestMembership cbor none xs = .ok first ∧
        latestMembership cbor none ys = .ok second ∧ membership = second.or first := by
  constructor
  · intro h
    have hstorable := latestMembership_ok.mp ⟨membership,h⟩
    obtain ⟨first,hfirst⟩ : ∃ first, latestMembership cbor none xs = .ok first :=
      latestMembership_ok.mpr fun e he => hstorable e (List.mem_append_left ys he)
    rw [latestMembership_append hfirst,latestMembership_found] at h
    obtain ⟨second,hsecond,rfl⟩ := FallibleSteps.map_ok.mp h
    exact ⟨first,second,hfirst,hsecond,rfl⟩
  · rintro ⟨first,second,hfirst,hsecond,rfl⟩
    rw [latestMembership_append hfirst,latestMembership_found,hsecond]
    rfl

variable (blake3) (backend) (cbor) in
/-- Two batches, one after the other, with the responses of both. -/
def applyInTwo (xs ys : List Entry) : StorageOp (List LedgerResponse) := do
  let first ← applyToStateMachine blake3 backend cbor xs
  let second ← applyToStateMachine blake3 backend cbor ys
  pure (first++second)

/-- The second half runs past the membership which the first half has written. -/
theorem applyEntries_past {entries : List Entry} {membership : Option Bytes}
    {responses : List LedgerResponse} {db' : Db} :
    (applyEntries blake3 backend cbor entries).run (calmAt (putMembership membership db) outside) =
        (.ok responses,calmAt db' outside) ↔
      ∃ db'', (applyEntries blake3 backend cbor entries).run (calmAt db outside) =
        (.ok responses,calmAt db'' outside) ∧ db' = putMembership membership db'' := by
  have hblind := @blind_putMembership blake3 backend cbor membership entries (calmAt db outside)
  change (applyEntries blake3 backend cbor entries).run
    (calmAt (putMembership membership db) outside) = _ at hblind
  rw [hblind]
  constructor
  · intro h
    cases hrun : (applyEntries blake3 backend cbor entries).run (calmAt db outside) with
    | mk r u =>
      rw [hrun] at h
      dsimp only at h
      obtain ⟨rfl,hu⟩ := Prod.mk.inj h
      have hcalm := (commits_applyEntries blake3 backend cbor entries).calm hrun
      refine ⟨u.db,?_,(congrArg Session.db hu).symm⟩
      rw [hcalm,calmAt_db]
  · rintro ⟨db'',hrun,rfl⟩
    rw [hrun]
    rfl

/-- Any two parts of a batch, applied one after the other, are answered exactly when the
batch is, with the same responses and the same tables; and a batch is answered exactly when
its log ids and memberships can be serialised. -/
theorem batch_split_invariant (xs ys : List Entry) (db : Db) (outside : Outside) :
    (∀ responses t,
      (applyToStateMachine blake3 backend cbor (xs++ys)).run (calmAt db outside) =
          (.ok responses,t) ↔
        (applyInTwo blake3 backend cbor xs ys).run (calmAt db outside) = (.ok responses,t)) ∧
      ((∃ responses t, (applyToStateMachine blake3 backend cbor (xs++ys)).run (calmAt db outside) =
          (.ok responses,t)) ↔
        (∀ e ∈ xs++ys, ∃ bytes, cbor.logId.encode e.logId = .ok bytes) ∧
          StorableMemberships cbor (xs++ys)) := by
  constructor
  · intro responses t
    rw [applyToStateMachine_ok]
    constructor
    · rintro ⟨membership,db',hmembership,hentries,rfl⟩
      obtain ⟨first,second,hfirst,hsecond,rfl⟩ := latestMembership_split.mp hmembership
      obtain ⟨r₁,r₂,u,hxs,hys,rfl⟩ := applyEntries_append.mp hentries
      have hu := (commits_applyEntries blake3 backend cbor xs).calm hxs
      rw [hu] at hxs hys
      rw [← putMembership_or]
      exact bind_ok.mpr ⟨r₁,_,applyToStateMachine_ok.mpr ⟨first,_,hfirst,hxs,rfl⟩,
        bind_ok.mpr ⟨r₂,_,applyToStateMachine_ok.mpr ⟨second,_,hsecond,
          applyEntries_past.mpr ⟨db',hys,rfl⟩,rfl⟩,rfl⟩⟩
    · intro h
      obtain ⟨r₁,u,hone,hrest⟩ := bind_ok.mp h
      obtain ⟨r₂,v,htwo,hpure⟩ := bind_ok.mp hrest
      cases hpure
      obtain ⟨first,db₁,hfirst,hxs,rfl⟩ := applyToStateMachine_ok.mp hone
      obtain ⟨second,db₂,hsecond,hpast,rfl⟩ := applyToStateMachine_ok.mp htwo
      obtain ⟨db',hys,rfl⟩ := applyEntries_past.mp hpast
      exact ⟨second.or first,db',latestMembership_split.mpr ⟨first,second,hfirst,hsecond,rfl⟩,
        applyEntries_append.mpr ⟨r₁,r₂,_,hxs,hys,rfl⟩,by rw [putMembership_or]⟩
  · constructor
    · rintro ⟨responses,t,h⟩
      obtain ⟨hmembership,hencode⟩ := applyToStateMachine_encodes h
      exact ⟨hencode,latestMembership_ok.mp hmembership⟩
    · rintro ⟨hencode,hstorable⟩
      obtain ⟨membership,hmembership⟩ := latestMembership_ok.mpr hstorable
      obtain ⟨responses,h⟩ := applyToStateMachine_calm hmembership hencode
      exact ⟨responses,_,h⟩

end Split

end OmegaHarness.BatchSplits
