import OmegaHarness.EntryCommits
import OmegaHarness.SubmittedCommitments

/-!
# Replicas with local faults

Two replicas which apply the same entries end with the same claims as long as
every claim which writes rows is struck by a local fault on both of them or on
neither. A claim struck on one replica only is rejected there and accepted on
the other, both advance their marker, and the tables differ from then on.
-/
namespace OmegaHarness.ReplicaAgreement
open DomainHashes ClaimTypes ClaimVerifier FaultyTransactions KeyedTables
open LedgerStore RaftTypes ClaimApplication LedgerWriter LedgerHistory ClaimStatements RaftStorage
open EntryCommits Blake3Compression MintedValues SubmittedCommitments FaultStreams CommitPrefixes

section Writer
variable {blake3 : Bytes → Hash} {backend : ProofBackend} {cbor : Cbor}

/-- A finished entry is its payload followed by its marker. -/
theorem applyEntry_ok {entry : Entry} {s t : Ledger} {response : LedgerResponse}
    (h : (applyEntry blake3 backend cbor entry).run s = (.ok response,t)) :
    ∃ bytes, cbor.logId.encode entry.logId = .ok bytes ∧
      t.db = putMeta .lastAppliedLogId bytes
        ((applyPayload blake3 backend entry.payload).run s).2.db := by
  rcases bind_ok.mp h with ⟨_,u,hpayload,hrest⟩
  rcases ofExcept_bind_ok.mp hrest with ⟨bytes,hencode,hrest⟩
  rcases bind_ok.mp hrest with ⟨_,v,hsave,hpure⟩
  cases hpure
  refine ⟨bytes,FallibleSteps.mapError_ok.mp hencode,?_⟩
  rw [hpayload]
  exact saveRaftMeta_ok hsave

theorem saveLastMembership_ok {lastMembership : Option Bytes} {s t : Ledger} {a : Unit}
    (h : (saveLastMembership lastMembership).run s = (.ok a,t)) : SameLedger t.db s.db := by
  cases lastMembership with
  | none =>
      cases h
      exact SameLedger.refl s.db
  | some bytes =>
      rw [saveLastMembership] at h
      rw [saveRaftMeta_ok h]
      exact sameLedger_membership bytes s.db

/-- A claim which only one replica writes separates them. -/
theorem interrupted_alone {payload : EntryPayload} {s₁ s₂ : Ledger} (hsame : SameClaims s₁.db s₂.db)
    (h₁ : Interrupted blake3 backend payload s₁) (h₂ : ¬Interrupted blake3 backend payload s₂) :
    ¬SameClaims ((applyPayload blake3 backend payload).run s₁).2.db
      ((applyPayload blake3 backend payload).run s₂).2.db := by
  intro hafter
  rw [(applyPayload_interrupted h₁).1,applyPayload_settles h₂] at hafter
  cases payload with
  | blank => exact h₁
  | membership m => exact h₁
  | normal command =>
      have hok := hsame.acceptable.mp h₁.1
      rw [settle_accepts hok] at hafter
      exact not_acceptable_applied h₁.2.1 hok (hafter.acceptable.mp h₁.1)

theorem applyPayload_agree {payload : EntryPayload} {s₁ s₂ : Ledger}
    (hsame : SameClaims s₁.db s₂.db) :
    SameClaims ((applyPayload blake3 backend payload).run s₁).2.db
        ((applyPayload blake3 backend payload).run s₂).2.db ↔
      (Interrupted blake3 backend payload s₁ ↔ Interrupted blake3 backend payload s₂) := by
  by_cases h₁ : Interrupted blake3 backend payload s₁
  · by_cases h₂ : Interrupted blake3 backend payload s₂
    · rw [(applyPayload_interrupted h₁).1,(applyPayload_interrupted h₂).1]
      exact iff_of_true hsame (iff_of_true h₁ h₂)
    · exact iff_of_false (interrupted_alone hsame h₁ h₂) fun h => h₂ (h.mp h₁)
  · by_cases h₂ : Interrupted blake3 backend payload s₂
    · have hsame' : SameClaims s₂.db s₁.db := ⟨hsame.nullifiers.symm,hsame.utxos.symm⟩
      apply iff_of_false _ fun h => h₁ (h.mpr h₂)
      intro hafter
      exact interrupted_alone hsame' h₂ h₁ ⟨hafter.nullifiers.symm,hafter.utxos.symm⟩
    · rw [applyPayload_settles h₁,applyPayload_settles h₂]
      exact iff_of_true (settle_sameClaims hsame payload) (iff_of_false h₁ h₂)

/-- One entry, finished on both replicas: they still agree exactly when it was
interrupted on both of them or on neither. -/
theorem applyEntry_agree {entry : Entry} {s₁ s₂ t₁ t₂ : Ledger} {r₁ r₂ : LedgerResponse}
    (hsame : SameClaims s₁.db s₂.db)
    (h₁ : (applyEntry blake3 backend cbor entry).run s₁ = (.ok r₁,t₁))
    (h₂ : (applyEntry blake3 backend cbor entry).run s₂ = (.ok r₂,t₂)) :
    SameLedger t₁.db t₂.db ↔
      (Interrupted blake3 backend entry.payload s₁ ↔ Interrupted blake3 backend entry.payload s₂) := by
  rcases applyEntry_ok h₁ with ⟨bytes,hencode,hdb₁⟩
  rcases applyEntry_ok h₂ with ⟨bytes',hencode',hdb₂⟩
  rw [hencode] at hencode'
  cases hencode'
  rw [← applyPayload_agree hsame,hdb₁,hdb₂]
  constructor
  · intro h
    exact ⟨h.nullifiers,h.utxos⟩
  · intro h
    exact sameLedger_marked h bytes

section Runs
variable (blake3) (backend) (cbor)

/-- The replicas agree before the first entry and after each of them. -/
def AgreeThroughout : List Entry → Ledger → Ledger → Prop
  | [],s₁,s₂ => SameLedger s₁.db s₂.db
  | entry::rest,s₁,s₂ => SameLedger s₁.db s₂.db ∧
      AgreeThroughout rest ((applyEntry blake3 backend cbor entry).run s₁).2
        ((applyEntry blake3 backend cbor entry).run s₂).2

/-- Every entry is interrupted on both replicas or on neither. -/
def InterruptedTogether : List Entry → Ledger → Ledger → Prop
  | [],_,_ => True
  | entry::rest,s₁,s₂ =>
      (Interrupted blake3 backend entry.payload s₁ ↔ Interrupted blake3 backend entry.payload s₂) ∧
      InterruptedTogether rest ((applyEntry blake3 backend cbor entry).run s₁).2
        ((applyEntry blake3 backend cbor entry).run s₂).2

end Runs

theorem AgreeThroughout.head {entries : List Entry} {s₁ s₂ : Ledger}
    (h : AgreeThroughout blake3 backend cbor entries s₁ s₂) : SameLedger s₁.db s₂.db := by
  cases entries with
  | nil => exact h
  | cons entry rest => exact h.1

theorem applyEntries_agree {entries : List Entry} {s₁ s₂ t₁ t₂ : Ledger}
    {r₁ r₂ : List LedgerResponse} (hsame : SameLedger s₁.db s₂.db)
    (h₁ : (applyEntries blake3 backend cbor entries).run s₁ = (.ok r₁,t₁))
    (h₂ : (applyEntries blake3 backend cbor entries).run s₂ = (.ok r₂,t₂)) :
    (AgreeThroughout blake3 backend cbor entries s₁ s₂ ↔
        InterruptedTogether blake3 backend cbor entries s₁ s₂) ∧
      (InterruptedTogether blake3 backend cbor entries s₁ s₂ → SameLedger t₁.db t₂.db) := by
  induction entries generalizing s₁ s₂ r₁ r₂ with
  | nil =>
      cases h₁
      cases h₂
      exact ⟨iff_of_true hsame trivial,fun _ => hsame⟩
  | cons entry rest ih =>
      rcases bind_ok.mp h₁ with ⟨_,u₁,hentry₁,hrest₁⟩
      rcases bind_ok.mp h₂ with ⟨_,u₂,hentry₂,hrest₂⟩
      rcases bind_ok.mp hrest₁ with ⟨_,_,hrest₁,hpure₁⟩
      rcases bind_ok.mp hrest₂ with ⟨_,_,hrest₂,hpure₂⟩
      cases hpure₁
      cases hpure₂
      have hstep := applyEntry_agree hsame.toSameClaims hentry₁ hentry₂
      simp only [AgreeThroughout,InterruptedTogether,hentry₁,hentry₂]
      constructor
      · constructor
        · intro h
          exact ⟨hstep.mp h.2.head,(ih h.2.head hrest₁ hrest₂).1.mp h.2⟩
        · intro h
          exact ⟨hsame,(ih (hstep.mpr h.1) hrest₁ hrest₂).1.mpr h.2⟩
      · intro h
        exact (ih (hstep.mpr h.1) hrest₁ hrest₂).2 h.2

/-- Replicas with equal tables which both finish the same entries agree after every
entry exactly when no claim is interrupted on one of them alone, and then they
agree in the end. -/
theorem replicas_agree_iff_interrupted_together {entries : List Entry} {s₁ s₂ t₁ t₂ : Ledger}
    {r₁ r₂ : List LedgerResponse} (hstart : s₁.db = s₂.db)
    (h₁ : (applyToStateMachine blake3 backend cbor entries).run s₁ = (.ok r₁,t₁))
    (h₂ : (applyToStateMachine blake3 backend cbor entries).run s₂ = (.ok r₂,t₂)) :
    (AgreeThroughout blake3 backend cbor entries s₁ s₂ ↔
        InterruptedTogether blake3 backend cbor entries s₁ s₂) ∧
      (InterruptedTogether blake3 backend cbor entries s₁ s₂ → SameLedger t₁.db t₂.db) := by
  rcases ofExcept_bind_ok.mp h₁ with ⟨m₁,-,hbatch₁⟩
  rcases ofExcept_bind_ok.mp h₂ with ⟨m₂,-,hbatch₂⟩
  rcases bind_ok.mp (mapFailure_ok.mp hbatch₁) with ⟨_,u₁,hentries₁,hrest₁⟩
  rcases bind_ok.mp (mapFailure_ok.mp hbatch₂) with ⟨_,u₂,hentries₂,hrest₂⟩
  rcases bind_ok.mp hrest₁ with ⟨_,_,hsave₁,hpure₁⟩
  rcases bind_ok.mp hrest₂ with ⟨_,_,hsave₂,hpure₂⟩
  cases hpure₁
  cases hpure₂
  have hsame : SameLedger s₁.db s₂.db := hstart ▸ SameLedger.refl s₁.db
  have hentries := applyEntries_agree hsame hentries₁ hentries₂
  refine ⟨hentries.1,?_⟩
  intro htogether
  have hafter := hentries.2 htogether
  exact (saveLastMembership_ok hsave₁).trans (hafter.trans (saveLastMembership_ok hsave₂).symm)

end Writer

/-- A batch of one entry without a membership is that entry. -/
theorem applyToStateMachine_single {blake3 : Bytes → Hash} {backend : ProofBackend} {cbor : Cbor}
    {entry : Entry} {s t : Ledger} {response : LedgerResponse}
    (hmembership : latestMembership cbor none [entry] = .ok none)
    (h : (applyEntry blake3 backend cbor entry).run s = (.ok response,t)) :
    (applyToStateMachine blake3 backend cbor [entry]).run s = (.ok [response],t) := by
  have hentries : (applyEntries blake3 backend cbor [entry]).run s = (.ok [response],t) :=
    bind_ok.mpr ⟨_,_,h,rfl⟩
  exact ofExcept_bind_ok.mpr ⟨none,hmembership,
    mapFailure_ok.mpr (bind_ok.mpr ⟨_,_,hentries,rfl⟩)⟩

/-- The first of the three leaves is claimed by the first entry of the log. -/
def firstEntry : Entry := ⟨mixedLogId 1,.normal (firstCommand [1])⟩

theorem firstEntry_encodes :
    ∀ entry ∈ [firstEntry], ∃ bytes, mixedCbor.logId.encode entry.logId = .ok bytes := by
  intro entry hentry
  rw [List.mem_singleton.mp hentry]
  exact ⟨mixedLogBytes 1,rfl⟩

theorem firstEntry_acceptable :
    Acceptable singleChunkHash firstBackend (firstCommand [1]) emptyDb :=
  utxo_acceptable_empty (firstCommand_vetted (by decide))

/-- The replica without faults writes the rows of the claim. -/
theorem firstEntry_calm (outside : Outside) :
    ∃ responses t, (applyToStateMachine singleChunkHash firstBackend mixedCbor [firstEntry]).run
        (calmAt emptyDb outside) = (.ok responses,t) ∧
      SameClaims t.db (applied singleChunkHash (firstCommand [1]) emptyDb) := by
  rcases @applyToStateMachine_calm singleChunkHash firstBackend mixedCbor [firstEntry] none emptyDb
    outside rfl firstEntry_encodes with ⟨responses,hrun⟩
  have hbytes : mixedCbor.logId.encode firstEntry.logId = .ok (mixedLogBytes 1) := rfl
  refine ⟨responses,_,hrun,?_⟩
  rw [calmAt_db,batchCommits,membershipCommit,List.append_nil,List.flatMap_singleton,
    performAll_entry hbytes,firstEntry,settle_accepts firstEntry_acceptable]
  exact ⟨rfl,rfl⟩

/-- The insert of the nullifier fails, and nothing else. -/
def insertFails : ℕ → Option String := fun n => if n = 2 then some "disk I/O error" else none

/-- The struck replica finishes the entry as well, without its rows. -/
theorem firstEntry_struck (outside : Outside) :
    ∃ responses t, (applyToStateMachine singleChunkHash firstBackend mixedCbor [firstEntry]).run
        ⟨emptyDb,outside,insertFails⟩ = (.ok responses,t) ∧ SameClaims t.db emptyDb := by
  have hstruck : ∃ k < claimStatements (firstCommand [1]), insertFails k ≠ none :=
    ⟨2,by decide,by decide⟩
  rcases (applyClaimTx_takes singleChunkHash firstBackend firstEntry_acceptable outside).struck
    insertFails hstruck with ⟨e,t,j,hclaim,⟨k,hk,hfault⟩,hleft⟩
  have htwo : k = 2 := by
    by_contra hne
    exact hfault (if_neg hne)
  have hcalm : t = calmAt emptyDb t.world := by
    have hdb : t.db = emptyDb := atomic_applyClaimTx _ _ _ _ e t hclaim
    have hfaults : t.faults = fun _ => none := by
      rw [hleft]
      funext n
      exact if_neg (by omega)
    cases t
    cases hdb
    cases hfaults
    rfl
  rcases applyPayload_normal singleChunkHash firstBackend (firstCommand [1])
    ⟨emptyDb,outside,insertFails⟩ with ⟨response,hpayload⟩
  rw [hclaim] at hpayload
  have hsave : (saveRaftMeta .lastAppliedLogId (some (mixedLogBytes 1))).run t =
      (.ok (),calmAt (putMeta .lastAppliedLogId (mixedLogBytes 1) emptyDb) t.world) := by
    rw [hcalm]
    exact execute_calm.mpr ⟨_,rfl,rfl⟩
  have hentry : (applyEntry singleChunkHash firstBackend mixedCbor firstEntry).run
      ⟨emptyDb,outside,insertFails⟩ =
        (.ok response,calmAt (putMeta .lastAppliedLogId (mixedLogBytes 1) emptyDb) t.world) :=
    bind_ok.mpr ⟨_,_,hpayload,ofExcept_bind_ok.mpr ⟨mixedLogBytes 1,rfl,
      bind_ok.mpr ⟨_,_,hsave,rfl⟩⟩⟩
  exact ⟨[response],_,applyToStateMachine_single rfl hentry,⟨rfl,rfl⟩⟩

/-- One replica with a failing insert: both calls succeed, with different tables. -/
theorem struck_replica_diverges :
    ∃ (backend : ProofBackend) (cbor : Cbor) (entries : List Entry) (s₁ s₂ t₁ t₂ : Ledger)
      (r₁ r₂ : List LedgerResponse),
      s₁.db = s₂.db ∧
      (applyToStateMachine singleChunkHash backend cbor entries).run s₁ = (.ok r₁,t₁) ∧
      (applyToStateMachine singleChunkHash backend cbor entries).run s₂ = (.ok r₂,t₂) ∧
      ¬SameLedger t₁.db t₂.db := by
  rcases firstEntry_calm ⟨∅,false⟩ with ⟨r₁,t₁,h₁,hclaims₁⟩
  rcases firstEntry_struck ⟨∅,false⟩ with ⟨r₂,t₂,h₂,hclaims₂⟩
  refine ⟨firstBackend,mixedCbor,[firstEntry],calmAt emptyDb ⟨∅,false⟩,
    ⟨emptyDb,⟨∅,false⟩,insertFails⟩,t₁,t₂,r₁,r₂,rfl,h₁,h₂,?_⟩
  intro hsame
  have hunchanged : SameClaims (applied singleChunkHash (firstCommand [1]) emptyDb) emptyDb :=
    ⟨hclaims₁.nullifiers.symm.trans (hsame.nullifiers.trans hclaims₂.nullifiers),
      hclaims₁.utxos.symm.trans (hsame.utxos.trans hclaims₂.utxos)⟩
  have hinputs : claimInputs (firstCommand [1]).claim ≠ [] := List.cons_ne_nil _ _
  exact not_acceptable_applied hinputs firstEntry_acceptable
    (hunchanged.acceptable.mpr firstEntry_acceptable)

/-- Two replicas without faults agree on the same entry. -/
theorem calm_replicas_agree :
    ∃ (r : List LedgerResponse) (t : Ledger),
      (applyToStateMachine singleChunkHash firstBackend mixedCbor [firstEntry]).run
        (calmAt emptyDb ⟨∅,false⟩) = (.ok r,t) ∧
      AgreeThroughout singleChunkHash firstBackend mixedCbor [firstEntry]
        (calmAt emptyDb ⟨∅,false⟩) (calmAt emptyDb ⟨∅,false⟩) ∧ SameLedger t.db t.db := by
  rcases firstEntry_calm ⟨∅,false⟩ with ⟨r,t,hrun,-⟩
  have hspec := replicas_agree_iff_interrupted_together rfl hrun hrun
  have htogether : InterruptedTogether singleChunkHash firstBackend mixedCbor [firstEntry]
      (calmAt emptyDb ⟨∅,false⟩) (calmAt emptyDb ⟨∅,false⟩) := ⟨Iff.rfl,trivial⟩
  exact ⟨r,t,hrun,hspec.1.mpr htogether,hspec.2 htogether⟩

end OmegaHarness.ReplicaAgreement
