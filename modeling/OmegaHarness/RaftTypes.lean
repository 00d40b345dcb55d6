import OmegaHarness.LedgerStore

/-!
# Replicated commands and consensus records

The types which the ledger exchanges with the consensus library: identifiers,
votes, memberships and log entries with the fields that library stores, the
command carried by a normal entry, and the response to it. A submitted claim
becomes a command with block index zero and with the commitment which the
claim's own proof envelope carries.
-/
namespace OmegaHarness.RaftTypes
open DomainHashes ClaimTypes ClaimVerifier LedgerStore

structure LedgerCommand where
  blockIdx : UInt64
  commitment : OmegaCommitment
  claim : ClaimTx
  deriving DecidableEq, Repr

def claimProof : ClaimTx → ProofBytes
  | .utxo claim => claim.proof
  | .collection claim => claim.proof

def LedgerCommand.applyClaim (backend : ProofBackend) (claim : ClaimTx) :
    Except LedgerError LedgerCommand :=
  match backend.decodeEnvelope (claimProof claim) with
  | none => .error (.verify .invalidProof)
  | some envelope => .ok { blockIdx := 0,commitment := envelope.commitment,claim := claim }

theorem applyClaim_ok {backend : ProofBackend} {claim : ClaimTx} {command : LedgerCommand} :
    LedgerCommand.applyClaim backend claim = .ok command ↔
      ∃ envelope, backend.decodeEnvelope (claimProof claim) = some envelope ∧
        command = { blockIdx := 0,commitment := envelope.commitment,claim := claim } := by
  unfold LedgerCommand.applyClaim
  cases backend.decodeEnvelope (claimProof claim) <;> simp [eq_comm]

inductive LedgerReject where
  | verify
  | invalidClaim
  | replay
  | writerClosed
  | internal
  deriving DecidableEq, Repr

structure LedgerResponse where
  accepted : Bool
  reject : Option LedgerReject
  error : Option String
  deriving DecidableEq, Repr

def LedgerResponse.ofAccepted : LedgerResponse := ⟨true,none,none⟩

def rejectClass : LedgerError → LedgerReject
  | .verify _ => .verify
  | .invalidClaim _ => .invalidClaim
  | .replay _ _ => .replay
  | .writerClosed => .writerClosed
  | .writerReplyCanceled => .writerClosed
  | _ => .internal

def LedgerResponse.rejected (error : LedgerError) : LedgerResponse :=
  ⟨false,some (rejectClass error),some error.display⟩

structure LeaderId where
  term : UInt64
  nodeId : UInt64
  deriving DecidableEq, Repr

structure LogId where
  leaderId : LeaderId
  index : UInt64
  deriving DecidableEq, Repr

structure Vote where
  leaderId : LeaderId
  committed : Bool
  deriving DecidableEq, Repr

structure Membership where
  configs : List (List UInt64)
  nodes : List (UInt64 × String)
  deriving DecidableEq, Repr

structure StoredMembership where
  logId : Option LogId
  membership : Membership
  deriving DecidableEq, Repr

structure SnapshotMeta where
  lastLogId : Option LogId
  lastMembership : StoredMembership
  snapshotId : String
  deriving DecidableEq, Repr

inductive EntryPayload where
  | blank
  | normal (command : LedgerCommand)
  | membership (membership : Membership)
  deriving DecidableEq, Repr

structure Entry where
  logId : LogId
  payload : EntryPayload
  deriving DecidableEq, Repr

/-- One type's serialisation in the outside CBOR crate. -/
structure Codec (A : Type) where
  encode : A → Except String Bytes
  decode : Bytes → Except String A

/-- What is written is read back. -/
def Codec.RoundTrips {A : Type} (c : Codec A) : Prop :=
  ∀ a bytes, c.encode a = .ok bytes → c.decode bytes = .ok a

/-- What is read can be written. -/
def Codec.Rewrites {A : Type} (c : Codec A) : Prop :=
  ∀ bytes a, c.decode bytes = .ok a → ∃ bytes', c.encode a = .ok bytes'

section Listed
variable {A : Type} [DecidableEq A]

/-- The serialisation restricted to a table of values and their bytes. -/
def listedCodec (table : List (A × Bytes)) : Codec A where
  encode a :=
    match table.find? fun row => row.1 = a with
    | some row => .ok row.2
    | none => .error "not listed"
  decode bytes :=
    match table.find? fun row => row.2 = bytes with
    | some row => .ok row.1
    | none => .error "not listed"

/-- Different values with different bytes are read back. -/
theorem listedCodec_roundTrips {table : List (A × Bytes)}
    (h : ∀ r ∈ table, ∀ r' ∈ table, r.2 = r'.2 → r.1 = r'.1) : (listedCodec table).RoundTrips := by
  intro a bytes hencode
  simp only [listedCodec] at hencode ⊢
  cases hfound : table.find? fun row => row.1 = a with
  | none => simp [hfound] at hencode
  | some row =>
      rw [hfound] at hencode
      cases hencode
      have hrow := List.mem_of_find?_eq_some hfound
      have ha : row.1 = a := by simpa using List.find?_some hfound
      cases hback : table.find? fun r => r.2 = row.2 with
      | none => simpa using List.find?_eq_none.mp hback row hrow
      | some r =>
          have hbytes : r.2 = row.2 := by simpa using List.find?_some hback
          dsimp only
          rw [h r (List.mem_of_find?_eq_some hback) row hrow hbytes,ha]

theorem listedCodec_rewrites (table : List (A × Bytes)) : (listedCodec table).Rewrites := by
  intro bytes a hdecode
  simp only [listedCodec] at hdecode ⊢
  cases hfound : table.find? fun row => row.2 = bytes with
  | none => simp [hfound] at hdecode
  | some row =>
      rw [hfound] at hdecode
      cases hdecode
      cases hback : table.find? fun r => r.1 = row.1 with
      | none => simpa using List.find?_eq_none.mp hback row (List.mem_of_find?_eq_some hfound)
      | some r => exact ⟨r.2,rfl⟩

end Listed

/-- A vote in CBOR: a map of the leader id, itself a map, and the committed flag. -/
def voteBytes (term nodeId committed : UInt8) : Bytes :=
  [0xa2,0x69,0x6c,0x65,0x61,0x64,0x65,0x72,0x5f,0x69,0x64,
    0xa2,0x64,0x74,0x65,0x72,0x6d,term,0x67,0x6e,0x6f,0x64,0x65,0x5f,0x69,0x64,nodeId,
    0x69,0x63,0x6f,0x6d,0x6d,0x69,0x74,0x74,0x65,0x64,committed]

structure Cbor where
  vote : Codec Vote
  logId : Codec LogId
  storedMembership : Codec StoredMembership
  snapshotMeta : Codec SnapshotMeta
  entry : Codec Entry

end OmegaHarness.RaftTypes
