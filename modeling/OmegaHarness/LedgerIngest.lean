import OmegaHarness.BundleAssembly
import OmegaHarness.CborHeads
import OmegaHarness.LeafEncodings

/-!
# Ingesting ledger snapshots

The readers of `omega-commitment-ingest` for unspent outputs, stake entries and
governance facts. Each takes a CBOR array of records: the count comes first and
reserves the result vector, then one loop reads the records, and nothing may be
left. The helpers report through `anyhow`, as a message; `?` turns it into the
catch-all variant of the error type.

Behind the reservation of the result there is one more, for the identifier of an
asset. It is as long as bytes already read, so it always fits.
-/
namespace OmegaHarness.LedgerIngest
open BundleAssembly ByteDecoders CborHeads Decode DomainHashes FixedWidthBytes LeafEncodings

/-- The two variants these readers build. -/
inductive IngestError where
  | schema (context message : String)
  | other (message : String)
  deriving DecidableEq, Repr

/-- `?` on an `anyhow` result. -/
def other {A : Type} (p : Decode String A) : Decode IngestError A := mapFailed .other p

/-- Sizes in memory of the three records. -/
structure RecordSizes where
  utxo : ℕ
  stakeEntry : ℕ
  governanceFact : ℕ

section
variable (r : MapReader)

/-! ## The helpers of `cbor.rs` -/

def readVarBytes : Decode String Bytes := item (fun e => s!"cbor: expected bytes ({e})") r.bytes

/-- A byte string of one length, copied into an array. -/
def readSized (n : ℕ) (what : String) : Decode String (Vector UInt8 n) := do
  let bytes ← readVarBytes r
  if h : bytes.length = n then pure ⟨bytes.toArray,h⟩
  else
    let actual := bytes.length
    fail s!"cbor: expected {what}, got {actual}"

def read32Bytes : Decode String Hash := readSized r 32 "32-byte string"
def read28Bytes : Decode String Hash28 := readSized r 28 "28-byte string"

def readU128Bytes : Decode String (BitVec 128) := do
  let bytes ← readSized r 16 "16-byte u128 string"
  pure (BitVec.ofNat 128 (ofBeBytes bytes.toList))

def readU64 : Decode String UInt64 := item (fun e => s!"cbor: expected u64 ({e})") r.u64

def readU32 : Decode String UInt32 := do
  let v ← readU64 r
  ensure (v.toNat < 2^32) s!"cbor: u64 value {v} too large for u32"
  pure (UInt32.ofNat v.toNat)

def readU8 : Decode String UInt8 := item (fun e => s!"cbor: expected u8 ({e})") r.u8

/-- The count of a collection; an open end is refused. -/
def definite (what : String) (read : Bytes → Except String (Option UInt64 × Bytes)) :
    Decode String ℕ := do
  match ← item (fun e => s!"cbor: expected {what} ({e})") read with
  | some n => pure n.toNat
  | none => fail s!"cbor: expected definite-length {what}"

def readArrayLen : Decode String ℕ := definite "array" r.array
def readMapLen : Decode String ℕ := definite "map" r.map

/-- Looks at the next item, and takes it only when it is null. -/
def readNullMarker : Decode String Bool := do
  let isNull ← item (fun e => s!"cbor: peek failed ({e})") fun s => (r.isNull s).map fun b => (b,s)
  if isNull then
    item (fun e => s!"cbor: consume null ({e})") r.null
    pure true
  else pure false

def expectEnd (total : ℕ) : Decode String Unit := do
  let rest ← remaining
  let position := total-rest
  let extra := total-position
  ensure (position = total)
    s!"cbor: trailing bytes after parse: position {position} of {total} (extra {extra} bytes)"

/-- The frame of the three readers: count, reservation, records, end of input. -/
def ingest {A : Type} (size : ℕ) (records : ℕ → Decode IngestError A) (cbor : Bytes) :
    Except (Halt IngestError) A :=
  run (do
    let n ← other (readArrayLen r)
    withCapacity size n
    let out ← records n
    other (expectEnd cbor.length)
    pure out) cbor

/-! ## Unspent outputs -/

/-- Keys of a map ascend strictly. -/
def checkAscending (message : String) (key : Bytes) (last : Option Bytes) : Decode String Unit :=
  match last with
  | none => pure ()
  | some prev =>
      let shown := hexEncode key
      let before := hexEncode prev
      ensure (¬key ≤ prev)
        s!"non-canonical asset map: {message} {shown} not strictly greater than previous {before}"

/-- Under a policy the message names it at the end. -/
def checkAscendingName (policy : Hash28) (name : Bytes) (last : Option Bytes) :
    Decode String Unit :=
  let under := hexEncode policy.toList
  mapFailed (fun message => s!"{message} under policy {under}")
    (checkAscending "asset_name" name last)

/-- One entry of the inner map: the last name and the assets so far. -/
def parseAsset (policy : Hash28) (st : Option Bytes × List Asset) :
    Decode String (Option Bytes × List Asset) := do
  let name ← readVarBytes r
  checkAscendingName policy name st.1
  let quantity ← readU64 r
  withCapacity 1 (28+name.length)
  pure (some name,st.2++[⟨policy.toList++name,quantity⟩])

/-- One entry of the outer map: the last policy and the assets so far. -/
def parsePolicy (st : Option Bytes × List Asset) : Decode String (Option Bytes × List Asset) := do
  let policy ← read28Bytes r
  checkAscending "policy_id" policy.toList st.1
  let nAssets ← readMapLen r
  let inner ← loop (parseAsset r policy) nAssets (none,st.2)
  pure (some policy.toList,inner.2)

def parseMultiAssets : Decode String (List Asset) := do
  let nPolicies ← readMapLen r
  let st ← loop (parsePolicy r) nPolicies (none,[])
  pure st.2

def skipScriptCredential : Decode String Unit := do
  let absent ← readNullMarker r
  if absent then pure ()
  else do
    let arity ← readArrayLen r
    ensure (arity = 3) s!"script_credential array must be 3-elem, got {arity}"
    let _hash ← read28Bytes r
    let _language ← readU8 r
    let _size ← readU32 r
    pure ()

/-- The two fields of an extended record; the second is only skipped. -/
def readExtension (arity : ℕ) : Decode String (List Asset) :=
  if arity = 6 then do
    let assets ← parseMultiAssets r
    skipScriptCredential r
    pure assets
  else pure []

def readUtxo : Decode IngestError Utxo := do
  let arity ← other (readArrayLen r)
  ensure (arity = 4 ∨ arity = 6) (.schema "utxo.entry"
    s!"utxo entry must be 4-elem (v0.8 minimal) or 6-elem (v0.9 extended), got {arity}")
  let txId ← other (read32Bytes r)
  let outputIndex ← other (readU64 r)
  ensure (outputIndex.toNat < 2^32)
    (.schema "utxo.output_index" "output_index too large for u32")
  let address ← other (readVarBytes r)
  let valueLovelace ← other (readU64 r)
  let assets ← other (readExtension r arity)
  pure ⟨txId,UInt32.ofNat outputIndex.toNat,address,valueLovelace,assets,.none,none⟩

def ingestUtxos (sizes : RecordSizes) (cbor : Bytes) : Except (Halt IngestError) (List Utxo) :=
  ingest r sizes.utxo (times (readUtxo r)) cbor

/-! ## Stake entries -/

/-- A delegation without a payload. -/
def bareDrep (tag : String) (arity : ℕ) (delegation : DrepDelegation) :
    Decode String DrepDelegation := do
  ensure (arity = 1) s!"drep tag {tag} must carry no payload, got arity {arity}"
  pure delegation

def hashedDrep (tag : String) (arity : ℕ) (delegation : Hash28 → DrepDelegation) :
    Decode String DrepDelegation := do
  ensure (arity = 2) s!"drep tag {tag} requires 28-byte payload, got arity {arity}"
  let hash ← read28Bytes r
  pure (delegation hash)

def readDrep : Decode String DrepDelegation := do
  let arity ← readArrayLen r
  ensure (¬(arity = 0 ∨ arity > 2)) s!"drep array must be 1- or 2-elem, got {arity}"
  let tag ← readU8 r
  if tag = 0x00 then bareDrep "0x00 (None)" arity .none
  else if tag = 0x01 then hashedDrep r "0x01 (KeyHash)" arity .keyHash
  else if tag = 0x02 then hashedDrep r "0x02 (ScriptHash)" arity .scriptHash
  else if tag = 0x03 then bareDrep "0x03 (AlwaysAbstain)" arity .alwaysAbstain
  else if tag = 0x04 then bareDrep "0x04 (AlwaysNoConfidence)" arity .alwaysNoConfidence
  else
    let shown := hexEncode [tag]
    fail s!"unknown drep tag byte 0x{shown}"

def readStakeEntry : Decode IngestError StakeEntry := do
  let arity ← other (readArrayLen r)
  ensure (arity = 5) (.schema "stake.entry" s!"stake entry must be 5-elem, got {arity}")
  let stakeCredentialHash ← other (read28Bytes r)
  let delegatedPool ← other (read28Bytes r)
  let delegatedDrep ← other (readDrep r)
  let rewardsLovelace ← other (readU64 r)
  let isPoolOperator ← other (readU8 r)
  pure ⟨stakeCredentialHash,delegatedPool,delegatedDrep,rewardsLovelace,isPoolOperator⟩

def ingestStake (sizes : RecordSizes) (cbor : Bytes) :
    Except (Halt IngestError) (List StakeEntry) :=
  ingest r sizes.stakeEntry (times (readStakeEntry r)) cbor

/-! ## Governance facts -/

def readAccountPot (name : String) : Decode String UInt64 :=
  mapFailed (fun e => s!"AccountState missing pot '{name}': {e}") (readU64 r)

/-- The facts of the four kinds with a key. -/
def readKeyedFact (arity : ℕ) (kindByte : UInt8)
    (fact : Hash → BitVec 128 → UInt64 → GovernanceFact) : Decode IngestError GovernanceFact := do
  ensure (arity = 4) (.schema "governance.fact" s!"kind={kindByte} must be 4-elem, got {arity}")
  let key ← other (read32Bytes r)
  let value ← other (readU128Bytes r)
  let slot ← other (readU64 r)
  pure (fact key value slot)

/-- The pots are read before a second account state is refused. -/
def readAccountState (arity : ℕ) (sawAccountState : Bool) : Decode IngestError GovernanceFact := do
  ensure (arity = 5) (.schema "governance.account_state"
    s!"kind=4 must be 5-elem [kind, reserves, treasury, deposits, fee_pot], got {arity}")
  let reserves ← other (readAccountPot r "reserves")
  let treasury ← other (readAccountPot r "treasury")
  let deposits ← other (readAccountPot r "deposits")
  let feePot ← other (readAccountPot r "fee_pot")
  ensure (sawAccountState = false) (.schema "governance.account_state"
    "duplicate AccountState entry: snapshot must carry exactly one")
  pure (.accountState reserves treasury deposits feePot)

/-- One round of the loop, over the flag and the facts so far. -/
def readFact (st : Bool × List GovernanceFact) :
    Decode IngestError (Bool × List GovernanceFact) := do
  let arity ← other (readArrayLen r)
  let kindByte ← other (readU8 r)
  if kindByte = 4 then do
    let fact ← readAccountState r arity st.1
    pure (true,st.2++[fact])
  else do
    let fact ←
      if kindByte = 0 then readKeyedFact r arity kindByte .treasury
      else if kindByte = 1 then readKeyedFact r arity kindByte .ccSeat
      else if kindByte = 2 then readKeyedFact r arity kindByte .ratifiedAction
      else if kindByte = 3 then readKeyedFact r arity kindByte .inFlightAction
      else
        let shown := hexEncode [kindByte]
        fail (.schema "governance.fact" s!"unknown governance fact kind byte 0x{shown}")
    pure (st.1,st.2++[fact])

def readFacts (n : ℕ) : Decode IngestError (List GovernanceFact) := do
  let st ← loop (readFact r) n (false,[])
  pure st.2

def ingestGovernance (sizes : RecordSizes) (cbor : Bytes) :
    Except (Halt IngestError) (List GovernanceFact) :=
  ingest r sizes.governanceFact (readFacts r) cbor

end

/-! ## The records never overflow a reservation -/

section
variable {r : MapReader} {k : ℕ}

theorem readVarBytes_fits (h : r.FollowsRfc) :
    Triple (Fits k) (readVarBytes r) fun bytes => Fits (k+bytes.length) := by
  refine Triple.reads (PanicFree.item _ _) ?_
  intro s bytes t hread
  obtain ⟨x,hx,rfl⟩ := h.bytes_inverts (item_ok.mp hread)
  obtain ⟨w,-,rfl⟩ := mem_rfc_bytes hx
  simp only [List.length_append]
  omega

theorem readSized_fits (h : r.FollowsRfc) (n : ℕ) (what : String) :
    Triple (Fits k) (readSized r n what) fun _ => Fits (k+n) := by
  refine (readVarBytes_fits h).bind ?_
  intro bytes
  split
  · rename_i hlen
    rw [hlen]
    exact Keeps.pure _
  · exact Triple.fail _

theorem readU64_fits (h : r.FollowsRfc) : Keeps k (readU64 r) := by
  refine Keeps.shrinks (PanicFree.item _ _) ?_
  intro s a t hread
  obtain ⟨x,-,rfl⟩ := h.u64_inverts (item_ok.mp hread)
  simp

theorem readU8_fits (h : r.FollowsRfc) : Keeps k (readU8 r) := by
  refine Keeps.shrinks (PanicFree.item _ _) ?_
  intro s a t hread
  obtain ⟨x,-,rfl⟩ := h.u8_inverts (item_ok.mp hread)
  simp

theorem PanicFree.definite (what : String) (read : Bytes → Except String (Option UInt64 × Bytes)) :
    PanicFree (definite what read) := by
  refine PanicFree.bind (PanicFree.item _ _) ?_
  intro count
  cases count with
  | none => exact PanicFree.fail _
  | some n => exact PanicFree.pure n.toNat

theorem definite_ok {what : String} {read : Bytes → Except String (Option UInt64 × Bytes)}
    {s t : Bytes} {n : ℕ} :
    definite what read s = .ok (n,t) ↔ ∃ count : UInt64, read s = .ok (some count,t) ∧
      count.toNat = n := by
  constructor
  · intro h
    obtain ⟨count,u,hread,hrest⟩ := bind_ok.mp h
    cases count with
    | none => cases hrest
    | some count =>
        cases hrest
        exact ⟨count,item_ok.mp hread,rfl⟩
  · rintro ⟨count,hread,rfl⟩
    exact bind_ok.mpr ⟨some count,t,item_ok.mpr hread,rfl⟩

theorem readArrayLen_fits (h : r.FollowsRfc) :
    Keeps k (readArrayLen r) := by
  refine Keeps.shrinks (PanicFree.definite _ _) ?_
  intro s n t hread
  obtain ⟨count,hcount,-⟩ := definite_ok.mp hread
  obtain ⟨x,-,rfl⟩ := h.array_inverts hcount
  simp

theorem readMapLen_fits (h : r.FollowsRfc) : Keeps k (readMapLen r) := by
  refine Keeps.shrinks (PanicFree.definite _ _) ?_
  intro s n t hread
  obtain ⟨count,hcount,-⟩ := definite_ok.mp hread
  obtain ⟨x,-,rfl⟩ := h.map_inverts hcount
  simp

theorem readU32_fits (h : r.FollowsRfc) : Keeps k (readU32 r) :=
  (readU64_fits h).bind fun _ => (Keeps.ensure _ _).bind fun _ =>
    Keeps.pure _

theorem readU128Bytes_fits (h : r.FollowsRfc) :
    Keeps k (readU128Bytes r) :=
  (Keeps.forget (readSized_fits h 16 _)).bind fun _ => Keeps.pure _

theorem readNullMarker_fits (h : r.FollowsRfc) :
    Keeps k (readNullMarker r) := by
  have hpeek : Triple (Fits k) (item (fun e => s!"cbor: peek failed ({e})")
      fun s => (r.isNull s).map fun b => (b,s)) fun _ => Fits k := by
    refine Keeps.shrinks (PanicFree.item _ _) ?_
    intro s b t hread
    obtain ⟨_,-,heq⟩ := FallibleSteps.map_ok.mp (item_ok.mp hread)
    cases heq
    exact le_refl _
  have hnull : Triple (Fits k) (item (fun e => s!"cbor: consume null ({e})") r.null)
      fun _ => Fits k := by
    refine Keeps.shrinks (PanicFree.item _ _) ?_
    intro s u t hread
    rw [h.null_inverts (item_ok.mp hread)]
    simp
  refine hpeek.bind ?_
  intro isNull
  cases isNull with
  | true => exact hnull.bind fun _ => Keeps.pure _
  | false => exact Keeps.pure _

theorem checkAscending_fits (message : String) (key : Bytes) (last : Option Bytes) :
    Keeps k (checkAscending message key last) := by
  cases last with
  | none => exact Keeps.pure _
  | some prev => exact Keeps.ensure _ _

/-- The policy has been read, so its bytes and the name's may be reserved. -/
theorem parseAsset_fits (h : r.FollowsRfc) (policy : Hash28) (st : Option Bytes × List Asset) :
    Keeps 28 (parseAsset r policy st) := by
  refine (readVarBytes_fits h).bind ?_
  intro name
  refine Triple.weaken (Q := fun _ => Fits (28+name.length)) ?_
    fun _ _ => Fits.mono (Nat.le_add_right 28 _)
  exact Keeps.bind (checkAscending_fits _ _ _).mapFailed fun _ =>
    (readU64_fits h).bind fun _ => (Keeps.withCapacity (le_refl _)).bind fun _ => Keeps.pure _

theorem parsePolicy_fits (h : r.FollowsRfc) (st : Option Bytes × List Asset) :
    Keeps 0 (parsePolicy r st) := by
  refine (readSized_fits h 28 _).bind ?_
  intro policy
  rw [Nat.zero_add]
  refine Triple.weaken (Q := fun _ => Fits 28) ?_ fun _ _ => Fits.mono (Nat.zero_le 28)
  exact Keeps.bind (checkAscending_fits _ _ _) fun _ => (readMapLen_fits h).bind fun n =>
    (Keeps.loop (parseAsset_fits h policy) n _).bind fun _ => Keeps.pure _

theorem parseMultiAssets_fits (h : r.FollowsRfc) :
    Keeps 0 (parseMultiAssets r) :=
  (readMapLen_fits h).bind fun n => (Keeps.loop (parsePolicy_fits h) n _).bind fun _ =>
    Keeps.pure _

theorem skipScriptCredential_fits (h : r.FollowsRfc) :
    Keeps k (skipScriptCredential r) := by
  refine (readNullMarker_fits h).bind ?_
  intro absent
  cases absent with
  | true => exact Keeps.pure _
  | false =>
      exact (readArrayLen_fits h).bind fun _ => (Keeps.ensure _ _).bind fun _ =>
        (Keeps.forget (readSized_fits h 28 _)).bind fun _ => (readU8_fits h).bind fun _ =>
        (readU32_fits h).bind fun _ => Keeps.pure _

theorem readExtension_fits (h : r.FollowsRfc) (arity : ℕ) :
    Keeps 0 (readExtension r arity) := by
  unfold readExtension
  split
  · exact (parseMultiAssets_fits h).bind fun _ => (skipScriptCredential_fits h).bind fun _ =>
      Keeps.pure _
  · exact Keeps.pure _

theorem readUtxo_fits (h : r.FollowsRfc) : Keeps 0 (readUtxo r) :=
  (readArrayLen_fits h).mapFailed.bind fun arity =>
    (Keeps.ensure _ _).bind fun _ =>
    (Keeps.forget (readSized_fits h 32 _)).mapFailed.bind fun _ =>
    (readU64_fits h).mapFailed.bind fun _ =>
    (Keeps.ensure _ _).bind fun _ =>
    (Keeps.forget (readVarBytes_fits h)).mapFailed.bind fun _ =>
    (readU64_fits h).mapFailed.bind fun _ =>
    (readExtension_fits h arity).mapFailed.bind fun _ => Keeps.pure _

theorem bareDrep_fits (tag : String) (arity : ℕ) (delegation : DrepDelegation) :
    Keeps k (bareDrep tag arity delegation) :=
  (Keeps.ensure _ _).bind fun _ => Keeps.pure _

theorem hashedDrep_fits (h : r.FollowsRfc) (tag : String) (arity : ℕ)
    (delegation : Hash28 → DrepDelegation) :
    Keeps k (hashedDrep r tag arity delegation) :=
  (Keeps.ensure _ _).bind fun _ => (Keeps.forget (readSized_fits h 28 _)).bind fun _ =>
    Keeps.pure _

theorem readDrep_fits (h : r.FollowsRfc) : Keeps k (readDrep r) := by
  refine (readArrayLen_fits h).bind fun arity => (Keeps.ensure _ _).bind fun _ =>
    (readU8_fits h).bind ?_
  intro tag
  split_ifs
  · exact bareDrep_fits _ _ _
  · exact hashedDrep_fits h _ _ _
  · exact hashedDrep_fits h _ _ _
  · exact bareDrep_fits _ _ _
  · exact bareDrep_fits _ _ _
  · exact Keeps.fail _

theorem readStakeEntry_fits (h : r.FollowsRfc) :
    Keeps k (readStakeEntry r) :=
  (readArrayLen_fits h).mapFailed.bind fun _ => (Keeps.ensure _ _).bind fun _ =>
    (Keeps.forget (readSized_fits h 28 _)).mapFailed.bind fun _ =>
    (Keeps.forget (readSized_fits h 28 _)).mapFailed.bind fun _ =>
    (readDrep_fits h).mapFailed.bind fun _ => (readU64_fits h).mapFailed.bind fun _ =>
    (readU8_fits h).mapFailed.bind fun _ => Keeps.pure _

theorem readKeyedFact_fits (h : r.FollowsRfc) (arity : ℕ) (kindByte : UInt8)
    (fact : Hash → BitVec 128 → UInt64 → GovernanceFact) :
    Keeps k (readKeyedFact r arity kindByte fact) :=
  (Keeps.ensure _ _).bind fun _ =>
    (Keeps.forget (readSized_fits h 32 _)).mapFailed.bind fun _ =>
    (readU128Bytes_fits h).mapFailed.bind fun _ => (readU64_fits h).mapFailed.bind fun _ =>
    Keeps.pure _

theorem readAccountState_fits (h : r.FollowsRfc) (arity : ℕ) (saw : Bool) :
    Keeps k (readAccountState r arity saw) := by
  have hpot (name : String) : Keeps k (other (readAccountPot r name)) :=
    (readU64_fits h).mapFailed.mapFailed
  exact (Keeps.ensure _ _).bind fun _ => (hpot _).bind fun _ =>
    (hpot _).bind fun _ => (hpot _).bind fun _ => (hpot _).bind fun _ =>
    (Keeps.ensure _ _).bind fun _ => Keeps.pure _

theorem readFact_fits (h : r.FollowsRfc) (st : Bool × List GovernanceFact) :
    Keeps k (readFact r st) := by
  refine (readArrayLen_fits h).mapFailed.bind fun arity => (readU8_fits h).mapFailed.bind ?_
  intro kindByte
  split_ifs
  · exact (readAccountState_fits h _ _).bind fun _ => Keeps.pure _
  · exact (readKeyedFact_fits h _ _ _).bind fun _ => Keeps.pure _
  · exact (readKeyedFact_fits h _ _ _).bind fun _ => Keeps.pure _
  · exact (readKeyedFact_fits h _ _ _).bind fun _ => Keeps.pure _
  · exact (readKeyedFact_fits h _ _ _).bind fun _ => Keeps.pure _
  · exact (Keeps.fail _).bind fun _ => Keeps.pure _

theorem readFacts_fits (h : r.FollowsRfc) (n : ℕ) :
    Keeps k (readFacts r n) :=
  (Keeps.loop (readFact_fits h) n _).bind fun _ => Keeps.pure _

end

end OmegaHarness.LedgerIngest
