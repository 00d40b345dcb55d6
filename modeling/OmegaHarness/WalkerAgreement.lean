import OmegaHarness.TokenTotals

/-!
# When the three walks agree

On entries of the common format the outputs are refused for an index beyond 32 bits and
for asset maps out of order, policies and scripts for an address which has not 32 bytes.
These are different conditions, so a snapshot may give a tree of outputs and no tree of
policies, or the other way around.
-/
namespace OmegaHarness.WalkerAgreement
open BundleAssembly ByteDecoders CborHeads DomainHashes HostileLengths LedgerIngest
open SnapshotWalkers TokenTotals

def Accepts {A : Type} (result : Except (Halt IngestError) A) : Prop := ∃ a, result = .ok a

def Refuses {A : Type} (result : Except (Halt IngestError) A) : Prop :=
  ∃ e, result = .error (.failed e)

theorem refuses_iff {A : Type} {result : Except (Halt IngestError) A}
    (h : result ≠ .error .capacityOverflow) : Refuses result ↔ ¬Accepts result := by
  unfold Refuses Accepts
  cases result with
  | ok a => simp
  | error halt =>
      cases halt with
      | failed e => simp
      | capacityOverflow => exact (h rfl).elim

/-- All three walks succeed, or all three report an error. -/
def WalksAgree (r : MapReader) (sizes : RecordSizes) (cbor : Bytes) : Prop :=
  (Accepts (ingestUtxos r sizes cbor) ∧ Accepts (ingestTokenPolicies r cbor) ∧
      Accepts (ingestScripts r cbor)) ∨
    (Refuses (ingestUtxos r sizes cbor) ∧ Refuses (ingestTokenPolicies r cbor) ∧
      Refuses (ingestScripts r cbor))

section
variable {r : MapReader} {sizes : RecordSizes} {cbor : Vec UInt8}

/-- A walk which makes a value of the entries it demands something of accepts those inputs
whose entries meet the demand. -/
theorem accepts_iff {A : Type} {result : Except (Halt IngestError) A} {demand : SnapshotEntry → Prop}
    {value : List SnapshotEntry → A}
    (hok : ∀ a, result = .ok a ↔
      ∃ es, readSnapshot r cbor.val = .ok es ∧ (∀ e ∈ es, demand e) ∧ value es = a) :
    Accepts result ↔ ∃ es, readSnapshot r cbor.val = .ok es ∧ ∀ e ∈ es, demand e := by
  constructor
  · intro haccepts
    obtain ⟨a,ha⟩ := haccepts
    obtain ⟨es,hes,hdemand,-⟩ := (hok a).mp ha
    exact ⟨es,hes,hdemand⟩
  · intro hread
    obtain ⟨es,hes,hdemand⟩ := hread
    exact ⟨value es,(hok _).mpr ⟨es,hes,hdemand,rfl⟩⟩

theorem ingestUtxos_accepts (h : r.FollowsRfc)
    (halloc : ingestUtxos r sizes cbor.val ≠ .error .capacityOverflow) :
    Accepts (ingestUtxos r sizes cbor.val) ↔
      ∃ es, readSnapshot r cbor.val = .ok es ∧ ∀ e ∈ es, FitsUtxo e :=
  accepts_iff fun _ => ingestUtxos_ok h halloc

theorem ingestTokenPolicies_accepts (h : r.FollowsRfc) :
    Accepts (ingestTokenPolicies r cbor.val) ↔
      ∃ es, readSnapshot r cbor.val = .ok es ∧ ∀ e ∈ es, e.fields.address.length = 32 :=
  accepts_iff fun _ => ingestTokenPolicies_ok h

theorem ingestScripts_accepts (h : r.FollowsRfc) :
    Accepts (ingestScripts r cbor.val) ↔
      ∃ es, readSnapshot r cbor.val = .ok es ∧ ∀ e ∈ es, e.fields.address.length = 32 :=
  accepts_iff fun _ => ingestScripts_ok h

/-- Policies and scripts make the same demands, so it is the outputs which decide. -/
theorem walksAgree_iff_accepts (h : r.FollowsRfc)
    (halloc : ingestUtxos r sizes cbor.val ≠ .error .capacityOverflow) :
    WalksAgree r sizes cbor.val ↔
      (Accepts (ingestTokenPolicies r cbor.val) ↔ Accepts (ingestUtxos r sizes cbor.val)) := by
  have hscripts : Accepts (ingestScripts r cbor.val) ↔ Accepts (ingestTokenPolicies r cbor.val) :=
    (ingestScripts_accepts h).trans (ingestTokenPolicies_accepts h).symm
  rw [WalksAgree,refuses_iff halloc,refuses_iff (ingestTokenPolicies_not_panic h cbor),
    refuses_iff (ingestScripts_not_panic h cbor),hscripts]
  tauto

/-- The three walks agree on an input exactly when, should it hold entries of the common
format, all addresses have 32 bytes if and only if all indices have 32 bits and all asset
maps ascend. -/
theorem walks_agree_iff (h : r.FollowsRfc)
    (halloc : ingestUtxos r sizes cbor.val ≠ .error .capacityOverflow) :
    WalksAgree r sizes cbor.val ↔
      ∀ es, readSnapshot r cbor.val = .ok es →
        ((∀ e ∈ es, e.fields.address.length = 32) ↔ ∀ e ∈ es, FitsUtxo e) := by
  rw [walksAgree_iff_accepts h halloc,ingestTokenPolicies_accepts h,ingestUtxos_accepts h halloc]
  cases hread : readSnapshot r cbor.val with
  | error e => simp
  | ok es => simp

end

/-- One output of the minimal form. -/
def minimalEntry (index address : Bytes) : Bytes :=
  [0x81,0x84,0x58,0x20]++List.replicate 32 1++index++address++[0x05]

def plainEntry : Vec UInt8 := ⟨minimalEntry [0x00] ([0x58,0x20]++List.replicate 32 2),by decide⟩

theorem plain_entry_agreed :
    ingestUtxos reference smallestRecords plainEntry.val ≠ .error .capacityOverflow ∧
      WalksAgree reference smallestRecords plainEntry.val := by
  have halloc : ingestUtxos reference smallestRecords plainEntry.val ≠
      .error .capacityOverflow := by
    decide +kernel
  have hread : readSnapshot reference plainEntry.val =
      .ok [⟨⟨4,Vector.replicate 32 1,0,List.replicate 32 2,5⟩,[],none⟩] := by
    decide +kernel
  refine ⟨halloc,(walks_agree_iff reference_follows halloc).mpr ?_⟩
  intro es hes
  rw [hread] at hes
  cases hes
  decide

/-- An address of one byte, and an index of `2^32`. -/
def shortAddress : Vec UInt8 := ⟨minimalEntry [0x00] [0x41,0x61],by decide⟩

def wideIndex : Vec UInt8 :=
  ⟨minimalEntry [0x1b,0,0,0,1,0,0,0,0] ([0x58,0x20]++List.replicate 32 2),by decide⟩

/-- The outputs accept the first and refuse the second, the other two walks do the
opposite. -/
theorem walks_disagree :
    Accepts (ingestUtxos reference smallestRecords shortAddress.val) ∧
      Refuses (ingestTokenPolicies reference shortAddress.val) ∧
      Refuses (ingestScripts reference shortAddress.val) ∧
      ¬WalksAgree reference smallestRecords shortAddress.val ∧
      Refuses (ingestUtxos reference smallestRecords wideIndex.val) ∧
      Accepts (ingestTokenPolicies reference wideIndex.val) ∧
      Accepts (ingestScripts reference wideIndex.val) ∧
      ¬WalksAgree reference smallestRecords wideIndex.val := by
  have hshort : ingestUtxos reference smallestRecords shortAddress.val =
      .ok [⟨Vector.replicate 32 1,0,[0x61],5,[],.none,none⟩] := by
    decide +kernel
  have hshort' : ingestTokenPolicies reference shortAddress.val =
      .error (.failed (.other "cbor: expected 32-byte string, got 1")) := by
    decide +kernel
  have hshortScripts : ingestScripts reference shortAddress.val =
      .error (.failed (.other "cbor: expected 32-byte string, got 1")) := by
    decide +kernel
  have hwide : ingestUtxos reference smallestRecords wideIndex.val =
      .error (.failed (.schema "utxo.output_index" "output_index too large for u32")) := by
    decide +kernel
  have hwide' : ingestTokenPolicies reference wideIndex.val = .ok [] := by
    decide +kernel
  have hwideScripts : ingestScripts reference wideIndex.val = .ok [] := by
    decide +kernel
  refine ⟨⟨_,hshort⟩,⟨_,hshort'⟩,⟨_,hshortScripts⟩,?_,⟨_,hwide⟩,⟨_,hwide'⟩,⟨_,hwideScripts⟩,?_⟩
  · intro hagree
    obtain ⟨-,⟨policies,hpolicies⟩,-⟩ | ⟨⟨e,hrefused⟩,-⟩ := hagree
    · rw [hshort'] at hpolicies
      cases hpolicies
    · rw [hshort] at hrefused
      cases hrefused
  · intro hagree
    obtain ⟨⟨utxos,hutxos⟩,-⟩ | ⟨-,⟨e,hrefused⟩,-⟩ := hagree
    · rw [hwide] at hutxos
      cases hutxos
    · rw [hwide'] at hrefused
      cases hrefused

end OmegaHarness.WalkerAgreement
