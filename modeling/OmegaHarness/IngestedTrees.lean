import OmegaHarness.MembershipExactness
import OmegaHarness.ScriptRegistry
import OmegaHarness.SemanticKeys
import OmegaHarness.TokenTotals

/-!
# The trees of ingested registries

Policies and scripts are read out of a map, in the order of their hashes. A payload starts
with the hash of its record, so the payloads ascend as the records do. The builder, which
sorts payloads and refuses equal ones, then neither moves nor refuses any: the bundle tool
commits to every list which the ingest tool has written, and the record at a position of the
list is the leaf at that index.
-/
namespace OmegaHarness.IngestedTrees
open FallibleSteps DomainHashes MerkleTreeV1 LeafEncodings BundleAssembly SemanticKeys CborHeads
open MembershipExactness KeyedTables SnapshotWalkers TokenTotals ScriptRegistry Blake3Compression

/-- A comparison of lists is decided in their fronts if these have one length and differ. -/
theorem append_lt_append {a b : Bytes} (h : a < b) (hlength : a.length = b.length) (x y : Bytes) :
    a++x < b++y := by
  induction a generalizing b with
  | nil =>
      rw [List.eq_nil_of_length_eq_zero hlength.symm] at h
      exact absurd h (List.lt_irrefl [])
  | cons v a ih => cases b with
    | nil => cases hlength
    | cons w b =>
        rw [List.cons_append,List.cons_append]
        rcases List.cons_lt_cons_iff.mp h with hless | ⟨heq,hrest⟩
        · exact List.cons_lt_cons_iff.mpr (Or.inl hless)
        · exact List.cons_lt_cons_iff.mpr (Or.inr ⟨heq,ih hrest (Nat.succ.inj hlength)⟩)

/-- Payloads which start with a key of their record ascend with the keys. -/
theorem payloads_ascending {A : Type} {n : ℕ} {key : A → Vector UInt8 n} {encode rest : A → Bytes}
    (hencode : ∀ a, encode a = (key a).toList++rest a) {records : List A}
    (h : records.Pairwise fun a b => (key a).toList < (key b).toList) :
    (records.map encode).Pairwise (· < ·) := by
  rw [List.pairwise_map]
  apply h.imp
  intro a b hless
  rw [hencode,hencode]
  exact append_lt_append hless (by simp) _ _

theorem sortPayloads_ascending {payloads : List Bytes} (h : payloads.Pairwise (· < ·)) :
    sortPayloads payloads = payloads := by
  have hsorted : payloads.Pairwise (· ≤ ·) := h.imp List.le_of_lt
  exact hsorted.insertionSort_eq

theorem nodup_ascending {payloads : List Bytes} (h : payloads.Pairwise (· < ·)) :
    payloads.Nodup := by
  apply h.imp
  intro a b hless heq
  rw [heq] at hless
  exact List.lt_irrefl b hless

section Commits
variable (blake3 sha3 : Bytes → Hash) (parsers : Parsers)

/-- The text is committed to, and each payload opens the root at its own position. -/
def CommittedInOrder (subTree : SubTreeId) (raw : String) (payloads : List Bytes) : Prop :=
  ∃ roots tree, recompute blake3 sha3 parsers subTree raw = .ok roots ∧
    buildV1 blake3 subTree.numericId payloads = .ok tree ∧ roots.blake3Root = tree.root ∧
    roots.itemCount = payloads.length ∧
    ∀ (index : UInt32) (payload : Bytes), payloads[index.toNat]? = some payload →
      ∃ w, buildAtIndex tree index = some w ∧
        walkV1Path blake3 (leafHashV2 blake3 subTree.numericId index.toUInt64 payload) index.toUInt64
          w.siblings = roots.blake3Root

variable {blake3 sha3 parsers}

theorem committedInOrder {subTree : SubTreeId} {raw : String} {payloads : List Bytes}
    (hbuilt : buildPayloads parsers subTree raw = .ok (subTree.numericId,payloads,payloads.length))
    (hascending : payloads.Pairwise (· < ·)) :
    CommittedInOrder blake3 sha3 parsers subTree raw payloads := by
  have htree := buildV1_of_nodup blake3 subTree.numericId (nodup_ascending hascending)
  have hcount : payloads.length < 2^64 := by
    have hlength := (buildPayloads_ok hbuilt).2
    dsimp only at hlength
    omega
  refine ⟨_,_,bind_ok.mpr ⟨_,hbuilt,bind_ok.mpr ⟨_,mapError_ok.mpr htree,rfl⟩⟩,htree,rfl,rfl,?_⟩
  intro index payload hpayload
  have hindex : index.toNat < payloads.length := (List.getElem?_eq_some_iff.mp hpayload).choose
  rcases buildAtIndex_opensSlot htree hindex with ⟨w,hw,-,hlength,hopens⟩
  rw [sortPayloads_ascending hascending,List.getElem!_eq_getElem?_getD,hpayload] at hopens
  have hwalk := walk_of_opensSlot htree hcount hindex hlength hopens
  have hwide : UInt64.ofNat index.toNat = index.toUInt64 := by
    rw [← UInt64.toNat_inj,UInt32.toNat_toUInt64,UInt64.toNat_ofNat_of_lt' (hindex.trans hcount)]
  rw [hwide] at hwalk
  exact ⟨w,hw,hwalk⟩

end Commits

section Registries
variable {r : MapReader} {blake3 sha3 : Bytes → Hash} {parsers : Parsers}

/-- Whatever snapshot the policies and the scripts were ingested from: a text which is read
back as the ingested list is committed to, with each record at its own position. -/
theorem ingested_registries_commit (h : r.FollowsRfc) (cbor : Vec UInt8) :
    (∀ policies raw parsed, ingestTokenPolicies r cbor.val = .ok policies →
      parsers.policies raw = .ok parsed → parsed.val = policies →
        CommittedInOrder blake3 sha3 parsers .tokenPolicy raw (policies.map TokenPolicy.encode)) ∧
    ∀ scripts raw parsed, ingestScripts r cbor.val = .ok scripts →
      parsers.scripts raw = .ok parsed → parsed.val = scripts →
        CommittedInOrder blake3 sha3 parsers .script raw (scripts.map ScriptEntry.encode) := by
  constructor
  · intro policies raw parsed hingested hparsed hsame
    rcases (ingestTokenPolicies_ok h).mp hingested with ⟨es,-,-,hpolicies⟩
    apply committedInOrder
    · rw [buildPayloads,hparsed,← hsame,List.length_map]
      rfl
    · rw [← hpolicies]
      exact payloads_ascending (fun _ => rfl) (policies_ascending (totalsOf es))
  · intro scripts raw parsed hingested hparsed hsame
    rcases ingestScripts_entries h hingested with ⟨es,-,hascending,-⟩
    apply committedInOrder
    · rw [buildPayloads,hparsed,← hsame,List.length_map]
      rfl
    · have hlists : scripts.Pairwise fun a b => a.scriptHash.toList < b.scriptHash.toList :=
        hascending.imp Vector.lt_toList.mpr
      exact payloads_ascending (fun _ => rfl) hlists

end Registries

section Sample

/-- One output with an asset of each of two policies, the later one first. -/
def policyAssets : Vec UInt8 :=
  ⟨[0x81,0x86,0x58,0x20]++List.replicate 32 1++[0x00,0x58,0x20]++List.replicate 32 2++
    [0x05,0xa2,0x58,0x1c]++List.replicate 28 9++[0xa1,0x41,0x61,0x03,0x58,0x1c]++
    List.replicate 28 7++[0xa1,0x41,0x62,0x02,0xf6],by decide +kernel⟩

def policyText (byte supply : String) : String :=
  "\x7b\"policy_id\":\""++String.join (List.replicate 28 byte)++
    "\",\"first_issuance_slot\":0,\"total_supply_at_h\":"++supply++"\x7d"

def policiesText : String :=
  "\x7b\"policies\":["++policyText "07" "2"++","++policyText "09" "3"++"]\x7d"

def twoPolicies : Vec TokenPolicy :=
  ⟨[⟨Vector.replicate 28 7,0,2⟩,⟨Vector.replicate 28 9,0,3⟩],by decide⟩

def policyParsers : Parsers :=
  { sampleParsers with
    policies := fun raw =>
      if raw = policiesText then .ok twoPolicies else .error "expected value at line 1 column 1" }

/-- SHA3-256 of the two leaves. -/
def policySha3 (_ : Bytes) : Hash :=
  #v[0x3a,0xea,0x09,0x1c,0x1e,0x3a,0x06,0xeb,0xb8,0xc4,0x8b,0x6e,0x06,0x9c,0x97,0x34,
    0xcd,0x1a,0xe0,0x33,0xfd,0x7d,0xfc,0xc5,0x3d,0x26,0xda,0xbb,0xc9,0x7d,0x52,0x0b]

theorem policyAssets_ingested :
    ingestTokenPolicies reference policyAssets.val = .ok twoPolicies.val := by
  have htotals : walk reference (fun n => ByteDecoders.Decode.loop (walkPolicies reference) n ∅)
      policyAssets.val =
        .ok (((∅ : Totals).insert (Vector.replicate 28 9) 3).insert (Vector.replicate 28 7) 2) := by
    decide +kernel
  have hless : (Vector.replicate 28 7 : Hash28) < Vector.replicate 28 9 :=
    Vector.lt_toList.mp (by decide)
  have hrows : sortedRows (((∅ : Totals).insert (Vector.replicate 28 9) 3).insert
      (Vector.replicate 28 7) 2) = [(Vector.replicate 28 7,2),(Vector.replicate 28 9,3)] := by
    apply sortedRows_eq
    · simpa using hless
    · intro policy supply
      by_cases hfirst : policy = Vector.replicate 28 7
      · rw [hfirst,Finmap.lookup_insert]
        simp [hless.ne,eq_comm]
      · rw [Finmap.lookup_insert_of_ne _ hfirst]
        by_cases hsecond : policy = Vector.replicate 28 9
        · rw [hsecond,Finmap.lookup_insert]
          simp [eq_comm]
        · rw [Finmap.lookup_insert_of_ne _ hsecond]
          simp [hfirst,hsecond]
  rw [ingestTokenPolicies,htotals]
  change Except.ok ((sortedRows _).map tokenPolicy) = _
  rw [hrows]
  rfl

/-- The two policies are committed to in the order of their hashes, each with its path. -/
theorem two_policies_committed :
    CommittedInOrder singleChunkHash policySha3 policyParsers .tokenPolicy policiesText
      (twoPolicies.val.map TokenPolicy.encode) := by
  have hparsed : policyParsers.policies policiesText = .ok twoPolicies := by
    simp [policyParsers]
  exact (ingested_registries_commit reference_follows policyAssets).1 _ _ _ policyAssets_ingested
    hparsed rfl

end Sample

end OmegaHarness.IngestedTrees
