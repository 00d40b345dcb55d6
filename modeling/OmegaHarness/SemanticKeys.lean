import OmegaHarness.BundleAssembly

/-!
# Semantic keys of the committed records

Each sub-tree has a key which should name a record: an output by its transaction and its
position, a policy by its id, a fact by its kind and key. The builder sorts whole payloads
and refuses two equal ones. It never looks at keys. A payload determines every field of its
record, so what is refused is a record which comes twice in all of its fields. Two records
which agree in the key and differ in a field behind it are committed side by side.
-/
namespace OmegaHarness.SemanticKeys
open FallibleSteps DomainHashes MerkleTreeV1 LeafEncodings BundleAssembly Blake3Compression

/-- One record of any sub-tree. -/
inductive Record where
  | utxo (u : Utxo)
  | header (h : BlockHeader)
  | txIndex (e : TxIndexEntry)
  | tokenPolicy (p : TokenPolicy)
  | script (e : ScriptEntry)
  | stake (e : StakeEntry)
  | governance (f : GovernanceFact)
  deriving DecidableEq, Repr

inductive SemanticKey where
  | output (txId : Hash) (outputIndex : UInt32)
  | block (slot : UInt64) (blockHash : Hash)
  | transaction (txId : Hash)
  | policy (policyId : Hash28)
  | script (scriptHash : Hash28)
  | credential (stakeCredentialHash : Hash28)
  | fact (kind : UInt8) (key : Hash)
  deriving DecidableEq, Repr

/-- Account states have no key and share one identity, so that a list has at most one. -/
def factIdentity (f : GovernanceFact) : UInt8 × Hash :=
  match f with
  | .treasury key _ _ => (f.kind,key)
  | .ccSeat key _ _ => (f.kind,key)
  | .ratifiedAction key _ _ => (f.kind,key)
  | .inFlightAction key _ _ => (f.kind,key)
  | .accountState .. => (f.kind,zeroHash)

namespace Record

def semanticKey : Record → SemanticKey
  | utxo u => .output u.txId u.outputIndex
  | header h => .block h.slot h.blockHash
  | txIndex e => .transaction e.txId
  | tokenPolicy p => .policy p.policyId
  | script e => .script e.scriptHash
  | stake e => .credential e.stakeCredentialHash
  | governance f => .fact (factIdentity f).1 (factIdentity f).2

/-- The payload of a record. Only an output can fail to have one. -/
def commitToSubtree : Record → Except LeafError Bytes
  | utxo u => u.encode
  | header h => .ok h.encode
  | txIndex e => .ok e.encode
  | tokenPolicy p => .ok p.encode
  | script e => .ok e.encode
  | stake e => .ok e.encode
  | governance f => .ok f.encode

def subTree : Record → SubTreeId
  | utxo _ => .utxo
  | header _ => .header
  | txIndex _ => .txIndex
  | tokenPolicy _ => .tokenPolicy
  | script _ => .script
  | stake _ => .stake
  | governance _ => .governance

/-- Only an output has lengths which may not fit. -/
def Fits : Record → Prop
  | utxo u => u.Fits
  | _ => True

/-- The fields of a fact behind its kind and key. -/
def SameFact : GovernanceFact → GovernanceFact → Prop
  | .treasury _ value slot,.treasury _ value' slot' => value = value' ∧ slot = slot'
  | .ccSeat _ value slot,.ccSeat _ value' slot' => value = value' ∧ slot = slot'
  | .ratifiedAction _ value slot,.ratifiedAction _ value' slot' => value = value' ∧ slot = slot'
  | .inFlightAction _ value slot,.inFlightAction _ value' slot' => value = value' ∧ slot = slot'
  | .accountState reserves treasury deposits feePot,
      .accountState reserves' treasury' deposits' feePot' =>
      reserves = reserves' ∧ treasury = treasury' ∧ deposits = deposits' ∧ feePot = feePot'
  | _,_ => False

/-- Two records of one sub-tree agree in the fields which are not part of the key; assets
are compared in the order of their ids. -/
def SameRest : Record → Record → Prop
  | utxo u,utxo v => u.address = v.address ∧ u.valueLovelace = v.valueLovelace ∧
      sortAssets u.assets = sortAssets v.assets ∧ u.datumOption = v.datumOption ∧
      u.scriptRef = v.scriptRef
  | header h,header k => h.blockHeight = k.blockHeight ∧ h.prevHash = k.prevHash
  | txIndex e,txIndex f => e.slot = f.slot ∧ e.blockHash = f.blockHash ∧ e.txPosition = f.txPosition
  | tokenPolicy p,tokenPolicy q =>
      p.firstIssuanceSlot = q.firstIssuanceSlot ∧ p.totalSupplyAtH = q.totalSupplyAtH
  | script e,script f => e.deploymentSlot = f.deploymentSlot ∧
      e.scriptSizeBytes = f.scriptSizeBytes ∧ e.language = f.language
  | stake e,stake f => e.delegatedPool = f.delegatedPool ∧ e.delegatedDrep = f.delegatedDrep ∧
      e.rewardsLovelace = f.rewardsLovelace ∧ e.isPoolOperator = f.isPoolOperator
  | governance f,governance g => SameFact f g
  | _,_ => False

/-- One record twice: the key and everything behind it. -/
def Repeats (r s : Record) : Prop := r.semanticKey = s.semanticKey ∧ r.SameRest s

theorem sameRest_refl (r : Record) : r.SameRest r := by
  cases r with
  | governance f => cases f <;> simp [SameRest,SameFact]
  | _ => simp [SameRest]

theorem fact_encode_iff (f g : GovernanceFact) :
    f.encode = g.encode ↔ (governance f).Repeats (governance g) := by
  rw [GovernanceFact.encode_injective.eq_iff]
  cases f <;> cases g <;>
    simp [Repeats,semanticKey,factIdentity,GovernanceFact.kind,SameRest,SameFact]

theorem utxo_encode_iff {u v : Utxo} (hu : u.Fits) (hv : v.Fits) :
    u.encode = v.encode ↔ (utxo u).Repeats (utxo v) := by
  rw [encode_of_fits hu,encode_of_fits hv,Except.ok.injEq,Repeats,semanticKey,semanticKey,
    SemanticKey.output.injEq]
  constructor
  · intro h
    have hagrees := Utxo.layout_agrees hu hv h
    exact ⟨⟨hagrees.txId,hagrees.outputIndex⟩,hagrees.address,hagrees.valueLovelace,hagrees.assets,
      hagrees.datumOption,hagrees.scriptRef⟩
  · intro h
    obtain ⟨⟨htxId,hindex⟩,haddress,hvalue,hassets,hdatum,hscript⟩ := h
    exact Utxo.Agrees.layout_eq ⟨htxId,hindex,haddress,hvalue,hassets,hdatum,hscript⟩

/-- Within a sub-tree a payload is the key and everything behind it. -/
theorem payload_eq_iff {r s : Record} (h : r.subTree = s.subTree) (hr : r.Fits) (hs : s.Fits) :
    r.commitToSubtree = s.commitToSubtree ↔ r.Repeats s := by
  cases r <;> cases s <;> try cases h
  case utxo.utxo u v => exact utxo_encode_iff hr hs
  case governance.governance f g =>
    rw [commitToSubtree,commitToSubtree,Except.ok.injEq]
    exact fact_encode_iff f g
  case header.header a b =>
    simp only [commitToSubtree,Except.ok.injEq,BlockHeader.encode_injective.eq_iff,
      BlockHeader.ext_iff,Repeats,semanticKey,SemanticKey.block.injEq,SameRest]
    tauto
  case txIndex.txIndex a b =>
    simp only [commitToSubtree,Except.ok.injEq,TxIndexEntry.encode_injective.eq_iff,
      TxIndexEntry.ext_iff,Repeats,semanticKey,SemanticKey.transaction.injEq,SameRest]
  case tokenPolicy.tokenPolicy a b =>
    simp only [commitToSubtree,Except.ok.injEq,TokenPolicy.encode_injective.eq_iff,
      TokenPolicy.ext_iff,Repeats,semanticKey,SemanticKey.policy.injEq,SameRest]
  case script.script a b =>
    simp only [commitToSubtree,Except.ok.injEq,ScriptEntry.encode_injective.eq_iff,
      ScriptEntry.ext_iff,Repeats,semanticKey,SemanticKey.script.injEq,SameRest]
  case stake.stake a b =>
    simp only [commitToSubtree,Except.ok.injEq,StakeEntry.encode_injective.eq_iff,
      StakeEntry.ext_iff,Repeats,semanticKey,SemanticKey.credential.injEq,SameRest]

theorem fits_of_payload {r : Record} {bytes : Bytes} (h : r.commitToSubtree = .ok bytes) :
    r.Fits := by
  cases r with
  | utxo u => exact (Utxo.encode_ok h).1
  | _ => trivial

end Record

/-- The records of one input text. -/
def parseRecords (parsers : Parsers) (subTree : SubTreeId) (raw : String) :
    Except String (List Record) :=
  match subTree with
  | .utxo => (parsers.utxos raw).map fun xs => xs.val.map Record.utxo
  | .header => (parsers.headers raw).map fun xs => xs.val.map Record.header
  | .txIndex => (parsers.entries raw).map fun xs => xs.val.map Record.txIndex
  | .tokenPolicy => (parsers.policies raw).map fun xs => xs.val.map Record.tokenPolicy
  | .script => (parsers.scripts raw).map fun xs => xs.val.map Record.script
  | .stake => (parsers.stakeEntries raw).map fun xs => xs.val.map Record.stake
  | .governance => (parsers.facts raw).map fun xs => xs.val.map Record.governance

/-- The records and their payloads, in one order. -/
def Encoded (records : List Record) (payloads : List Bytes) : Prop :=
  List.Forall₂ (fun r bytes => r.commitToSubtree = .ok bytes) records payloads

section Keys
variable {blake3 sha3 : Bytes → Hash} {parsers : Parsers} {subTree : SubTreeId} {raw : String}

theorem encoded_of_encode {A : Type} {record : A → Record} {encode : A → Bytes}
    (h : ∀ a, (record a).commitToSubtree = .ok (encode a)) (xs : List A) :
    Encoded (xs.map record) (xs.map encode) := by
  induction xs with
  | nil => exact List.Forall₂.nil
  | cons x xs ih => exact List.Forall₂.cons (h x) ih

/-- Whatever is committed was parsed into records whose payloads it is. -/
theorem buildPayloads_records {built : UInt8 × List Bytes × ℕ}
    (h : buildPayloads parsers subTree raw = .ok built) :
    ∃ records, parseRecords parsers subTree raw = .ok records ∧ Encoded records built.2.1 := by
  have hplain : ∀ {A : Type} {subTreeId : UInt8} {encode : A → Bytes} {record : A → Record}
      {x : Except String (Vec A)}, (∀ a, (record a).commitToSubtree = .ok (encode a)) →
      (x.mapError RecomputeError.json).map (encodedPayloads subTreeId encode) = .ok built →
        ∃ records, x.map (fun xs => xs.val.map record) = .ok records ∧ Encoded records built.2.1 := by
    intro A subTreeId encode record x hrecord hx
    obtain ⟨parsed,hparsed,rfl⟩ := encodedPayloads_ok hx
    exact ⟨_,map_ok.mpr ⟨parsed,hparsed,rfl⟩,encoded_of_encode hrecord parsed.val⟩
  cases subTree with
  | utxo =>
      obtain ⟨parsed,hparsed,-,hpayloads⟩ := buildPayloads_utxo h
      exact ⟨_,map_ok.mpr ⟨parsed,hparsed,rfl⟩,List.forall₂_map_left_iff.mpr hpayloads⟩
  | header => exact hplain (fun _ => rfl) h
  | txIndex => exact hplain (fun _ => rfl) h
  | tokenPolicy => exact hplain (fun _ => rfl) h
  | script => exact hplain (fun _ => rfl) h
  | stake => exact hplain (fun _ => rfl) h
  | governance => exact hplain (fun _ => rfl) h

theorem encoded_mem {records : List Record} {payloads : List Bytes} (h : Encoded records payloads)
    {r : Record} (hr : r ∈ records) : ∃ bytes ∈ payloads, r.commitToSubtree = .ok bytes := by
  induction h with
  | nil => exact (List.not_mem_nil hr).elim
  | cons hhead _ ih =>
      rcases List.mem_cons.mp hr with rfl | hr
      · exact ⟨_,List.mem_cons_self,hhead⟩
      · obtain ⟨bytes,hbytes,hpayload⟩ := ih hr
        exact ⟨bytes,List.mem_cons_of_mem _ hbytes,hpayload⟩

theorem encoded_payloads {records : List Record} {payloads : List Bytes}
    (h : Encoded records payloads) :
    records.map Record.commitToSubtree = payloads.map .ok := by
  induction h with
  | nil => rfl
  | cons hhead _ ih => rw [List.map_cons,List.map_cons,hhead,ih]

theorem recompute_ok {roots : SubTreeRoots} (h : recompute blake3 sha3 parsers subTree raw = .ok roots) :
    ∃ built tree, buildPayloads parsers subTree raw = .ok built ∧
      buildV1 blake3 built.1 built.2.1 = .ok tree ∧
      roots = ⟨tree.root,sha3RootOfV1 blake3 sha3 built.1 built.2.1,blake3 raw.toUTF8.toList,
        tree.leafCount,tree.depth,built.2.2⟩ := by
  obtain ⟨built,hbuilt,hrest⟩ := bind_ok.mp h
  obtain ⟨tree,htree,hroots⟩ := bind_ok.mp hrest
  cases hroots
  exact ⟨built,tree,hbuilt,mapError_ok.mp htree,rfl⟩

/-- Payloads without duplicates are committed. -/
theorem recompute_of_payloads {built : UInt8 × List Bytes × ℕ}
    (hbuilt : buildPayloads parsers subTree raw = .ok built) (hnodup : built.2.1.Nodup) :
    ∃ roots, recompute blake3 sha3 parsers subTree raw = .ok roots := by
  have htree := buildV1_of_nodup blake3 built.1 hnodup
  exact ⟨_,bind_ok.mpr ⟨built,hbuilt,bind_ok.mpr ⟨_,mapError_ok.mpr htree,rfl⟩⟩⟩

theorem parseRecords_subTree {records : List Record}
    (h : parseRecords parsers subTree raw = .ok records) : ∀ r ∈ records, r.subTree = subTree := by
  cases subTree <;>
  · obtain ⟨parsed,-,rfl⟩ := map_ok.mp h
    intro r hr
    obtain ⟨a,-,rfl⟩ := List.mem_map.mp hr
    rfl

/-- Records which all fit are encoded. -/
theorem buildPayloads_of_fits {records : List Record}
    (h : parseRecords parsers subTree raw = .ok records) (hfits : ∀ r ∈ records, r.Fits) :
    ∃ built, buildPayloads parsers subTree raw = .ok built := by
  cases subTree with
  | utxo =>
      obtain ⟨parsed,hparsed,rfl⟩ := map_ok.mp h
      have hencoded : ∀ u ∈ parsed.val, ∃ bytes, u.encode = .ok bytes := by
        intro u hu
        exact ⟨_,encode_of_fits (hfits _ (List.mem_map_of_mem hu))⟩
      obtain ⟨payloads,hpayloads⟩ := mapM_exists_ok hencoded
      exact ⟨_,bind_ok.mpr ⟨parsed,mapError_ok.mpr hparsed,
        bind_ok.mpr ⟨payloads,mapError_ok.mpr hpayloads,rfl⟩⟩⟩
  | _ =>
      obtain ⟨parsed,hparsed,-⟩ := map_ok.mp h
      exact ⟨_,map_ok.mpr ⟨parsed,mapError_ok.mpr hparsed,rfl⟩⟩

/-- An input is committed exactly when every record fits and none comes twice. -/
theorem recompute_iff {records : List Record} (h : parseRecords parsers subTree raw = .ok records) :
    (∃ roots, recompute blake3 sha3 parsers subTree raw = .ok roots) ↔
      (∀ r ∈ records, r.Fits) ∧ records.Pairwise fun r s => ¬r.Repeats s := by
  have hsame : ∀ r ∈ records, ∀ s ∈ records, r.subTree = s.subTree := by
    intro r hr s hs
    rw [parseRecords_subTree h r hr,parseRecords_subTree h s hs]
  have hpayloads {built : UInt8 × List Bytes × ℕ} (hbuilt : buildPayloads parsers subTree raw = .ok built) :
      (∀ r ∈ records, r.Fits) ∧
        (built.2.1.Nodup ↔ records.Pairwise fun r s => ¬r.Repeats s) := by
    obtain ⟨found,hfound,hencoded⟩ := buildPayloads_records hbuilt
    cases hfound.symm.trans h
    have hfits : ∀ r ∈ records, r.Fits := by
      intro r hr
      obtain ⟨bytes,-,hbytes⟩ := encoded_mem hencoded hr
      exact Record.fits_of_payload hbytes
    refine ⟨hfits,?_⟩
    rw [← List.nodup_map_iff (f := Except.ok (ε := LeafError)) fun _ _ => Except.ok.inj,
      ← encoded_payloads hencoded,List.Nodup,List.pairwise_map]
    constructor
    · intro hnodup
      exact hnodup.imp_of_mem fun hr hs hne =>
        mt (Record.payload_eq_iff (hsame _ hr _ hs) (hfits _ hr) (hfits _ hs)).mpr hne
    · intro hnodup
      exact hnodup.imp_of_mem fun hr hs hne =>
        mt (Record.payload_eq_iff (hsame _ hr _ hs) (hfits _ hr) (hfits _ hs)).mp hne
  constructor
  · intro hroots
    obtain ⟨roots,hroots⟩ := hroots
    obtain ⟨built,tree,hbuilt,htree,-⟩ := recompute_ok hroots
    have hspec := hpayloads hbuilt
    exact ⟨hspec.1,hspec.2.mp (buildV1_nodup blake3 built.1 htree)⟩
  · intro hrecords
    obtain ⟨built,hbuilt⟩ := buildPayloads_of_fits h hrecords.1
    exact recompute_of_payloads hbuilt ((hpayloads hbuilt).2.mpr hrecords.2)

/-- Some record does not fit, or one comes twice in all of its fields, or else records which
agree in the key agree in everything behind it. -/
def KeysApart (records : List Record) : Prop :=
  (∃ r ∈ records, ¬r.Fits) ∨ ¬records.Pairwise (fun r s => ¬r.Repeats s) ∨
    ∀ r ∈ records, ∀ s ∈ records, r.semanticKey = s.semanticKey → r.SameRest s

/-- For every input of every sub-tree: that no two positions of what is committed share a
semantic key is decided by the fields of the records in this way. -/
theorem committed_keys_distinct_iff {records : List Record}
    (h : parseRecords parsers subTree raw = .ok records) :
    ((∃ roots, recompute blake3 sha3 parsers subTree raw = .ok roots) →
        (records.map Record.semanticKey).Nodup) ↔ KeysApart records := by
  rw [recompute_iff h]
  constructor
  · intro hkeys
    by_cases hfits : ∀ r ∈ records, r.Fits
    · by_cases hrepeats : records.Pairwise fun r s => ¬r.Repeats s
      · refine Or.inr (Or.inr ?_)
        intro r hr s hs heq
        rw [List.inj_on_of_nodup_map (hkeys ⟨hfits,hrepeats⟩) hr hs heq]
        exact s.sameRest_refl
      · exact Or.inr (Or.inl hrepeats)
    · push Not at hfits
      exact Or.inl hfits
  · intro hcondition hcommitted
    rcases hcondition with ⟨r,hr,hlong⟩ | hrepeats | hrest
    · exact (hlong (hcommitted.1 r hr)).elim
    · exact (hrepeats hcommitted.2).elim
    · apply List.pairwise_map.mpr
      apply hcommitted.2.imp_of_mem
      intro r s hr hs hne heq
      exact hne ⟨heq,hrest r hr s hs heq⟩

end Keys

section Sample

/-- Two outputs of different transactions are committed, and their keys differ. -/
theorem two_outputs_keys_distinct :
    ∃ records roots, parseRecords sampleParsers .utxo firstText = .ok records ∧
      recompute singleChunkHash sampleSha3 sampleParsers .utxo firstText = .ok roots ∧
      records.length = 2 ∧ (records.map Record.semanticKey).Nodup := by
  have hparsed : parseRecords sampleParsers .utxo firstText =
      .ok (firstOutputs.val.map Record.utxo) := by
    dsimp only [parseRecords,sampleParsers]
    rw [parseUtxos_first]
    rfl
  have hnodup : (samplePayloads .utxo).Nodup := by decide
  obtain ⟨roots,hroots⟩ :=
    @recompute_of_payloads singleChunkHash sampleSha3 _ _ _ _ buildPayloads_first hnodup
  have happart : KeysApart (firstOutputs.val.map Record.utxo) := by
    refine Or.inr (Or.inr ?_)
    simp only [firstOutputs,List.map_cons,List.map_nil,List.forall_mem_cons,List.not_mem_nil,
      false_implies,implies_true,and_true]
    exact ⟨⟨fun _ => Record.sameRest_refl _,fun h => absurd h (by decide)⟩,
      fun h => absurd h (by decide),fun _ => Record.sameRest_refl _⟩
  exact ⟨_,roots,hparsed,hroots,rfl,(committed_keys_distinct_iff hparsed).mpr happart ⟨roots,hroots⟩⟩

/-- The first output of one transaction twice, once with an asset. -/
def clashingText : String :=
  "\x7b\"utxos\":["++outputText "01" ""++","++
    outputText "01" "\x7b\"asset_id\":\"aa\",\"quantity\":1\x7d"++"]\x7d"

def clashingOutputs : Vec Utxo := ⟨[sampleOutput 1 [],sampleOutput 1 [⟨[0xaa],1⟩]],by decide⟩

def parseClashing (raw : String) : Except String (Vec Utxo) :=
  if raw = clashingText then .ok clashingOutputs else .error "expected value at line 1 column 1"

def clashingParsers : Parsers :=
  ⟨parseClashing,parseEmpty "headers",parseEmpty "entries",parseEmpty "policies",parseEmpty "scripts",
    parseEmpty "stake_entries",parseEmpty "facts"⟩

/-- SHA3-256 of the two leaves. -/
def clashingSha3 (_ : Bytes) : Hash :=
  #v[0xb8,0xf8,0x51,0x22,0xc0,0x48,0xb3,0xfb,0xa1,0x77,0xf3,0x20,0x1e,0x48,0x4e,0x50,
    0x3b,0xa0,0x7e,0xa2,0xa2,0x2a,0x39,0x28,0xe2,0xc0,0x55,0x60,0x2b,0x12,0x0c,0x32]

/-- Both are committed under one key. -/
theorem clashing_outputs_committed :
    ∃ roots records, recompute singleChunkHash clashingSha3 clashingParsers .utxo clashingText =
        .ok roots ∧
      parseRecords clashingParsers .utxo clashingText = .ok records ∧
      ¬(records.map Record.semanticKey).Nodup := by
  have hparse : parseClashing clashingText = .ok clashingOutputs := by
    rw [parseClashing,if_pos rfl]
  have hbuilt : buildPayloads clashingParsers .utxo clashingText =
      .ok (subTreeIdUtxo,clashingOutputs.val.map Utxo.layout,2) := by
    dsimp only [buildPayloads,clashingParsers]
    rw [hparse]
    rfl
  have hnodup : (clashingOutputs.val.map Utxo.layout).Nodup := by decide
  obtain ⟨roots,hroots⟩ := @recompute_of_payloads singleChunkHash clashingSha3 _ _ _ _ hbuilt hnodup
  refine ⟨roots,clashingOutputs.val.map Record.utxo,hroots,?_,by decide⟩
  dsimp only [parseRecords,clashingParsers]
  rw [hparse]
  rfl

end Sample

end OmegaHarness.SemanticKeys
