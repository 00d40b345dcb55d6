import OmegaHarness.ClaimEnvelope
import OmegaHarness.LedgerIngest

/-!
# Declared lengths no vector can have

A count is read from the input and reserves a vector before any element is read,
so a head of nine bytes can ask for more than `isize::MAX` bytes and stop the
process. The inputs which do are written down as languages: for the snapshot
readers those which start with such a head, for a claim those whose payload has
one where the public inputs, the witnesses or a Merkle path are counted, behind
anything the decoder reads without complaint. Everywhere else both return.
-/
namespace OmegaHarness.HostileLengths
open BundleAssembly ByteDecoders CborHeads ClaimCodec ClaimEnvelope ClaimTypes Decode DomainHashes
open LedgerIngest
open Language (append_mem_mul mem_iSup)

/-- The heads of arrays too large for elements of the given size. -/
def oversized (size : ℕ) : Language UInt8 :=
  ⨆ n : { n : UInt64 // isizeMax < n.toNat*size }, Items.rfc.array n.val

/-- The heads of the other arrays, each with a language behind it. -/
def fitting (size : ℕ) (behind : ℕ → Language UInt8) : Language UInt8 :=
  ⨆ n : { n : UInt64 // n.toNat*size ≤ isizeMax }, Items.rfc.array n.val*behind n.val.toNat

def someBytes : Language UInt8 := ⨆ v, Items.rfc.bytes v

def somePublicInputs : Language UInt8 := ⨆ p, publicInputsForm Items.rfc p

/-- A witness whose path could be reserved. -/
def acceptedWitness (witness : ClaimWitness) : Language UInt8 :=
  {x | witness.merklePath.length*hashSize ≤ isizeMax ∧ x ∈ witnessForm Items.rfc witness}

def someWitness : Language UInt8 := ⨆ witness, acceptedWitness witness

/-- A witness up to a path which cannot be reserved. -/
def hostileWitness : Language UInt8 := Items.rfc.array 3*(someBytes*oversized hashSize)

def hostileUtxo : Language UInt8 := Items.rfc.array 3*(somePublicInputs*hostileWitness)

/-- Too many witnesses, or a hostile one behind fewer than were announced. -/
def hostileWitnesses (sizes : ElementSizes) : Language UInt8 :=
  oversized sizes.witness+
    fitting sizes.witness fun n => ⨆ k : Fin n, someWitness^k.val*hostileWitness

def hostileCollection (sizes : ElementSizes) : Language UInt8 :=
  Items.rfc.array 3*(oversized sizes.publicInputs+
    fitting sizes.publicInputs fun n => somePublicInputs^n*hostileWitnesses sizes)

def hostilePayload (sizes : ElementSizes) : Language UInt8 :=
  Items.rfc.array 2*(Items.rfc.u64 variantUtxo*hostileUtxo+
    Items.rfc.u64 variantCollection*hostileCollection sizes)

/-- An envelope with the right checksum around a payload which starts that way. -/
def HostileEnvelope (blake3 : Bytes → Hash) (sizes : ElementSizes) (bytes : Bytes) : Prop :=
  ∃ payload, bytes ∈ envelopeForm Items.rfc payload (blake3 payload) ∧
    payload ∈ hostilePayload sizes*⊤

/-! ## The decoder of claims -/

section
variable {r : Reader} {sizes : ElementSizes}

theorem decodePublicInputs_exact (h : r.FollowsRfc) :
    Exact (decodePublicInputs r) (publicInputsForm Items.rfc) := by
  refine ⟨decodePublicInputs_reads h.toReads,?_⟩
  intro s p t hread
  obtain ⟨_,x1,h1,_,rfl,r1⟩ := (expectArray_exact h _ _).bind_inverts hread
  obtain ⟨_,x2,h2,_,rfl,r2⟩ := (h.u8_exact _).bind_inverts r1
  obtain ⟨_,x3,h3,_,rfl,r3⟩ := (h.u64_exact _).bind_inverts r2
  obtain ⟨_,x4,h4,_,rfl,r4⟩ := (h.u8_exact _).bind_inverts r3
  obtain ⟨_,x5,h5,_,rfl,r5⟩ := (readHash_exact h _).bind_inverts r4
  obtain ⟨_,x6,h6,_,rfl,r6⟩ := (readHash_exact h _).bind_inverts r5
  obtain ⟨_,x7,h7,_,rfl,r7⟩ := (readHash_exact h _).bind_inverts r6
  obtain ⟨_,x8,h8,_,rfl,r8⟩ := (readHash_exact h _).bind_inverts r7
  cases r8
  have hhead := append_mem_mul (append_mem_mul (append_mem_mul h1 h2) h3) h4
  exact ⟨_,append_mem_mul (append_mem_mul (append_mem_mul (append_mem_mul hhead h5) h6) h7) h8,
    by simp⟩

theorem PanicFree.decodePublicInputs (r : Reader) : PanicFree (decodePublicInputs r) :=
  (PanicFree.expectArray r _ _).bind fun _ => (PanicFree.item _ _).bind fun _ =>
    (PanicFree.item _ _).bind fun _ => (PanicFree.item _ _).bind fun _ =>
    (PanicFree.readHash r _).bind fun _ => (PanicFree.readHash r _).bind fun _ =>
    (PanicFree.readHash r _).bind fun _ => (PanicFree.readHash r _).bind fun _ => PanicFree.pure _

theorem decodeWitness_exact (h : r.FollowsRfc) : Exact (decodeWitness r) acceptedWitness := by
  constructor
  · intro witness x hx rest
    exact decodeWitness_reads h.toReads witness hx.1 x hx.2 rest
  · intro s witness t hread
    obtain ⟨_,x1,h1,_,rfl,r1⟩ := (expectArray_exact h _ _).bind_inverts hread
    obtain ⟨leaf,x2,h2,_,rfl,r2⟩ := (h.bytes_exact _).bind_inverts r1
    obtain ⟨n,x3,h3,_,rfl,r3⟩ := (arrayLen_exact h _).bind_inverts r2
    obtain ⟨_,u,hcapacity,r4⟩ := bind_ok.mp r3
    obtain ⟨hfits,rfl⟩ := withCapacity_ok.mp hcapacity
    obtain ⟨path,x4,⟨hlen,h4⟩,_,rfl,r5⟩ := ((readHash_exact h _).times n.toNat).bind_inverts r4
    obtain ⟨key,x5,h5,_,rfl,r6⟩ := (h.bytes_exact _).bind_inverts r5
    cases r6
    have hcount : UInt64.ofNat path.length = n := by rw [hlen,UInt64.ofNat_toNat]
    refine ⟨x1++x2++x3++x4++x5,⟨?_,?_⟩,by simp⟩
    · rw [hlen]
      exact hfits
    · rw [← hcount] at h3
      exact append_mem_mul (append_mem_mul (append_mem_mul (append_mem_mul h1 h2) h3) h4) h5

/-- A count, its reservation, and what comes behind. -/
theorem reserve_panics {A : Type} {f : UInt64 → Decode CborError A} {behind : ℕ → Language UInt8}
    (h : r.FollowsRfc) (field : String) (size : ℕ) (hf : ∀ n, Panics (f n) (behind n.toNat)) :
    Panics (do let n ← arrayLen r field; withCapacity size n.toNat; f n)
      (oversized size+fitting size behind) := by
  intro s
  rw [bind_panic,or_iff_right (PanicFree.arrayLen r field s),mem_mul_top]
  constructor
  · rintro ⟨n,u,hread,hrest⟩
    obtain ⟨x,hx,rfl⟩ := (arrayLen_exact h field).inverts hread
    obtain hover | ⟨_,v,hcapacity,hpanic⟩ := bind_panic.mp hrest
    · exact ⟨x,Or.inl (mem_iSup.mpr ⟨⟨n,withCapacity_panic.mp hover⟩,hx⟩),u,rfl⟩
    · obtain ⟨hfits,rfl⟩ := withCapacity_ok.mp hcapacity
      obtain ⟨y,hy,rest,rfl⟩ := mem_mul_top.mp ((hf n u).mp hpanic)
      exact ⟨x++y,Or.inr (mem_iSup.mpr ⟨⟨n,hfits⟩,append_mem_mul hx hy⟩),rest,by simp⟩
  · rintro ⟨x,hx | hx,rest,rfl⟩
    · obtain ⟨⟨n,hover⟩,hx⟩ := mem_iSup.mp hx
      exact ⟨n,rest,(arrayLen_exact h field).reads n x hx rest,
        bind_panic.mpr (Or.inl (withCapacity_panic.mpr hover))⟩
    · obtain ⟨⟨n,hfits⟩,hn⟩ := mem_iSup.mp hx
      obtain ⟨z,hz,y,hy,rfl⟩ := Language.mem_mul.mp hn
      have hpanic := (hf n (y++rest)).mpr (mem_mul_top.mpr ⟨y,hy,rest,rfl⟩)
      refine ⟨n,y++rest,?_,bind_panic.mpr (Or.inr ⟨(),_,withCapacity_ok.mpr ⟨hfits,rfl⟩,hpanic⟩)⟩
      rw [List.append_assoc]
      exact (arrayLen_exact h field).reads n z hz _

theorem fitting_zero (size : ℕ) : fitting size (fun _ => 0) = 0 := by
  unfold fitting
  simp only [mul_zero]
  exact iSup_bot

theorem expectArray_panics {A : Type} {f : Unit → Decode CborError A} {M : Language UInt8}
    (h : r.FollowsRfc) (field : String) (n : UInt64) (hf : Panics (f ()) M) :
    Panics (expectArray r field n >>= f) (Items.rfc.array n*M) := by
  have hall := Panics.after_any (PanicFree.expectArray r field n) (expectArray_exact h field n)
    fun _ => hf
  rwa [iSup_const] at hall

theorem decodeWitness_panics (h : r.FollowsRfc) : Panics (decodeWitness r) hostileWitness := by
  have hpath : oversized hashSize = oversized hashSize+fitting hashSize fun _ => 0 := by
    rw [fitting_zero,add_zero]
  unfold hostileWitness
  rw [hpath]
  refine expectArray_panics h _ _ (Panics.after_any (PanicFree.item _ _) (h.bytes_exact _) ?_)
  intro leaf
  refine reserve_panics h _ _ fun n => PanicFree.panics ?_
  exact ((PanicFree.readHash r _).times _).bind fun _ => (PanicFree.item _ _).bind fun _ =>
    PanicFree.pure _

theorem decodeUtxo_panics (h : r.FollowsRfc) : Panics (decodeUtxo r) hostileUtxo := by
  refine expectArray_panics h _ _ (Panics.after_any (PanicFree.decodePublicInputs r)
    (decodePublicInputs_exact h) fun _ => (decodeWitness_panics h).bind_free fun _ => ?_)
  exact (PanicFree.item _ _).bind fun _ => PanicFree.pure _

theorem decodeCollection_panics (h : r.FollowsRfc) :
    Panics (decodeCollection r sizes) (hostileCollection sizes) := by
  refine expectArray_panics h _ _ (reserve_panics h _ _ fun n => ?_)
  have hpublic := (decodePublicInputs_exact h).times n.toNat
  rw [somePublicInputs,← iSup_times]
  refine Panics.after_any ((PanicFree.decodePublicInputs r).times _) hpublic fun _ => ?_
  refine reserve_panics h _ _ fun m => ?_
  refine ((decodeWitness_panics h).times (decodeWitness_exact h) m.toNat).bind_free fun _ => ?_
  exact (PanicFree.ensure _ _).bind fun _ => (PanicFree.item _ _).bind fun _ => PanicFree.pure _

/-- What panics behind each variant tag. -/
def hostileVariant (sizes : ElementSizes) (variant : UInt64) : Language UInt8 :=
  if variant = variantUtxo then hostileUtxo
  else if variant = variantCollection then hostileCollection sizes
  else 0

theorem decodeVariant_panics (h : r.FollowsRfc) (variant : UInt64) :
    Panics (decodeVariant r sizes variant) (hostileVariant sizes variant) := by
  unfold decodeVariant hostileVariant
  split_ifs
  · exact (decodeUtxo_panics h).bind_free fun _ => PanicFree.pure _
  · exact (decodeCollection_panics h).bind_free fun _ => PanicFree.pure _
  · exact (PanicFree.fail _).panics

theorem iSup_hostileVariant (sizes : ElementSizes) :
    ⨆ variant, Items.rfc.u64 variant*hostileVariant sizes variant =
      Items.rfc.u64 variantUtxo*hostileUtxo+
        Items.rfc.u64 variantCollection*hostileCollection sizes := by
  refine Language.ext fun x => ?_
  rw [mem_iSup,Language.mem_add]
  constructor
  · rintro ⟨variant,hx⟩
    unfold hostileVariant at hx
    split_ifs at hx with hutxo hcollection
    · rw [hutxo] at hx
      exact Or.inl hx
    · rw [hcollection] at hx
      exact Or.inr hx
    · rw [mul_zero] at hx
      exact (Language.notMem_zero x hx).elim
  · rintro (hx | hx)
    · exact ⟨variantUtxo,hx⟩
    · exact ⟨variantCollection,hx⟩

theorem decodeClaimTx_panics (h : r.FollowsRfc) :
    Panics (decodeClaimTx r sizes) (hostilePayload sizes) := by
  unfold hostilePayload
  rw [← iSup_hostileVariant]
  exact expectArray_panics h _ _ (Panics.after (PanicFree.item _ _) (h.u64_exact _)
    (decodeVariant_panics h))

variable {w : Writer} {blake3 : Bytes → Hash}

/-- The comparison behind a decoded payload fails or passes. -/
theorem checkCanonical_not_panic {payload : Bytes} {decoded : ClaimTx} :
    ((checkCanonical w payload decoded).bind fun _ => .ok decoded) ≠
      (.error .capacityOverflow : Except (Halt CborError) ClaimTx) := by
  intro h
  unfold checkCanonical at h
  split at h
  · cases h
  · cases h

theorem fromCbor_panics (h : r.FollowsRfc) (bytes : Bytes) :
    fromCbor r sizes w blake3 bytes = .error .capacityOverflow ↔
      HostileEnvelope blake3 sizes bytes := by
  have hpayload (payload : Bytes) : decodePayload r sizes payload = .error .capacityOverflow ↔
      payload ∈ hostilePayload sizes*⊤ := whole_panic.trans (decodeClaimTx_panics h payload)
  constructor
  · intro hpanic
    obtain ⟨e,hfailed⟩ | ⟨payload,hbytes⟩ := refused_or_envelope sizes w blake3 h bytes
    · rw [hpanic] at hfailed
      cases hfailed
    · refine ⟨payload,hbytes,(hpayload payload).mp ?_⟩
      rw [fromCbor_envelope h.toReads hbytes] at hpanic
      cases hdecode : decodePayload r sizes payload with
      | error halt =>
          rw [hdecode] at hpanic
          cases hpanic
          rfl
      | ok decoded =>
          rw [hdecode] at hpanic
          exact (checkCanonical_not_panic hpanic).elim
  · rintro ⟨payload,hbytes,hhostile⟩
    rw [fromCbor_envelope h.toReads hbytes,(hpayload payload).mpr hhostile]
    rfl

end

/-! ## The readers of snapshots -/

section
variable {r : MapReader}

theorem readArrayLen_ok (h : r.FollowsRfc) {s t : Bytes} {n : ℕ} :
    readArrayLen r s = .ok (n,t) ↔
      ∃ count : UInt64, count.toNat = n ∧ ∃ x ∈ Items.rfc.array count, s = x++t := by
  rw [readArrayLen,definite_ok]
  constructor
  · rintro ⟨count,hread,hn⟩
    exact ⟨count,hn,h.array_inverts hread⟩
  · rintro ⟨count,hn,x,hx,rfl⟩
    exact ⟨count,h.array count x hx t,hn⟩

/-- Only the reservation of the result can panic. -/
theorem ingest_panics {A : Type} (h : r.FollowsRfc) (size : ℕ) (records : ℕ → Decode IngestError A)
    (hrecords : ∀ n, Keeps 0 (records n)) (cbor : Vec UInt8) :
    ingest r size records cbor.val = .error .capacityOverflow ↔ cbor.val ∈ oversized size*⊤ := by
  unfold ingest
  rw [run_panic,bind_panic,mem_mul_top]
  constructor
  · rintro (hpanic | ⟨n,u,hread,hrest⟩)
    · exact ((PanicFree.definite _ _).mapFailed _ hpanic).elim
    · obtain ⟨count,rfl,x,hx,hs⟩ := (readArrayLen_ok h).mp (mapFailed_ok.mp hread)
      obtain hover | ⟨_,v,hcapacity,hloop⟩ := bind_panic.mp hrest
      · exact ⟨x,mem_iSup.mpr ⟨⟨count,withCapacity_panic.mp hover⟩,hx⟩,u,hs⟩
      · obtain ⟨-,rfl⟩ := withCapacity_ok.mp hcapacity
        -- what is left of an input in memory fits, and the records keep it so
        have hfits : Fits 0 u := by
          have hlen := cbor.property
          rw [hs,List.length_append] at hlen
          unfold Fits isizeMax
          omega
        obtain hpanic | ⟨a,v,-,hend⟩ := bind_panic.mp hloop
        · exact ((hrecords _ u hfits).1 hpanic).elim
        · have hfree : PanicFree (other (LedgerIngest.expectEnd cbor.val.length)) :=
            (PanicFree.remaining.bind fun _ => PanicFree.ensure _ _).mapFailed
          exact (hfree.bind (fun _ => PanicFree.pure a) v hend).elim
  · rintro ⟨x,hx,rest,hs⟩
    obtain ⟨⟨count,hover⟩,hx⟩ := mem_iSup.mp hx
    refine Or.inr ⟨count.toNat,rest,?_,bind_panic.mpr (Or.inl (withCapacity_panic.mpr hover))⟩
    exact mapFailed_ok.mpr ((readArrayLen_ok h).mpr ⟨count,rfl,x,hx,hs⟩)

end

section
variable (claimReader : Reader) (ledgerReader : MapReader) (w : Writer) (blake3 : Bytes → Hash)
  (sizes : ElementSizes) (records : RecordSizes)

/-- On every byte string each decoder returns, unless the string declares a
length which no vector can have. -/
theorem decoders_return_iff (hclaim : claimReader.FollowsRfc) (hledger : ledgerReader.FollowsRfc)
    (bytes : Vec UInt8) :
    (Returns (fromCbor claimReader sizes w blake3 bytes.val) ↔
      ¬HostileEnvelope blake3 sizes bytes.val) ∧
    (Returns (ingestUtxos ledgerReader records bytes.val) ↔
      bytes.val ∉ oversized records.utxo*⊤) ∧
    (Returns (ingestStake ledgerReader records bytes.val) ↔
      bytes.val ∉ oversized records.stakeEntry*⊤) ∧
    (Returns (ingestGovernance ledgerReader records bytes.val) ↔
      bytes.val ∉ oversized records.governanceFact*⊤) := by
  have hutxos := ingest_panics hledger records.utxo _ (readUtxo_fits hledger).times bytes
  have hstake := ingest_panics hledger records.stakeEntry _ (readStakeEntry_fits hledger).times bytes
  have hfacts := ingest_panics hledger records.governanceFact _ (readFacts_fits hledger) bytes
  refine ⟨?_,?_,?_,?_⟩
  · rw [returns_iff,fromCbor_panics hclaim]
  · rw [returns_iff,ingestUtxos,hutxos]
  · rw [returns_iff,ingestStake,hstake]
  · rw [returns_iff,ingestGovernance,hfacts]

end

/-- No layout of the records is smaller than their fixed fields. -/
def smallestRecords : RecordSizes := ⟨92,93,56⟩

/-- The head of an array of `2^64-1` elements. -/
def hugeArray : Vec UInt8 := ⟨[0x9b,0xff,0xff,0xff,0xff,0xff,0xff,0xff,0xff],by decide⟩

def noRecords : Vec UInt8 := ⟨[0x80],by decide⟩

theorem hugeArray_mem {size : ℕ} (hsize : 1 < size) : hugeArray.val ∈ oversized size*⊤ := by
  have hover : isizeMax < (0xffffffffffffffff : UInt64).toNat*size := by
    have hcount : (0xffffffffffffffff : UInt64).toNat = 2^64-1 := rfl
    rw [hcount,isizeMax]
    omega
  have hhead : hugeArray.val ∈ Items.rfc.array 0xffffffffffffffff :=
    ⟨.eight,by decide,by decide +kernel⟩
  exact mem_mul_top.mpr ⟨_,mem_iSup.mpr ⟨⟨_,hover⟩,hhead⟩,[],by simp⟩

/-- Both sides of the condition: a count of nothing, and one of too much. -/
theorem snapshot_counts_decided :
    noRecords.val ∉ oversized smallestRecords.utxo*⊤ ∧
    ¬Returns (ingestStake reference smallestRecords hugeArray.val) := by
  have hnone := decoders_return_iff reference.toReader reference referenceWriter
    Blake3Compression.singleChunkHash sampleSizes smallestRecords
    reference_follows.toFollowsRfc reference_follows noRecords
  have hhuge := decoders_return_iff reference.toReader reference referenceWriter
    Blake3Compression.singleChunkHash sampleSizes smallestRecords
    reference_follows.toFollowsRfc reference_follows hugeArray
  refine ⟨hnone.2.1.mp (Or.inl ⟨[],by decide +kernel⟩),?_⟩
  intro hreturns
  exact hhuge.2.2.1.mp hreturns (hugeArray_mem (by decide))

/-- A collection which announces `2^64-1` public inputs. -/
def hugePayload : Bytes := [0x82,0x01,0x83]++hugeArray.val

def hugeEnvelope : Bytes :=
  [0x83,0x02,0x4c]++hugePayload++[0x58,0x20]++
    (Blake3Compression.singleChunkHash hugePayload).toList

/-- All four decoders panic on a few bytes. -/
theorem hostile_lengths_panic :
    fromCbor reference.toReader sampleSizes referenceWriter Blake3Compression.singleChunkHash
      hugeEnvelope = .error .capacityOverflow ∧
    ingestUtxos reference smallestRecords hugeArray.val = .error .capacityOverflow ∧
    ingestStake reference smallestRecords hugeArray.val = .error .capacityOverflow ∧
    ingestGovernance reference smallestRecords hugeArray.val = .error .capacityOverflow := by
  have henvelope : hugeEnvelope ∈ envelopeForm Items.rfc hugePayload
      (Blake3Compression.singleChunkHash hugePayload) := minimalEnvelope_mem (by decide)
  have hpayload : decodePayload reference.toReader sampleSizes hugePayload =
      .error .capacityOverflow := by decide +kernel
  refine ⟨?_,by decide +kernel,by decide +kernel,by decide +kernel⟩
  rw [fromCbor_envelope reference_reads henvelope,hpayload]
  rfl

end OmegaHarness.HostileLengths
