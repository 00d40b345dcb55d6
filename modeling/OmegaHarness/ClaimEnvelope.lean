import OmegaHarness.ClaimCodec
import OmegaHarness.FiniteCollisions

/-!
# Accepted envelopes of a claim transaction

The decoder re-encodes the payload it has decoded and compares. The heads of the
envelope around the payload are read at any width and compared with nothing, so
an accepted envelope is what the encoder writes exactly when those heads are of
least width. One changed byte is noticed all the same: no other reading of the
heads splits a string of the same length into a payload and its checksum.
-/
namespace OmegaHarness.ClaimEnvelope
open Blake3Compression BundleAssembly ByteDecoders CborHeads ClaimCodec ClaimTypes Decode
open DomainHashes FallibleSteps FiniteCollisions FixedWidthBytes
open Language (append_mem_mul)

/-! ## What the decoder accepts -/

section
variable {r : Reader}

theorem arrayLen_exact (h : r.FollowsRfc) (field : String) :
    Exact (arrayLen r field) Items.rfc.array := by
  refine ⟨arrayLen_reads h.toReads field,?_⟩
  intro s n t hread
  obtain ⟨count,u,harray,hrest⟩ := bind_ok.mp hread
  cases count with
  | none => cases hrest
  | some k =>
      cases hrest
      exact h.array_inverts (item_ok.mp harray)

theorem expectArray_exact (h : r.FollowsRfc) (field : String) (n : UInt64) :
    Exact (expectArray r field n) (fun _ => Items.rfc.array n) := by
  refine ⟨fun _ => expectArray_reads h.toReads field n,?_⟩
  intro s _ t hread
  obtain ⟨k,x,hx,u,hs,hrest⟩ := (arrayLen_exact h field).bind_inverts hread
  obtain ⟨rfl,rfl⟩ := ensure_ok.mp hrest
  exact ⟨x,hx,hs⟩

theorem readHash_exact (h : r.FollowsRfc) (field : String) :
    Exact (readHash r field) (fun hash => Items.rfc.bytes hash.toList) := by
  refine ⟨readHash_reads h.toReads field,?_⟩
  intro s hash t hread
  obtain ⟨v,x,hx,u,hs,hrest⟩ := (h.bytes_exact CborError.decode).bind_inverts hread
  split at hrest
  · cases hrest
    exact ⟨x,hx,hs⟩
  · cases hrest

theorem readEnvelope_exact (h : r.FollowsRfc) :
    Exact (readEnvelope r) (fun parts => envelopeForm Items.rfc parts.1 parts.2) := by
  refine ⟨fun parts => readEnvelope_reads h.toReads parts.1 parts.2,?_⟩
  intro s parts t hread
  obtain ⟨_,x1,hx1,s1,rfl,h1⟩ := (expectArray_exact h "envelope" 3).bind_inverts hread
  obtain ⟨version,x2,hx2,s2,rfl,h2⟩ := (h.u64_exact CborError.decode).bind_inverts h1
  obtain ⟨_,u,hversion,h3⟩ := bind_ok.mp h2
  obtain ⟨rfl,rfl⟩ := ensure_ok.mp hversion
  obtain ⟨payload,x3,hx3,s3,rfl,h4⟩ := (h.bytes_exact CborError.decode).bind_inverts h3
  obtain ⟨checksum,x4,hx4,s4,rfl,h5⟩ := (readHash_exact h "checksum").bind_inverts h4
  cases h5
  refine ⟨x1++x2++x3++x4,?_,by simp⟩
  exact append_mem_mul (append_mem_mul (append_mem_mul hx1 hx2) hx3) hx4

theorem whole_inverts {A : Type} {p : Decode CborError A} {G : A → Language UInt8} (hp : Exact p G)
    {bytes : Bytes} {a : A} (h : whole p bytes = .ok a) : bytes ∈ G a := by
  obtain ⟨t,hrun⟩ := run_ok.mp h
  obtain ⟨b,x,hx,u,hbytes,hrest⟩ := hp.bind_inverts hrun
  obtain ⟨_,v,hend,hpure⟩ := bind_ok.mp hrest
  cases hpure
  obtain ⟨rest,y,hremaining,hensure⟩ := bind_ok.mp hend
  cases hremaining
  obtain ⟨hposition,-⟩ := ensure_ok.mp hensure
  have hlen := congrArg List.length hbytes
  rw [List.length_append] at hlen
  have hnil : u = [] := List.eq_nil_of_length_eq_zero (by omega)
  rw [hnil,List.append_nil] at hbytes
  rwa [hbytes]

theorem PanicFree.arrayLen (r : Reader) (field : String) : PanicFree (arrayLen r field) := by
  refine PanicFree.bind (PanicFree.item _ _) ?_
  intro count
  cases count with
  | none => exact PanicFree.fail _
  | some n => exact PanicFree.pure n

theorem PanicFree.expectArray (r : Reader) (field : String) (n : UInt64) :
    PanicFree (expectArray r field n) :=
  (PanicFree.arrayLen r field).bind fun _ => PanicFree.ensure _ _

theorem PanicFree.readHash (r : Reader) (field : String) : PanicFree (readHash r field) := by
  refine PanicFree.bind (PanicFree.item _ _) ?_
  intro bytes
  split
  · exact PanicFree.pure _
  · exact PanicFree.fail _

theorem PanicFree.expectEnd (total : ℕ) : PanicFree (expectEnd total) :=
  PanicFree.bind PanicFree.remaining fun _ => PanicFree.ensure _ _

theorem PanicFree.readEnvelope (r : Reader) : PanicFree (readEnvelope r) :=
  (PanicFree.expectArray r _ _).bind fun _ => (PanicFree.item _ _).bind fun _ =>
    (PanicFree.ensure _ _).bind fun _ => (PanicFree.item _ _).bind fun _ =>
    (PanicFree.readHash r _).bind fun _ => PanicFree.pure _

/-- Only the decoder itself panics, not the comparison of positions behind it. -/
theorem whole_panic {A : Type} {p : Decode CborError A} {bytes : Bytes} :
    whole p bytes = .error .capacityOverflow ↔ p bytes = .error .capacityOverflow := by
  unfold whole
  rw [run_panic,bind_panic]
  refine or_iff_left ?_
  rintro ⟨a,u,-,h⟩
  exact ((PanicFree.expectEnd _).bind fun _ => PanicFree.pure a) u h

/-- Whatever is not refused has the shape of an envelope with the right checksum. -/
theorem refused_or_envelope (sizes : ElementSizes) (w : Writer) (blake3 : Bytes → Hash)
    (h : r.FollowsRfc) (bytes : Bytes) :
    (∃ e, fromCbor r sizes w blake3 bytes = .error (.failed e)) ∨
    ∃ payload, bytes ∈ envelopeForm Items.rfc payload (blake3 payload) := by
  cases hopen : whole (readEnvelope r) bytes with
  | error halt =>
      cases halt with
      | failed e => exact Or.inl ⟨e,by unfold fromCbor; rw [hopen]; rfl⟩
      | capacityOverflow => exact (PanicFree.readEnvelope r _ (whole_panic.mp hopen)).elim
  | ok parts =>
      obtain ⟨payload,checksum⟩ := parts
      have hbytes := whole_inverts (readEnvelope_exact h) hopen
      by_cases hsum : blake3 payload = checksum
      · rw [← hsum] at hbytes
        exact Or.inr ⟨payload,hbytes⟩
      · refine Or.inl ⟨.checksumMismatch,?_⟩
        unfold fromCbor
        rw [hopen]
        simp [bind,Except.bind,checkChecksum,hsum]

variable {sizes : ElementSizes} {w : Writer} {blake3 : Bytes → Hash}

theorem fromCbor_ok (h : r.FollowsRfc) {bytes : Bytes} {tx : ClaimTx} :
    fromCbor r sizes w blake3 bytes = .ok tx ↔
      bytes ∈ envelopeForm Items.rfc (encodePayload w tx) (blake3 (encodePayload w tx)) ∧
      decodePayload r sizes (encodePayload w tx) = .ok tx := by
  constructor
  · intro hok
    obtain ⟨e,herror⟩ | ⟨payload,hbytes⟩ := refused_or_envelope sizes w blake3 h bytes
    · rw [hok] at herror
      cases herror
    · rw [fromCbor_envelope h.toReads hbytes] at hok
      obtain ⟨decoded,hdecode,hrest⟩ := bind_ok.mp hok
      obtain ⟨_,hcanonical,hlast⟩ := bind_ok.mp hrest
      cases hlast
      have hsame : encodePayload w tx = payload := not_not.mp (guard_ok.mp hcanonical)
      rw [hsame]
      exact ⟨hbytes,hdecode⟩
  · rintro ⟨hbytes,hdecode⟩
    rw [fromCbor_envelope h.toReads hbytes,hdecode]
    simp [Except.bind,checkCanonical]

/-! ## Canonical envelopes -/

/-- All four heads of the envelope are of least width. -/
def MinimalEnvelope (bytes : Bytes) : Prop :=
  ∃ (payload : Bytes) (checksum : Hash),
    bytes = minimalHead .array 3++minimalHead .unsigned 2++
      (minimalHead .bytes payload.length++payload)++
      (minimalHead .bytes checksumLen++checksum.toList)

/-- The encoder's bytes, under a writer of least heads. -/
theorem toCbor_minimal (hw : w.WritesMinimal) {tx : ClaimTx} {bytes : Bytes} :
    toCbor w blake3 tx = .ok bytes ↔ AritiesAgree tx ∧
      bytes = minimalHead .array 3++minimalHead .unsigned 2++
        (minimalHead .bytes (encodePayload w tx).length++encodePayload w tx)++
        (minimalHead .bytes checksumLen++(blake3 (encodePayload w tx)).toList) := by
  rw [toCbor_ok,hw.array,hw.u64,hw.bytes,hw.bytes,Vector.length_toList]
  rfl

theorem minimalEnvelope_mem {payload : Bytes} {checksum : Hash} (h : payload.length < 2^64) :
    minimalHead .array 3++minimalHead .unsigned 2++
      (minimalHead .bytes payload.length++payload)++
      (minimalHead .bytes checksumLen++checksum.toList) ∈
        envelopeForm Items.rfc payload checksum := by
  have hheads := append_mem_mul (minimalHead_mem (m := .array) (n := 3) (by decide))
    (minimalHead_mem (m := .unsigned) (n := 2) (by decide))
  have hchecksum := minimalBytes_mem (v := checksum.toList) (by rw [Vector.length_toList]; decide)
  rw [Vector.length_toList] at hchecksum
  exact append_mem_mul (append_mem_mul hheads (minimalBytes_mem h)) hchecksum

/-- The two lists of a decoded collection are equally long. -/
theorem decodeCollection_arity {s t : Bytes} {claim : ClaimCollection}
    (h : decodeCollection r sizes s = .ok (claim,t)) :
    claim.publicInputs.length = claim.witness.length := by
  obtain ⟨_,_,-,h⟩ := bind_ok.mp h
  obtain ⟨publicLen,_,-,h⟩ := bind_ok.mp h
  obtain ⟨_,_,-,h⟩ := bind_ok.mp h
  obtain ⟨publicInputs,_,-,h⟩ := bind_ok.mp h
  obtain ⟨witnessLen,_,-,h⟩ := bind_ok.mp h
  obtain ⟨_,_,-,h⟩ := bind_ok.mp h
  obtain ⟨witness,_,-,h⟩ := bind_ok.mp h
  obtain ⟨_,_,harity,h⟩ := bind_ok.mp h
  obtain ⟨proof,_,-,h⟩ := bind_ok.mp h
  cases h
  exact (ensure_ok.mp harity).1

theorem decodePayload_arity {payload : Bytes} {tx : ClaimTx}
    (h : decodePayload r sizes payload = .ok tx) : AritiesAgree tx := by
  obtain ⟨_,hrun⟩ := run_ok.mp h
  obtain ⟨_,_,hclaim,hrest⟩ := bind_ok.mp hrun
  obtain ⟨_,_,-,hpure⟩ := bind_ok.mp hrest
  cases hpure
  obtain ⟨_,_,-,hclaim⟩ := bind_ok.mp hclaim
  obtain ⟨variant,u,-,hvariant⟩ := bind_ok.mp hclaim
  unfold decodeVariant at hvariant
  split_ifs at hvariant
  · obtain ⟨claim,_,-,hpure⟩ := bind_ok.mp hvariant
    cases hpure
    trivial
  · obtain ⟨claim,_,hcollection,hpure⟩ := bind_ok.mp hvariant
    cases hpure
    exact decodeCollection_arity hcollection
  · cases hvariant

end

section
variable (r : Reader) (w : Writer) (blake3 : Bytes → Hash) (sizes : ElementSizes)

/-- An accepted byte string is what the encoder writes for the decoded claim if
and only if its envelope heads are of least width; among such strings the claim
has one encoding. -/
theorem canonical_iff_minimal (hread : r.FollowsRfc) (hwrite : w.WritesMinimal)
    (bytes : Vec UInt8) (tx : ClaimTx)
    (haccepted : fromCbor r sizes w blake3 bytes.val = .ok tx) :
    (toCbor w blake3 tx = .ok bytes.val ↔ MinimalEnvelope bytes.val) ∧
    ∀ other : Vec UInt8, fromCbor r sizes w blake3 other.val = .ok tx →
      MinimalEnvelope bytes.val → MinimalEnvelope other.val → other = bytes := by
  have hcanonical (b : Vec UInt8) (hb : fromCbor r sizes w blake3 b.val = .ok tx) :
      toCbor w blake3 tx = .ok b.val ↔ MinimalEnvelope b.val := by
    obtain ⟨henvelope,hdecode⟩ := (fromCbor_ok hread).mp hb
    rw [toCbor_minimal hwrite,and_iff_right (decodePayload_arity hdecode)]
    constructor
    · intro h
      exact ⟨_,_,h⟩
    · rintro ⟨payload,checksum,h⟩
      have hlen : payload.length < 2^64 := by
        have hb := b.property
        rw [h] at hb
        simp only [List.length_append] at hb
        omega
      -- one string is opened in one way, so the two descriptions agree
      have hread1 := whole_reads (readEnvelope_reads hread.toReads _ _) henvelope
      have hread2 := whole_reads (readEnvelope_reads hread.toReads payload checksum)
        (minimalEnvelope_mem hlen)
      rw [← h,hread1] at hread2
      cases hread2
      exact h
  refine ⟨hcanonical bytes haccepted,?_⟩
  intro other hother hminimal hminimal'
  have h := (hcanonical bytes haccepted).mpr hminimal
  rw [(hcanonical other hother).mpr hminimal'] at h
  exact Subtype.ext (Except.ok.inj h)

end

/-- The claim of nothing, and its payload. -/
def emptyClaim : ClaimTx := .collection ⟨[],[],[]⟩
def emptyPayload : Bytes := [0x82,0x01,0x83,0x80,0x80,0x40]

def narrowEnvelope : Vec UInt8 :=
  ⟨[0x83,0x02,0x46]++emptyPayload++[0x58,0x20]++(singleChunkHash emptyPayload).toList,by
    simp [emptyPayload]⟩

/-- The same with the array head in two bytes. -/
def wideEnvelope : Bytes :=
  [0x98,0x03,0x02,0x46]++emptyPayload++[0x58,0x20]++(singleChunkHash emptyPayload).toList

theorem emptyPayload_encoded : encodePayload referenceWriter emptyClaim = emptyPayload := by
  decide

theorem emptyPayload_decoded :
    decodePayload reference.toReader sampleSizes emptyPayload = .ok emptyClaim := by
  decide +kernel

theorem emptyClaim_accepted {bytes : Bytes}
    (h : bytes ∈ envelopeForm Items.rfc emptyPayload (singleChunkHash emptyPayload)) :
    fromCbor reference.toReader sampleSizes referenceWriter singleChunkHash bytes =
      .ok emptyClaim := by
  rw [fromCbor_ok reference_follows.toFollowsRfc,emptyPayload_encoded]
  exact ⟨h,emptyPayload_decoded⟩

theorem emptyClaim_encoded :
    toCbor referenceWriter singleChunkHash emptyClaim = .ok narrowEnvelope.val := by
  rw [toCbor_minimal referenceWriter_minimal,emptyPayload_encoded]
  exact ⟨rfl,rfl⟩

theorem narrow_envelope_canonical :
    fromCbor reference.toReader sampleSizes referenceWriter singleChunkHash narrowEnvelope.val =
      .ok emptyClaim ∧
    toCbor referenceWriter singleChunkHash emptyClaim = .ok narrowEnvelope.val := by
  have haccepted : fromCbor reference.toReader sampleSizes referenceWriter singleChunkHash
      narrowEnvelope.val = .ok emptyClaim := emptyClaim_accepted (minimalEnvelope_mem (by decide))
  have h := canonical_iff_minimal reference.toReader referenceWriter singleChunkHash sampleSizes
    reference_follows.toFollowsRfc referenceWriter_minimal narrowEnvelope emptyClaim haccepted
  exact ⟨haccepted,h.1.mpr ⟨emptyPayload,singleChunkHash emptyPayload,rfl⟩⟩

/-- A longer head is accepted, and the claim is not encoded that way. -/
theorem wide_envelope_accepted :
    fromCbor reference.toReader sampleSizes referenceWriter singleChunkHash wideEnvelope =
      .ok emptyClaim ∧
    toCbor referenceWriter singleChunkHash emptyClaim ≠ .ok wideEnvelope := by
  constructor
  · have hchecksum := minimalBytes_mem (v := (singleChunkHash emptyPayload).toList)
      (by rw [Vector.length_toList]; decide)
    rw [Vector.length_toList] at hchecksum
    have harray : [0x98,0x03] ∈ Items.rfc.array 3 := ⟨.one,by decide,rfl⟩
    have hversion : [0x02] ∈ Items.rfc.u64 claimTxWireVersion := ⟨.direct,by decide,rfl⟩
    have hpayload := minimalBytes_mem (v := emptyPayload) (by decide)
    have hmem := append_mem_mul (append_mem_mul (append_mem_mul harray hversion) hpayload) hchecksum
    exact emptyClaim_accepted hmem
  · rw [emptyClaim_encoded]
    intro h
    have hfirst := (List.cons.inj (Except.ok.inj h)).1
    exact absurd hfirst (by decide)

/-! ## One changed byte -/

section
variable {w : Width} {rest y : List UInt8}

/-- The array head of the envelope: whatever else its first byte may be, the
version behind it is not the argument of a wider head. -/
theorem array_head_fixed {v : UInt8} (h : v::0x02::rest = head .array w 3++y) (hw : 3 < w.limit) :
    v = 0x83 := by
  cases w with
  | direct => exact (List.cons.inj h).1
  | one | two | four | eight =>
      have hsecond := (List.cons.inj (List.cons.inj h).2).1
      exact absurd hsecond (by decide)

/-- The version head, in front of the head of a byte string. -/
theorem version_head_fixed {v k : UInt8} (hk : 0x40 ≤ k)
    (h : v::k::rest = head .unsigned w 2++y) (hw : 2 < w.limit) : v = 0x02 := by
  cases w with
  | direct => exact (List.cons.inj h).1
  | one | two | four | eight =>
      have hsecond := (List.cons.inj (List.cons.inj h).2).1
      rw [hsecond] at hk
      exact absurd hk (by decide)

/-- A wide head of 32 ends in a zero byte and the length, the least one does not. -/
theorem head_thirtyTwo (hw : 32 < w.limit) :
    w = .one ∨ ∃ init, head .bytes w 32 = init++[0x00]++[0x20] := by
  cases w with
  | direct => exact absurd hw (by decide)
  | one => exact Or.inl rfl
  | two => exact Or.inr ⟨[0x59],rfl⟩
  | four => exact Or.inr ⟨[0x5a,0x00,0x00],rfl⟩
  | eight => exact Or.inr ⟨[0x5b,0x00,0x00,0x00,0x00,0x00,0x00],rfl⟩

/-- Behind an untouched checksum head nothing else can be read as one. -/
theorem checksum_head_fixed {x c d : List UInt8} (hlen : c.length = d.length) (hw : 32 < w.limit)
    (h : x++([0x58,0x20]++c) = y++(head .bytes w 32++d)) : x = y ∧ c = d := by
  rw [← List.append_assoc,← List.append_assoc] at h
  obtain ⟨hheads,hcd⟩ := List.append_inj' h hlen
  refine ⟨?_,hcd⟩
  obtain rfl | ⟨init,hinit⟩ := head_thirtyTwo hw
  · exact (List.append_inj' hheads rfl).1
  · have hsplit : x++[0x58]++[0x20] = y++init++[0x00]++[0x20] := by simpa [hinit] using hheads
    have hlast := (List.append_inj' (List.append_inj' hsplit rfl).1 rfl).2
    exact absurd hlast (by decide)

end

section
variable {p q : List UInt8} {w : Width} {j : ℕ} {v : UInt8}

/-- A wider head than the least one can differ from it in the first byte only. -/
theorem wider_first_byte {x y : List UInt8} {n m : ℕ} {k : Width} (hn : n < k.limit)
    (hm : m < w.limit) (hne : k ≠ w)
    (h : (head .bytes k n).set j v++x = head .bytes w m++y) : j = 0 := by
  cases j with
  | zero => rfl
  | succ j =>
      rw [head,List.set_cons_succ,List.cons_append,head,List.cons_append,List.cons.injEq] at h
      have hbyte := congrArg UInt8.toNat h.1
      rw [first_byte hn,first_byte hm] at hbyte
      have hinfo : k.info n = w.info m := by omega
      have hwidth := Width.ofInfo_info hn
      rw [hinfo,Width.ofInfo_info hm] at hwidth
      exact (hne (Option.some.inj hwidth).symm).elim

/-- The length of the payload cannot be the high part of a smaller length. -/
theorem high_part_ne {c k n m : ℕ} (hn : n < 256^c) (hlt : m < n) :
    beBytes c n ≠ beBytes c (m/256^k) := by
  intro h
  have hle : m/256^k ≤ m := Nat.div_le_self m _
  have heq := beBytes_inj hn (by omega) h
  omega

/-- A payload starting with a large byte is not a wider argument and a rest. -/
theorem payload_not_argument {k : ℕ} (hk : 0 < k) (hfirst : p.head? = some 0x82) (hq : q.length < 24)
    (h : p = beBytes k q.length++q) : False := by
  have hbyte := beBytes_get k q.length 0 hk
  rw [h,List.head?_eq_getElem?,List.getElem?_append_left (by simpa using hk),hbyte] at hfirst
  have hval := congrArg UInt8.toNat (Option.some.inj hfirst)
  rw [toNat_ofNat_byte] at hval
  have hle : q.length/256^(k-1-0) ≤ q.length := Nat.div_le_self _ _
  rw [Nat.mod_eq_of_lt (by omega)] at hval
  have hbig : q.length/256^(k-1-0) = 130 := hval
  omega

/-- No change inside the head of the payload leaves a head and a byte string of
the same total length. -/
theorem payload_head_fixed (hp : p.length < 2^64) (hfirst : p.head? = some 0x82)
    (hq : q.length < w.limit)
    (h : (minimalHead .bytes p.length).set j v++p = head .bytes w q.length++q) :
    (minimalHead .bytes p.length).set j v = minimalHead .bytes p.length := by
  have hk := Width.lt_minimal_limit hp
  unfold minimalHead at h ⊢
  have hlen := congrArg List.length h
  simp only [List.length_append,List.length_set,head_length] at hlen
  obtain hlt | heq | hgt := lt_trichotomy w.count (Width.minimal p.length).count
  · -- a narrower head would hold a length which the least width was chosen for
    have hle := Width.minimal_count_le (n := p.length) (w := w) (by omega)
    omega
  · have hwidth := Width.count_inj heq
    have hsame : q.length = p.length := by omega
    rw [hsame,hwidth] at h
    exact (List.append_inj h (by simp)).1
  · exfalso
    have hne : Width.minimal p.length ≠ w := fun he => by rw [he] at hgt; omega
    have hj := wider_first_byte hk hq hne h
    subst hj
    obtain ⟨k,hcount⟩ := Nat.exists_eq_add_of_lt hgt
    rw [head,List.set_cons_zero,List.cons_append,head,List.cons_append] at h
    have htail := (List.cons.inj h).2
    rw [hcount,Nat.add_assoc,beBytes_add,List.append_assoc] at htail
    obtain ⟨hhigh,hrest⟩ := List.append_inj htail (by simp)
    by_cases hdirect : Width.minimal p.length = .direct
    · rw [hdirect] at hk
      have hsmall : p.length < 24 := hk
      exact payload_not_argument (Nat.succ_pos k) hfirst (by omega) hrest
    · rw [Width.limit_eq_pow hdirect] at hk
      exact high_part_ne hk (by omega) hhigh

end

section
variable {p q c d : List UInt8} {k w : Width} {j : ℕ} {v : UInt8}

/-- A body with one byte changed which is read as a body again: the payload is
untouched and the checksum is not, or the other way round. -/
theorem body_reframed (hp : p.length < 2^64) (hfirst : p.head? = some 0x82)
    (hcd : c.length = d.length) (hq : q.length < k.limit) (hw : 32 < w.limit)
    (h : (minimalHead .bytes p.length++p++([0x58,0x20]++c)).set j v =
      head .bytes k q.length++q++(head .bytes w 32++d))
    (hchanged : (minimalHead .bytes p.length++p++([0x58,0x20]++c)).set j v ≠
      minimalHead .bytes p.length++p++([0x58,0x20]++c)) :
    (q = p ∧ d ≠ c) ∨
      (d = c ∧ q = p.set (j-(minimalHead .bytes p.length).length) v ∧ q ≠ p) := by
  have hk := Width.lt_minimal_limit hp
  rw [List.set_append,List.set_append] at h hchanged
  split_ifs at h hchanged with hbody hhead
  · exfalso
    have hfixed := payload_head_fixed hp hfirst hq (checksum_head_fixed hcd hw h).1
    rw [hfixed] at hchanged
    exact hchanged rfl
  · obtain ⟨hpayload,rfl⟩ := checksum_head_fixed hcd hw h
    obtain ⟨-,-,-,hset⟩ := head_append_inj hk hq hpayload
    refine Or.inr ⟨rfl,hset.symm,?_⟩
    rintro rfl
    rw [hset] at hchanged
    exact hchanged rfl
  · rw [List.append_assoc,List.append_assoc] at h
    obtain ⟨-,-,hlen,hrest⟩ := head_append_inj hk hq h
    obtain ⟨rfl,htail⟩ := List.append_inj hrest hlen
    refine Or.inl ⟨rfl,?_⟩
    rintro rfl
    have hcount := congrArg List.length htail
    simp only [List.length_set,List.length_append,head_length,List.length_cons,
      List.length_nil] at hcount
    have hone : w = .one := Width.count_inj (show w.count = 1 by omega)
    rw [hone] at htail
    rw [htail] at hchanged
    exact hchanged rfl

end

section
variable {blake3 : Bytes → Hash} {q : Bytes} {v : UInt8} {bytes rest : List UInt8}

/-- An envelope as a list of its four heads. -/
theorem envelope_heads (h : bytes ∈ envelopeForm Items.rfc q (blake3 q)) :
    ∃ a b k w : Width, 3 < a.limit ∧ 2 < b.limit ∧ q.length < k.limit ∧ 32 < w.limit ∧
      bytes = head .array a 3++(head .unsigned b 2++
        (head .bytes k q.length++q++(head .bytes w 32++(blake3 q).toList))) := by
  obtain ⟨x,hx,x4,hx4,rfl⟩ := Language.mem_mul.mp h
  obtain ⟨y,hy,x3,hx3,rfl⟩ := Language.mem_mul.mp hx
  obtain ⟨x1,⟨a,ha,rfl⟩,x2,⟨b,hb,rfl⟩,rfl⟩ := Language.mem_mul.mp hy
  obtain ⟨k,hk,rfl⟩ := mem_rfc_bytes hx3
  obtain ⟨w,hw,rfl⟩ := mem_rfc_bytes hx4
  rw [Vector.length_toList] at hw ⊢
  exact ⟨a,b,k,w,ha,hb,hk,hw,by simp [claimTxWireVersion]⟩

/-- Behind the untouched first two heads. -/
theorem envelope_body (h : 0x83::0x02::rest ∈ envelopeForm Items.rfc q (blake3 q)) :
    ∃ k w : Width, q.length < k.limit ∧ 32 < w.limit ∧
      rest = head .bytes k q.length++q++(head .bytes w 32++(blake3 q).toList) := by
  obtain ⟨a,b,k,w,ha,hb,hk,hw,hbytes⟩ := envelope_heads h
  obtain ⟨-,-,-,hrest⟩ := head_append_inj (m := .array) (v := .direct) (a := 3)
    (x := 0x02::rest) (by decide) ha hbytes
  obtain ⟨-,-,-,hbody⟩ := head_append_inj (m := .unsigned) (v := .direct) (a := 2)
    (x := rest) (by decide) hb hrest
  exact ⟨k,w,hk,hw,hbody⟩

theorem envelope_first (h : v::0x02::rest ∈ envelopeForm Items.rfc q (blake3 q)) : v = 0x83 := by
  obtain ⟨a,b,k,w,ha,hb,hk,hw,hbytes⟩ := envelope_heads h
  exact array_head_fixed hbytes ha

theorem envelope_second {n : UInt8} (hn : 0x40 ≤ n)
    (h : 0x83::v::n::rest ∈ envelopeForm Items.rfc q (blake3 q)) : v = 0x02 := by
  obtain ⟨a,b,k,w,ha,hb,hk,hw,hbytes⟩ := envelope_heads h
  obtain ⟨-,-,-,hrest⟩ := head_append_inj (m := .array) (v := .direct) (a := 3)
    (x := v::n::rest) (by decide) ha hbytes
  exact version_head_fixed hn hrest hb

end

section
variable {w : Writer}

theorem encodePayload_head (hw : w.WritesMinimal) (tx : ClaimTx) :
    (encodePayload w tx).head? = some 0x82 := by
  cases tx with
  | utxo claim =>
      rw [encodePayload,hw.array]
      rfl
  | collection claim =>
      rw [encodePayload,hw.array]
      rfl

/-- The head of a byte string is a byte of its major type. -/
theorem bytes_head_ge {n : ℕ} {k : Width} (hn : n < k.limit) :
    0x40 ≤ UInt8.ofNat (32*Major.bytes.code+k.info n) := by
  rw [UInt8.le_iff_toNat_le,first_byte hn]
  exact Nat.le_add_right 64 _

theorem set_ne_self {xs : List UInt8} {j : ℕ} {v : UInt8} (hj : j < xs.length)
    (hv : xs[j]? ≠ some v) : xs.set j v ≠ xs := by
  intro h
  rw [← h,List.getElem?_set_self hj] at hv
  exact hv rfl

end

section
variable (r : Reader) (w : Writer) (blake3 : Bytes → Hash) (sizes : ElementSizes)

/-- Where the payload starts in the envelope of a claim. -/
def payloadStart (tx : ClaimTx) : ℕ := 2+(minimalHead .bytes (encodePayload w tx).length).length

/-- An encoded claim with one byte changed is refused, or the payload and the
changed payload collide. -/
theorem tampered_byte_detected (hread : r.FollowsRfc) (hwrite : w.WritesMinimal) (tx : ClaimTx)
    (bytes : Vec UInt8) (hencoded : toCbor w blake3 tx = .ok bytes.val) (i : ℕ)
    (hi : i < bytes.val.length) (v : UInt8) (hv : bytes.val[i]? ≠ some v) :
    (∃ e, fromCbor r sizes w blake3 (bytes.val.set i v) = .error (.failed e)) ∨
    Collision blake3 [encodePayload w tx] [(encodePayload w tx).set (i-payloadStart w tx) v] := by
  have hlen := payload_length_le hwrite hencoded
  have hlt : (encodePayload w tx).length < 2^64 := Nat.lt_of_le_of_lt hlen (by decide)
  have hfirst := encodePayload_head hwrite tx
  have hbytes : bytes.val = 0x83::0x02::(minimalHead .bytes (encodePayload w tx).length++
      encodePayload w tx++([0x58,0x20]++(blake3 (encodePayload w tx)).toList)) :=
    ((toCbor_minimal hwrite).mp hencoded).2
  obtain hrefused | ⟨q,hq⟩ := refused_or_envelope sizes w blake3 hread (bytes.val.set i v)
  · exact Or.inl hrefused
  · right
    rw [hbytes] at hi hv hq
    match i with
    | 0 =>
        have hsame := envelope_first hq
        exact (hv (by rw [hsame]; rfl)).elim
    | 1 =>
        have hsame := envelope_second (bytes_head_ge (Width.lt_minimal_limit hlt)) hq
        exact (hv (by rw [hsame]; rfl)).elim
    | j+2 =>
        obtain ⟨k,width,hk,hwidth,hbody⟩ := envelope_body hq
        have hchanged := set_ne_self (Nat.lt_of_succ_lt_succ (Nat.lt_of_succ_lt_succ hi)) hv
        have hcd : (blake3 (encodePayload w tx)).toList.length = (blake3 q).toList.length := by
          rw [Vector.length_toList,Vector.length_toList]
        obtain ⟨rfl,hne⟩ | ⟨hsum,hset,hne⟩ := body_reframed hlt hfirst hcd hk hwidth hbody hchanged
        · exact (hne rfl).elim
        · refine ⟨_,List.mem_singleton_self _,q,?_,hne.symm,(Vector.toList_inj.mp hsum).symm⟩
          rw [List.mem_singleton,hset]
          unfold payloadStart
          congr 1
          omega

end

/-- The variant of the encoded claim changed from one to zero. -/
theorem changed_variant_detected :
    (∃ e, fromCbor reference.toReader sampleSizes referenceWriter singleChunkHash
      (narrowEnvelope.val.set 4 0x00) = .error (.failed e)) ∨
    Collision singleChunkHash [encodePayload referenceWriter emptyClaim]
      [(encodePayload referenceWriter emptyClaim).set (4-payloadStart referenceWriter emptyClaim)
        0x00] :=
  tampered_byte_detected reference.toReader referenceWriter singleChunkHash sampleSizes
    reference_follows.toFollowsRfc referenceWriter_minimal emptyClaim narrowEnvelope
    emptyClaim_encoded 4 (by simp [narrowEnvelope,emptyPayload]) 0x00
    (by simp [narrowEnvelope,emptyPayload])

end OmegaHarness.ClaimEnvelope
