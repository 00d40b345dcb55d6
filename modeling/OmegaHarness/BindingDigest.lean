import OmegaHarness.ClaimVerifier
import OmegaHarness.LeafEncodings

/-!
# What the binding words bind

Every row of the public values ends in the 32 bytes of one digest, a word for each byte. It
is taken over the commitment, the number of public inputs and the inputs themselves, all of
fixed widths, so its preimage is read in one way only. Equal words therefore mean equal
commitments and inputs, unless two preimages collide; and a verifier which compares the
rows of an envelope accepts them for one commitment and one list of inputs.
-/
namespace OmegaHarness.BindingDigest
open ByteFraming ClaimTypes ClaimVerifier DomainHashes FiniteCollisions FixedWidthBytes
open LeafEncodings ProofPublicValues

/-! ## Splitting the preimage -/

theorem publicInputBytes_splits (p q : ClaimPublicInputs) : SplitsAt publicInputBytes p q := by
  intro x y h
  unfold publicInputBytes at h
  simp only [List.cons_append,List.append_assoc] at h
  obtain ⟨hid,h⟩ := List.cons.inj h
  obtain ⟨hindex,h⟩ := toBeBytes_splits _ _ _ _ h
  obtain ⟨hdepth,h⟩ := List.cons.inj h
  obtain ⟨hroot,h⟩ := vector_splits _ _ _ _ h
  obtain ⟨hbundle,h⟩ := vector_splits _ _ _ _ h
  obtain ⟨hnullifier,h⟩ := vector_splits _ _ _ _ h
  obtain ⟨hrecipient,hrest⟩ := vector_splits _ _ _ _ h
  cases p
  cases q
  simp only [ClaimPublicInputs.mk.injEq]
  exact ⟨⟨hid,hindex,hdepth,hroot,hbundle,hnullifier,hrecipient⟩,hrest⟩

/-- The part of the preimage which belongs to the commitment. -/
theorem preimage_commitment {c d : OmegaCommitment} {ps qs : List ClaimPublicInputs}
    (h : proofBindingPreimage c ps = proofBindingPreimage d qs) :
    c = d ∧ beBytes 8 ps.length++ps.flatMap publicInputBytes =
      beBytes 8 qs.length++qs.flatMap publicInputBytes := by
  unfold proofBindingPreimage at h
  simp only [List.append_assoc] at h
  have h := List.append_cancel_left h
  obtain ⟨hbundle,h⟩ := vector_splits _ _ _ _ h
  obtain ⟨hroots,h⟩ := array_splits vector_splits _ _ _ _ h
  obtain ⟨hitems,h⟩ := array_splits toBeBytes_splits _ _ _ _ h
  obtain ⟨hleaves,h⟩ := array_splits toBeBytes_splits _ _ _ _ h
  obtain ⟨hdepths,hrest⟩ := array_splits u32Bytes_splits _ _ _ _ h
  cases c
  cases d
  simp only [OmegaCommitment.mk.injEq]
  exact ⟨⟨hbundle,hroots,hitems,hleaves,hdepths⟩,hrest⟩

/-- As many inputs on both sides, or numbers of them which fit their width. -/
theorem preimage_inj {c d : OmegaCommitment} {ps qs : List ClaimPublicInputs}
    (hlength : ps.length = qs.length ∨ ps.length < 2^64 ∧ qs.length < 2^64)
    (h : proofBindingPreimage c ps = proofBindingPreimage d qs) : c = d ∧ ps = qs := by
  obtain ⟨hcommitment,hinputs⟩ := preimage_commitment h
  obtain ⟨hcount,hinputs⟩ := List.append_inj hinputs (by rw [beBytes_length,beBytes_length])
  have hsame : ps.length = qs.length := by
    rcases hlength with hsame | ⟨hps,hqs⟩
    · exact hsame
    · exact beBytes_inj hps hqs hcount
  have hsplits := splitsAt_flatMap hsame fun p _ q _ => publicInputBytes_splits p q
  exact ⟨hcommitment,hsplits.inj hinputs⟩

/-! ## The words and the rows -/

section
variable {blake3 : Bytes → Hash} {c d : OmegaCommitment} {ps qs : List ClaimPublicInputs}

/-- The words are the digest, byte by byte. -/
theorem digest_of_bindingWords (h : bindingWords blake3 c ps = bindingWords blake3 d qs) :
    blake3 (proofBindingPreimage c ps) = blake3 (proofBindingPreimage d qs) := by
  have hinj : Function.Injective UInt8.toUInt32 := by
    intro a b hab
    have hnat := congrArg UInt32.toNat hab
    rw [UInt8.toNat_toUInt32,UInt8.toNat_toUInt32] at hnat
    exact UInt8.toNat_inj.mp hnat
  exact Vector.toList_inj.mp (List.map_injective_iff.mpr hinj h)

theorem bindingWords_bind (hlength : ps.length = qs.length ∨ ps.length < 2^64 ∧ qs.length < 2^64)
    (h : bindingWords blake3 c ps = bindingWords blake3 d qs) :
    c = d ∧ ps = qs ∨
      Collision blake3 [proofBindingPreimage c ps] [proofBindingPreimage d qs] := by
  rcases eq_or_collision (List.mem_singleton_self _) (List.mem_singleton_self _)
    (digest_of_bindingWords h) with hpreimage | hcol
  · exact Or.inl (preimage_inj hlength hpreimage)
  · exact Or.inr hcol

/-- One row of one input has its words at the end. -/
theorem bindingWords_of_rows (hrows : proofPublicValues blake3 c ps = proofPublicValues blake3 d qs)
    (hne : proofPublicValues blake3 c ps ≠ []) :
    ps.length = qs.length ∧ bindingWords blake3 c ps = bindingWords blake3 d qs := by
  have hlength := congrArg List.length hrows
  rw [proofPublicValues,proofPublicValues,List.length_map,List.length_map] at hlength
  refine ⟨hlength,?_⟩
  cases ps with
  | nil => exact (hne rfl).elim
  | cons p ps =>
      cases qs with
      | nil => cases hlength
      | cons q qs =>
          have hrow := (List.cons.inj hrows).1
          have hdrop := congrArg (List.drop proofBindingWordOffset) hrow
          have hp := (rowMatches_iff (bindingWords_length blake3 c (p::ps)) p).mpr
            (Eq.refl (publicValueRow (bindingWords blake3 c (p::ps)) p))
          have hq := (rowMatches_iff (bindingWords_length blake3 d (q::qs)) q).mpr
            (Eq.refl (publicValueRow (bindingWords blake3 d (q::qs)) q))
          simp only [rowMatches,Bool.and_eq_true,decide_eq_true_eq] at hp hq
          rw [hp.2,hq.2] at hdrop
          exact hdrop

end

/-- Equal words bind the commitment and the public inputs, and given rows, one at least,
are accepted for one commitment and one list of inputs; in both cases up to a collision of
the two preimages. -/
theorem binding_words_bind_all (blake3 : Bytes → Hash) (c d : OmegaCommitment)
    (ps qs : List ClaimPublicInputs) :
    (ps.length < 2^64 → qs.length < 2^64 → bindingWords blake3 c ps = bindingWords blake3 d qs →
      c = d ∧ ps = qs ∨
        Collision blake3 [proofBindingPreimage c ps] [proofBindingPreimage d qs]) ∧
    ∀ publicValues : List (List UInt32), publicValues ≠ [] →
      validateEnvelopePublicValues blake3 c ps publicValues = .ok () →
      validateEnvelopePublicValues blake3 d qs publicValues = .ok () →
      c = d ∧ ps = qs ∨
        Collision blake3 [proofBindingPreimage c ps] [proofBindingPreimage d qs] := by
  constructor
  · intro hps hqs hwords
    exact bindingWords_bind (Or.inr ⟨hps,hqs⟩) hwords
  · intro publicValues hne hc hd
    rw [validateEnvelopePublicValues_ok] at hc hd
    have hrows := hc.symm.trans hd
    obtain ⟨hlength,hwords⟩ := bindingWords_of_rows hrows (hc ▸ hne)
    exact bindingWords_bind (Or.inl hlength) hwords

def zeroCommitment : OmegaCommitment :=
  ⟨zeroHash,Vector.replicate 7 zeroHash,Vector.replicate 7 0,Vector.replicate 7 0,
    Vector.replicate 7 0⟩

/-- Inputs which differ in the nullifier only, which no row shows but in its digest. -/
def inputWith (nullifier : UInt8) : ClaimPublicInputs :=
  ⟨1,0,0,zeroHash,zeroHash,Vector.replicate 32 nullifier,zeroHash⟩

/-- Under a digest which is always zero, one envelope is accepted for both of them. -/
theorem constant_digest_collides :
    validateEnvelopePublicValues (fun _ => zeroHash) zeroCommitment [inputWith 2]
        (proofPublicValues (fun _ => zeroHash) zeroCommitment [inputWith 1]) = .ok () ∧
      Collision (fun _ => zeroHash) [proofBindingPreimage zeroCommitment [inputWith 1]]
        [proofBindingPreimage zeroCommitment [inputWith 2]] := by
  have hfirst := (validateEnvelopePublicValues_ok (fun _ => zeroHash) zeroCommitment
    [inputWith 1] _).mpr rfl
  have hsecond : validateEnvelopePublicValues (fun _ => zeroHash) zeroCommitment [inputWith 2]
      (proofPublicValues (fun _ => zeroHash) zeroCommitment [inputWith 1]) = .ok () :=
    (validateEnvelopePublicValues_ok _ _ _ _).mpr rfl
  refine ⟨hsecond,?_⟩
  rcases (binding_words_bind_all (fun _ => zeroHash) zeroCommitment zeroCommitment [inputWith 1]
    [inputWith 2]).2 _ (List.cons_ne_nil _ _) hfirst hsecond with hsame | hcol
  · exact absurd hsame.2 (by decide)
  · exact hcol

end OmegaHarness.BindingDigest
