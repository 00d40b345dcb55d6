import OmegaHarness.SnapshotWalkers

/-!
# The totals of the token policies

Every asset takes at least one byte of the snapshot and adds less than `2^64` to a total,
so the totals stay below `2^127` on every input in memory: the additions are checked in
vain. With the checks gone, the walk is a fold over the entries, and its totals are sums
over the assets which the walk over the outputs finds in the same bytes.
-/
namespace OmegaHarness.TokenTotals
open BundleAssembly ByteDecoders CborHeads Decode DecoderViews DomainHashes HostileLengths
open KeyedTables LeafEncodings LedgerIngest SnapshotWalkers

/-! ## The totals are paid for -/

/-- Some number of bytes which satisfies `c` has been read. -/
def Paid (c : ℕ → Prop) (s : Bytes) : Prop := ∃ k, c k ∧ Fits k s

theorem Paid.fits {c : ℕ → Prop} {s : Bytes} (h : Paid c s) : Fits 0 s := by
  obtain ⟨k,-,hfits⟩ := h
  exact hfits.mono (Nat.zero_le k)

section
variable {E A : Type} {p : Decode E A} {c : ℕ → Prop}

theorem paid_keeps (h : ∀ k, Keeps k p) : Triple (Paid c) p fun _ => Paid c := by
  intro s hs
  obtain ⟨k,hk,hfits⟩ := hs
  exact ⟨(h k s hfits).1,fun hread => ⟨k,hk,(h k s hfits).2 hread⟩⟩

/-- A read which takes a byte pays for one more. -/
theorem paid_takes (h : ∀ k, Triple (Fits k) p fun _ => Fits (k+1)) :
    Triple (Paid c) p fun _ => Paid fun k => ∃ j, c j ∧ k = j+1 := by
  intro s hs
  obtain ⟨k,hk,hfits⟩ := hs
  exact ⟨(h k s hfits).1,fun hread => ⟨k+1,⟨k,hk,rfl⟩,(h k s hfits).2 hread⟩⟩

end

/-- The bytes read pay for each total with `more` on top. -/
def Bounds (totals : Totals) (more k : ℕ) : Prop := ∀ policy, totalOf totals policy+more ≤ k*2^64

theorem Bounds.lt {totals : Totals} {more k : ℕ} {s : Bytes} (h : Bounds totals more k)
    (hfits : Fits k s) (policy : Hash28) : totalOf totals policy+more < 2^128 := by
  have hpolicy := h policy
  unfold Fits isizeMax at hfits
  omega

theorem Bounds.more_lt {totals : Totals} {more k : ℕ} {s : Bytes} (h : Bounds totals more k)
    (hfits : Fits k s) : more < 2^128 := by
  have hlt := h.lt hfits (Vector.replicate 28 0)
  omega

theorem bounds_asset {totals : Totals} {policyTotal k : ℕ} (h : Bounds totals policyTotal k)
    (quantity : UInt64) : Bounds totals (policyTotal+quantity.toNat) (k+1) := by
  intro policy
  have hpolicy := h policy
  have hquantity := quantity.toNat_lt
  omega

theorem totalOf_insert (totals : Totals) (policy id : Hash28) (total : ℕ) :
    totalOf (totals.insert policy total) id = if id = policy then total else totalOf totals id := by
  unfold totalOf
  by_cases h : id = policy
  · rw [if_pos h,h,Finmap.lookup_insert,Option.getD_some]
  · rw [if_neg h,Finmap.lookup_insert_of_ne _ h]

theorem bounds_policy {totals : Totals} {policyTotal k : ℕ} (h : Bounds totals policyTotal k)
    (policy : Hash28) :
    Bounds (totals.insert policy (totalOf totals policy+policyTotal)) 0 k := by
  intro id
  rw [totalOf_insert]
  have hpolicy := h policy
  have hid := h id
  split
  · omega
  · omega

section
variable {r : MapReader}

theorem triple_checkedAdd {P : Bytes → Prop} {Q : ℕ → Bytes → Prop} {a b : ℕ}
    (h : ∀ s, P s → Q (a+b) s) : Triple P (checkedAdd a b) Q := by
  intro s hs
  refine ⟨(PanicFree.ensure _ _).bind (fun _ => PanicFree.pure _) s,?_⟩
  intro total t hread
  obtain ⟨_,u,hcheck,hpure⟩ := bind_ok.mp hread
  obtain ⟨-,rfl⟩ := ensure_ok.mp hcheck
  cases hpure
  exact h s hs

theorem triple_addAsset (h : r.FollowsRfc) (totals : Totals) (policyTotal : ℕ) :
    Triple (Paid (Bounds totals policyTotal)) (addAsset r policyTotal) fun total =>
      Paid (Bounds totals total) := by
  refine (paid_keeps fun _ => Keeps.forget (readVarBytes_fits h)).bind fun _ => ?_
  refine (paid_takes fun _ => readU64_takes h).bind fun quantity => ?_
  apply triple_checkedAdd
  intro s hs
  obtain ⟨k,⟨j,hj,rfl⟩,hfits⟩ := hs
  exact ⟨j+1,bounds_asset hj quantity,hfits⟩

theorem triple_addPolicy (h : r.FollowsRfc) (totals : Totals) :
    Triple (Paid (Bounds totals 0)) (addPolicy r totals) fun out => Paid (Bounds out 0) := by
  refine (paid_keeps fun _ => Keeps.forget (readSized_fits h 28 _)).bind fun policy => ?_
  refine (paid_keeps fun _ => readMapLen_fits h).bind fun n => ?_
  refine (Triple.loop (triple_addAsset h totals) n 0).bind fun policyTotal => ?_
  refine Triple.bind (Q := fun total s => total = totalOf totals policy+policyTotal ∧
    Paid (Bounds totals policyTotal) s) (triple_checkedAdd fun s hs => ⟨rfl,hs⟩) ?_
  intro total
  apply Triple.pure
  intro s hs
  obtain ⟨rfl,k,hbounds,hfits⟩ := hs
  exact ⟨k,bounds_policy hbounds policy,hfits⟩

theorem triple_addBundle (h : r.FollowsRfc) (totals : Totals) :
    Triple (Paid (Bounds totals 0)) (addBundle r totals) fun out => Paid (Bounds out 0) :=
  (paid_keeps fun _ => readMapLen_fits h).bind fun n => Triple.loop (triple_addPolicy h) n totals

theorem triple_addExtension (h : r.FollowsRfc) (arity : ℕ) (totals : Totals) :
    Triple (Paid (Bounds totals 0)) (addExtension r arity totals) fun out => Paid (Bounds out 0) := by
  unfold addExtension
  split
  · exact Triple.pure fun s hs => hs
  · refine (triple_addBundle h totals).mapFailed.bind fun out => ?_
    refine (paid_keeps fun _ => readCredential_fits h _).bind fun _ => ?_
    exact Triple.pure fun s hs => hs

theorem triple_walkPolicies (h : r.FollowsRfc) (totals : Totals) :
    Triple (Paid (Bounds totals 0)) (walkPolicies r totals) fun out => Paid (Bounds out 0) :=
  (paid_keeps fun _ => skipFields_fits h _).bind fun arity => triple_addExtension h arity totals

/-! ## The walk is a fold -/

def policySum (assets : List (Bytes × UInt64)) : ℕ := (assets.map fun asset => asset.2.toNat).sum

def addedPolicy (totals : Totals) (policy : Hash28 × List (Bytes × UInt64)) : Totals :=
  totals.insert policy.1 (totalOf totals policy.1+policySum policy.2)

theorem foldlM_sum (assets : List (Bytes × UInt64)) (start : ℕ) :
    assets.foldlM (fun total asset => some (total+asset.2.toNat)) start =
      some (start+policySum assets) := by
  induction assets generalizing start with
  | nil => rfl
  | cons asset rest ih =>
      rw [List.foldlM_cons]
      refine (ih _).trans ?_
      simp only [policySum,List.map_cons,List.sum_cons,Nat.add_assoc]

theorem views_addAsset (h : r.FollowsRfc) (totals : Totals) (policyTotal : ℕ) :
    Views (Paid (Bounds totals policyTotal)) (addAsset r policyTotal) (readAsset r) fun asset =>
      some (policyTotal+asset.2.toNat) := by
  refine Views.bind_same (Views.refl _) (paid_keeps fun _ => Keeps.forget (readVarBytes_fits h))
    fun name => ?_
  refine Views.bind_same (Views.refl _) (paid_takes fun _ => readU64_takes h) fun quantity => ?_
  refine Views.passes (checks_ensure _ _) ?_ (Views.pure rfl)
  intro s hs
  obtain ⟨k,⟨j,hj,rfl⟩,hfits⟩ := hs
  exact (bounds_asset hj quantity).more_lt hfits

theorem views_addPolicy (h : r.FollowsRfc) (totals : Totals) :
    Views (Paid (Bounds totals 0)) (addPolicy r totals) (readPolicy r) fun policy =>
      some (addedPolicy totals policy) := by
  refine Views.bind_same (Views.refl _)
    (paid_keeps fun _ => Keeps.forget (readSized_fits h 28 _)) fun policy => ?_
  refine Views.bind_same (Views.refl _) (paid_keeps fun _ => readMapLen_fits h) fun n => ?_
  have hloop := Views.loop (views_addAsset h totals) (triple_addAsset h totals) n 0
  refine Views.bind hloop (Triple.loop (triple_addAsset h totals) n 0) ?_ ?_
  · intro assets policyTotal hfold
    rw [foldlM_sum,Nat.zero_add] at hfold
    cases hfold
    rw [checkedAdd,bind_assoc]
    refine Views.passes (checks_ensure _ _) ?_ (Views.pure rfl)
    intro s hs
    obtain ⟨k,hbounds,hfits⟩ := hs
    exact hbounds.lt hfits policy
  · intro assets hfold
    rw [foldlM_sum] at hfold
    cases hfold

theorem views_addBundle (h : r.FollowsRfc) (totals : Totals) :
    Views (Paid (Bounds totals 0)) (addBundle r totals) (readBundle r) fun bundle =>
      some (bundle.foldl addedPolicy totals) := by
  refine Views.bind_same (Views.refl _) (paid_keeps fun _ => readMapLen_fits h) fun n => ?_
  refine (Views.loop (views_addPolicy h) (triple_addPolicy h) n totals).congr ?_
  intro bundle
  exact List.foldlM_pure

theorem views_walkPolicies (h : r.FollowsRfc) (totals : Totals) :
    Views (Paid (Bounds totals 0)) (walkPolicies r totals) (readEntry r) fun entry =>
      if entry.fields.address.length = 32 then some (entry.bundle.foldl addedPolicy totals)
      else none := by
  refine views_entry (fun behind => behind.1.foldl addedPolicy totals) h (fun _ hs => hs.fits)
    (paid_keeps fun _ => skipFields_fits h _) ?_
  intro arity
  unfold addExtension readBehind
  by_cases harity : arity = 4
  · rw [if_pos harity,if_pos harity]
    exact Views.pure rfl
  · rw [if_neg harity,if_neg harity]
    refine Views.bind (views_addBundle h totals).mapFailed.of_mapFailed
      (triple_addBundle h totals).mapFailed ?_ ?_
    · intro bundle out hfold
      cases hfold
      refine Views.bind_same ((views_readCredential h _ _).mono fun _ hs => hs.fits)
        (paid_keeps fun _ => readCredential_fits h _) fun credential => ?_
      exact Views.pure rfl
    · intro bundle hfold
      cases hfold

/-- The policies of all entries, one after the other. -/
def policiesOf (es : List SnapshotEntry) : Bundle := es.flatMap SnapshotEntry.bundle

def totalsOf (es : List SnapshotEntry) : Totals := (policiesOf es).foldl addedPolicy ∅

theorem paid_start {cbor : Bytes} (h : Fits 0 cbor) : Paid (Bounds ∅ 0) cbor :=
  ⟨0,fun _ => by simp [totalOf],h⟩

theorem triple_count (h : r.FollowsRfc) {c : ℕ → Prop} :
    Triple (Paid c) (other (readArrayLen r)) fun _ => Paid c :=
  paid_keeps fun _ => (readArrayLen_fits h).mapFailed

/-- No total leaves its 128 bits. -/
theorem triple_totals (h : r.FollowsRfc) (n : ℕ) :
    Triple (Paid (Bounds ∅ 0)) (loop (walkPolicies r) n ∅) fun totals _ =>
      ∀ policy, totalOf totals policy < 2^128 := by
  refine (Triple.loop (triple_walkPolicies h) n ∅).weaken ?_
  intro totals s hs
  obtain ⟨k,hbounds,hfits⟩ := hs
  exact hbounds.lt hfits

theorem walkTotals_ok (h : r.FollowsRfc) {cbor : Vec UInt8} {totals : Totals} :
    walk r (fun n => loop (walkPolicies r) n ∅) cbor.val = .ok totals ↔
      ∃ es, readSnapshot r cbor.val = .ok es ∧ (∀ e ∈ es, e.fields.address.length = 32) ∧
        totalsOf es = totals := by
  have hfold (es : List SnapshotEntry) :
      es.foldl (fun totals e => e.bundle.foldl addedPolicy totals) ∅ = totalsOf es :=
    (List.foldl_flatMap ..).symm
  rw [walk_ok (triple_count h) (fun n => (triple_totals h n).weaken fun _ _ _ => trivial)
    (fun n => Views.loop (views_walkPolicies h) (triple_walkPolicies h) n ∅)
    (paid_start (fits_cbor cbor))]
  simp only [foldlM_guard,hfold]

theorem ingestTokenPolicies_ok (h : r.FollowsRfc) {cbor : Vec UInt8} {policies : List TokenPolicy} :
    ingestTokenPolicies r cbor.val = .ok policies ↔
      ∃ es, readSnapshot r cbor.val = .ok es ∧ (∀ e ∈ es, e.fields.address.length = 32) ∧
        (sortedRows (totalsOf es)).map tokenPolicy = policies := by
  rw [ingestTokenPolicies,FallibleSteps.map_ok]
  simp only [walkTotals_ok h]
  constructor
  · rintro ⟨totals,⟨es,hes,haddress,rfl⟩,rfl⟩
    exact ⟨es,hes,haddress,rfl⟩
  · rintro ⟨es,hes,haddress,rfl⟩
    exact ⟨_,⟨es,hes,haddress,rfl⟩,rfl⟩

theorem totalsOf_lt (h : r.FollowsRfc) {cbor : Vec UInt8} {es : List SnapshotEntry}
    (hes : readSnapshot r cbor.val = .ok es) (haddress : ∀ e ∈ es, e.fields.address.length = 32)
    (policy : Hash28) : totalOf (totalsOf es) policy < 2^128 := by
  have hwalk := (walkTotals_ok h).mpr ⟨es,hes,haddress,rfl⟩
  exact walk_post (triple_count h) (triple_totals h) (paid_start (fits_cbor cbor)) hwalk policy

theorem ingestTokenPolicies_not_panic (h : r.FollowsRfc) (cbor : Vec UInt8) :
    ingestTokenPolicies r cbor.val ≠ .error .capacityOverflow := by
  rw [ingestTokenPolicies,ne_eq,FallibleSteps.map_error]
  exact walk_not_panic (triple_count h)
    (fun n => (triple_totals h n).weaken fun _ _ _ => trivial) (paid_start (fits_cbor cbor))

/-! ## The additions never overflow -/

/-- The helpers of `cbor.rs` name it in front of their messages. -/
def FromCbor (message : String) : Prop := "cbor: ".toList <+: message.toList

instance (message : String) : Decidable (FromCbor message) := inferInstanceAs (Decidable (_ <+: _))

theorem fromCbor_append {message : String} (h : FromCbor message) (rest : String) :
    FromCbor (message++rest) := by
  unfold FromCbor at *
  rw [String.toList_append]
  exact h.trans (List.prefix_append _ _)

theorem FromCbor.ne_overflow {message : String} (h : FromCbor message) :
    message ≠ totalSupplyOverflow := by
  rintro rfl
  revert h
  decide

theorem fromCbor_item {front : String} (h : FromCbor front) (e : String) :
    FromCbor (front++e++")") :=
  fromCbor_append (fromCbor_append h _) _

section Failures
variable {P : Bytes → Prop}

theorem readVarBytes_fails : FailsOnly P (readVarBytes r) FromCbor :=
  FailsOnly.item fun e => fromCbor_item (by decide) e

theorem readU64_fails : FailsOnly P (readU64 r) FromCbor :=
  FailsOnly.item fun e => fromCbor_item (by decide) e

theorem readU8_fails : FailsOnly P (readU8 r) FromCbor :=
  FailsOnly.item fun e => fromCbor_item (by decide) e

theorem readU32_fails : FailsOnly P (readU32 r) FromCbor := by
  refine readU64_fails.bind_any fun v => FailsOnly.bind_any (FailsOnly.ensure ?_) fun _ =>
    FailsOnly.pure _
  intro _ _ _
  exact fromCbor_append (fromCbor_append (by decide) _) _

theorem readSized_fails (n : ℕ) (what : String) : FailsOnly P (readSized r n what) FromCbor := by
  refine readVarBytes_fails.bind_any fun bytes => ?_
  split
  · exact FailsOnly.pure _
  · apply FailsOnly.fail
    exact fromCbor_append (fromCbor_append (fromCbor_append (by decide) _) _) _

theorem definite_fails (what : String) (read : Bytes → Except String (Option UInt64 × Bytes)) :
    FailsOnly P (definite what read) FromCbor := by
  refine FailsOnly.bind_any (FailsOnly.item fun e => ?_) fun count => ?_
  · exact fromCbor_append (fromCbor_append (fromCbor_append (fromCbor_append (by decide) _) _) _) _
  · cases count with
    | some n => exact FailsOnly.pure _
    | none => exact FailsOnly.fail (fromCbor_append (by decide) _)

theorem readNullMarker_fails : FailsOnly P (readNullMarker r) FromCbor := by
  refine FailsOnly.bind_any (FailsOnly.item fun e => fromCbor_item (by decide) e) fun isNull => ?_
  cases isNull with
  | true =>
      exact FailsOnly.bind_any (FailsOnly.item fun e => fromCbor_item (by decide) e) fun _ =>
        FailsOnly.pure _
  | false => exact FailsOnly.pure _

theorem expectEnd_fails (total : ℕ) : FailsOnly P (LedgerIngest.expectEnd total) FromCbor := by
  refine FailsOnly.bind_any (fun _ _ e he => by cases he) fun rest => FailsOnly.ensure ?_
  intro _ _ _
  repeat apply fromCbor_append
  decide

/-- The text of the overflow apart. -/
def OtherText (message : String) : Prop := message ≠ totalSupplyOverflow

def OtherError (e : IngestError) : Prop := e ≠ .other totalSupplyOverflow

theorem otherError_other {message : String} (h : OtherText message) :
    OtherError (.other message) := by
  intro heq
  cases heq
  exact h rfl

theorem otherError_schema (context message : String) : OtherError (.schema context message) := by
  intro heq
  cases heq

theorem fails_other {A : Type} {p : Decode String A} (h : FailsOnly P p FromCbor) :
    FailsOnly P (other p) OtherError :=
  FailsOnly.mapFailed (h.imp fun _ he => otherError_other he.ne_overflow)

theorem skipFields_fails (context : String) : FailsOnly P (skipFields r context) OtherError := by
  refine (fails_other (definite_fails _ _)).bind_any fun arity => ?_
  refine FailsOnly.bind_any (FailsOnly.ensure fun _ _ _ => otherError_schema _ _) fun _ => ?_
  refine (fails_other (readSized_fails _ _)).bind_any fun _ => ?_
  refine (fails_other readU64_fails).bind_any fun _ => ?_
  refine (fails_other (readSized_fails _ _)).bind_any fun _ => ?_
  exact (fails_other readU64_fails).bind_any fun _ => FailsOnly.pure _

theorem readCredential_fails (context : String) :
    FailsOnly P (readCredential r context) OtherError := by
  refine (fails_other readNullMarker_fails).bind_any fun absent => ?_
  cases absent with
  | true => exact FailsOnly.pure _
  | false =>
      refine (fails_other (definite_fails _ _)).bind_any fun arity => ?_
      refine FailsOnly.bind_any (FailsOnly.ensure fun _ _ _ => otherError_schema _ _) fun _ => ?_
      refine (fails_other (readSized_fails _ _)).bind_any fun _ => ?_
      refine (fails_other readU8_fails).bind_any fun _ => ?_
      exact (fails_other readU32_fails).bind_any fun _ => FailsOnly.pure _

end Failures

theorem checkedAdd_fails {P : Bytes → Prop} {a b : ℕ} (h : ∀ s, P s → a+b < 2^128) :
    FailsOnly P (checkedAdd a b) OtherText :=
  FailsOnly.bind_any (FailsOnly.ensure fun s hs hover => (hover (h s hs)).elim) fun _ =>
    FailsOnly.pure _

theorem addAsset_fails (h : r.FollowsRfc) (totals : Totals) (policyTotal : ℕ) :
    FailsOnly (Paid (Bounds totals policyTotal)) (addAsset r policyTotal) OtherText := by
  refine (readVarBytes_fails.imp fun _ he => he.ne_overflow).bind
    (paid_keeps fun _ => Keeps.forget (readVarBytes_fits h)) fun _ => ?_
  refine (readU64_fails.imp fun _ he => he.ne_overflow).bind
    (paid_takes fun _ => readU64_takes h) fun quantity => ?_
  apply checkedAdd_fails
  intro s hs
  obtain ⟨k,⟨j,hj,rfl⟩,hfits⟩ := hs
  exact (bounds_asset hj quantity).more_lt hfits

theorem addPolicy_fails (h : r.FollowsRfc) (totals : Totals) :
    FailsOnly (Paid (Bounds totals 0)) (addPolicy r totals) OtherText := by
  refine ((readSized_fails _ _).imp fun _ he => he.ne_overflow).bind
    (paid_keeps fun _ => Keeps.forget (readSized_fits h 28 _)) fun policy => ?_
  refine ((definite_fails _ _).imp fun _ he => he.ne_overflow).bind
    (paid_keeps fun _ => readMapLen_fits h) fun n => ?_
  refine (FailsOnly.loop (addAsset_fails h totals) (triple_addAsset h totals) n 0).bind
    (Triple.loop (triple_addAsset h totals) n 0) fun policyTotal => ?_
  refine FailsOnly.bind_any (checkedAdd_fails ?_) fun _ => FailsOnly.pure _
  intro s hs
  obtain ⟨k,hbounds,hfits⟩ := hs
  exact hbounds.lt hfits policy

theorem addBundle_fails (h : r.FollowsRfc) (totals : Totals) :
    FailsOnly (Paid (Bounds totals 0)) (addBundle r totals) OtherText :=
  ((definite_fails _ _).imp fun _ he => he.ne_overflow).bind
    (paid_keeps fun _ => readMapLen_fits h) fun n =>
      FailsOnly.loop (addPolicy_fails h) (triple_addPolicy h) n totals

theorem walkPolicies_fails (h : r.FollowsRfc) (totals : Totals) :
    FailsOnly (Paid (Bounds totals 0)) (walkPolicies r totals) OtherError := by
  refine (skipFields_fails _).bind (paid_keeps fun _ => skipFields_fits h _) fun arity => ?_
  unfold addExtension
  split
  · exact FailsOnly.pure _
  · have hbundle : FailsOnly (Paid (Bounds totals 0)) (other (addBundle r totals)) OtherError :=
      FailsOnly.mapFailed ((addBundle_fails h totals).imp fun _ he => otherError_other he)
    exact hbundle.bind_any fun _ => (readCredential_fails _).bind_any fun _ => FailsOnly.pure _

theorem ingestTokenPolicies_fails (h : r.FollowsRfc) (cbor : Vec UInt8) :
    ingestTokenPolicies r cbor.val ≠ .error (.failed (.other totalSupplyOverflow)) := by
  intro hover
  rw [ingestTokenPolicies,FallibleSteps.map_error,walk,run,FallibleSteps.map_error] at hover
  have hwalk : FailsOnly (Paid (Bounds ∅ 0)) (do
      let n ← other (readArrayLen r)
      let out ← loop (walkPolicies r) n ∅
      other (LedgerIngest.expectEnd cbor.val.length)
      pure out) OtherError := by
    refine (fails_other (definite_fails _ _)).bind (triple_count h) fun n => ?_
    refine (FailsOnly.loop (walkPolicies_fails h) (triple_walkPolicies h) n ∅).bind_any fun _ => ?_
    exact (fails_other (expectEnd_fails _)).bind_any fun _ => FailsOnly.pure _
  exact hwalk cbor.val (paid_start (fits_cbor cbor)) _ hover rfl

end

/-! ## The totals are the supply of the outputs -/

/-- The quantity of all assets under a policy. -/
def supply (assets : List Asset) (policyId : Hash28) : ℕ :=
  ((assets.filter fun a => policyId.toList <+: a.assetId).map fun a => a.quantity.toNat).sum

/-- What the policies of a list add to one of them. -/
def policyShare (bundle : Bundle) (policyId : Hash28) : ℕ :=
  ((bundle.filter fun policy => policy.1 = policyId).map fun policy => policySum policy.2).sum

theorem totalOf_foldl (bundle : Bundle) (totals : Totals) (policyId : Hash28) :
    totalOf (bundle.foldl addedPolicy totals) policyId =
      totalOf totals policyId+policyShare bundle policyId := by
  induction bundle generalizing totals with
  | nil => simp [policyShare]
  | cons policy rest ih =>
      rw [List.foldl_cons,ih,addedPolicy,totalOf_insert]
      by_cases h : policy.1 = policyId
      · simp [policyShare,h,Nat.add_assoc]
      · simp [policyShare,h,Ne.symm h]

theorem mem_foldl (bundle : Bundle) (totals : Totals) (policyId : Hash28) :
    policyId ∈ bundle.foldl addedPolicy totals ↔
      policyId ∈ totals ∨ ∃ policy ∈ bundle, policy.1 = policyId := by
  induction bundle generalizing totals with
  | nil => simp
  | cons policy rest ih =>
      rw [List.foldl_cons,ih,addedPolicy,Finmap.mem_insert]
      simp only [List.mem_cons,exists_eq_or_imp]
      rw [eq_comm (a := policyId)]
      tauto

/-- A policy in front of a name is a policy of the same length. -/
theorem policy_prefix_iff (policyId policy : Hash28) (name : Bytes) :
    policyId.toList <+: policy.toList++name ↔ policy = policyId := by
  constructor
  · intro h
    have hsame := List.prefix_of_prefix_length_le h (List.prefix_append policy.toList name) (by simp)
    exact (Vector.toList_inj.mp (hsame.eq_of_length (by simp))).symm
  · intro h
    rw [h]
    exact List.prefix_append _ _

theorem supply_append (xs ys : List Asset) (policyId : Hash28) :
    supply (xs++ys) policyId = supply xs policyId+supply ys policyId := by
  simp [supply]

theorem supply_policy (policy policyId : Hash28) (assets : List (Bytes × UInt64)) :
    supply (assets.map (assetUnder policy)) policyId =
      if policy = policyId then policySum assets else 0 := by
  induction assets with
  | nil => simp [supply,policySum]
  | cons asset rest ih =>
      rw [List.map_cons,← List.singleton_append,supply_append,ih]
      by_cases h : policy = policyId
      · simp [supply,assetUnder,policySum,h]
      · simp [supply,assetUnder,policy_prefix_iff,h]

theorem supply_assetsOf (bundle : Bundle) (policyId : Hash28) :
    supply (assetsOf bundle) policyId = policyShare bundle policyId := by
  induction bundle with
  | nil => rfl
  | cons policy rest ih =>
      have hassets : assetsOf (policy::rest) = policy.2.map (assetUnder policy.1)++assetsOf rest := rfl
      rw [hassets,supply_append,supply_policy,ih]
      by_cases h : policy.1 = policyId
      · simp [policyShare,h]
      · simp [policyShare,h]

theorem utxos_assets (es : List SnapshotEntry) :
    (es.map utxoOf).flatMap Utxo.assets = assetsOf (policiesOf es) := by
  simp only [assetsOf,policiesOf,List.flatMap_assoc,List.flatMap_map]
  rfl

theorem totalOf_of_row {totals : Totals} {row : Hash28 × ℕ} (h : row ∈ sortedRows totals) :
    totalOf totals row.1 = row.2 := by
  rw [totalOf,mem_sortedRows.mp h,Option.getD_some]

section
variable {r : MapReader} {es : List SnapshotEntry}

theorem policies_ascending (totals : Totals) :
    ((sortedRows totals).map tokenPolicy).Pairwise fun a b =>
      a.policyId.toList < b.policyId.toList := by
  rw [List.pairwise_map]
  apply (sortedRows_ascending totals).imp
  intro a b hlt
  exact Vector.lt_toList.mpr hlt

theorem policy_total {p : TokenPolicy} (hlt : ∀ policy, totalOf (totalsOf es) policy < 2^128)
    (hp : p ∈ (sortedRows (totalsOf es)).map tokenPolicy) :
    p.totalSupplyAtH.toNat = supply ((es.map utxoOf).flatMap Utxo.assets) p.policyId := by
  obtain ⟨row,hrow,rfl⟩ := List.mem_map.mp hp
  have htotal := totalOf_of_row hrow
  have hbound := hlt row.1
  have hshare := totalOf_foldl (policiesOf es) ∅ row.1
  rw [utxos_assets,supply_assetsOf]
  rw [htotal] at hbound
  change (BitVec.ofNat 128 row.2).toNat = policyShare (policiesOf es) row.1
  rw [BitVec.toNat_ofNat,Nat.mod_eq_of_lt hbound,← htotal]
  refine hshare.trans ?_
  simp [totalOf]

theorem asset_policy_listed {a : Asset} (ha : a ∈ (es.map utxoOf).flatMap Utxo.assets) :
    ∃ p ∈ (sortedRows (totalsOf es)).map tokenPolicy, p.policyId.toList <+: a.assetId := by
  rw [utxos_assets] at ha
  obtain ⟨policy,hpolicy,hasset⟩ := List.mem_flatMap.mp ha
  obtain ⟨asset,-,rfl⟩ := List.mem_map.mp hasset
  have hmem : policy.1 ∈ totalsOf es := (mem_foldl _ _ _).mpr (Or.inr ⟨policy,hpolicy,rfl⟩)
  obtain ⟨total,htotal⟩ := Finmap.mem_iff.mp hmem
  exact ⟨tokenPolicy (policy.1,total),List.mem_map_of_mem (mem_sortedRows.mpr htotal),
    List.prefix_append _ _⟩

/-- The policies of a snapshot which both walks accept ascend, their totals are the sums over
the outputs, and none is missing. An overflow is reported on no input. -/
theorem supply_conserved (h : r.FollowsRfc) (sizes : RecordSizes) (cbor : Vec UInt8) :
    (∀ utxos policies, ingestUtxos r sizes cbor.val = .ok utxos →
      ingestTokenPolicies r cbor.val = .ok policies →
        (policies.Pairwise fun a b => a.policyId.toList < b.policyId.toList) ∧
        (∀ p ∈ policies,
          p.totalSupplyAtH.toNat = supply (utxos.flatMap Utxo.assets) p.policyId) ∧
        ∀ u ∈ utxos, ∀ a ∈ u.assets, ∃ p ∈ policies, p.policyId.toList <+: a.assetId) ∧
      ingestTokenPolicies r cbor.val ≠ .error (.failed (.other totalSupplyOverflow)) := by
  refine ⟨?_,ingestTokenPolicies_fails h cbor⟩
  intro utxos policies hutxos hpolicies
  have halloc : ingestUtxos r sizes cbor.val ≠ .error .capacityOverflow := by
    rw [hutxos]
    exact fun heq => by cases heq
  obtain ⟨es,hes,-,rfl⟩ := (ingestUtxos_ok h halloc).mp hutxos
  obtain ⟨es',hes',haddress,rfl⟩ := (ingestTokenPolicies_ok h).mp hpolicies
  -- both walks read the same entries
  rw [hes] at hes'
  cases hes'
  refine ⟨policies_ascending _,fun p hp => policy_total (totalsOf_lt h hes haddress) hp,?_⟩
  intro u hu a ha
  exact asset_policy_listed (List.mem_flatMap.mpr ⟨u,hu,ha⟩)

end

/-- One output with two assets of one policy. -/
def twoAssets : Vec UInt8 :=
  ⟨[0x81,0x86,0x58,0x20]++List.replicate 32 1++[0x00,0x58,0x20]++List.replicate 32 2++
    [0x05,0xa1,0x58,0x1c]++List.replicate 28 7++[0xa2,0x41,0x61,0x03,0x41,0x62,0x02,0xf6],by decide⟩

def twoAssetsUtxo : Utxo :=
  ⟨Vector.replicate 32 1,0,List.replicate 32 2,5,
    [⟨List.replicate 28 7++[0x61],3⟩,⟨List.replicate 28 7++[0x62],2⟩],.none,none⟩

theorem two_assets_sum :
    supply twoAssetsUtxo.assets (Vector.replicate 28 7) = 5 ∧
      ∃ policies, ingestTokenPolicies reference twoAssets.val = .ok policies ∧
        ∀ p ∈ policies, p.totalSupplyAtH.toNat = supply twoAssetsUtxo.assets p.policyId := by
  have hutxos : ingestUtxos reference smallestRecords twoAssets.val = .ok [twoAssetsUtxo] := by
    decide +kernel
  have hpolicies : ingestTokenPolicies reference twoAssets.val =
      .ok [⟨Vector.replicate 28 7,0,5⟩] := by
    decide +kernel
  have hsum := (supply_conserved reference_follows smallestRecords twoAssets).1 _ _ hutxos hpolicies
  refine ⟨by decide,_,hpolicies,hsum.2.1⟩

end OmegaHarness.TokenTotals
