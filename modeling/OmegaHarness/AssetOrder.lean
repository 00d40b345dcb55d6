import OmegaHarness.KeySorts
import OmegaHarness.SnapshotWalkers

/-!
# The order of the assets of an output

An output is encoded with its assets sorted by id, so that the order in which they are
given should not be seen in its bytes. The sort is stable and looks at the ids only. It
hides the order when no id stands with two quantities, and shows it otherwise; an output
which does not encode reports the same error in every order.

In the outputs of a snapshot no id is repeated. The parser compares policies with policies
and names with names of one policy, and a policy always has 28 bytes, so the ids made of
both ascend through the whole bundle and the sort has nothing to do.
-/
namespace OmegaHarness.AssetOrder
open BundleAssembly CborHeads DomainHashes FixedWidthBytes HostileLengths KeySorts LeafEncodings
open LedgerIngest SnapshotWalkers

theorem sortAssets_eq (assets : List Asset) : sortAssets assets = sortByKey Asset.assetId assets :=
  rfl

/-! ## What an encoding reports -/

section
variable {u : Utxo} {assets : List Asset}

theorem fits_perm (hperm : assets.Perm u.assets) :
    ({ u with assets := assets } : Utxo).Fits ↔ u.Fits := by
  constructor
  · intro h
    exact ⟨h.address,hperm.length_eq ▸ h.assetCount,
      fun a ha => h.assetIds a (hperm.mem_iff.mpr ha),h.datum,h.scriptRef⟩
  · intro h
    exact ⟨h.address,hperm.length_eq.symm ▸ h.assetCount,
      fun a ha => h.assetIds a (hperm.mem_iff.mp ha),h.datum,h.scriptRef⟩

/-- The assets reach the encoding as a list of parts, or as an error. -/
theorem encode_congr (hperm : assets.Perm u.assets)
    (hparts : (sortAssets assets).mapM Asset.encode = (sortAssets u.assets).mapM Asset.encode) :
    ({ u with assets := assets } : Utxo).encode = u.encode := by
  unfold Utxo.encode
  rw [hparts,hperm.length_eq]

/-- Before the assets only lengths are looked at, and behind them nothing depends on them
but the bytes put out. -/
theorem encode_of_not_fits (hperm : assets.Perm u.assets) (h : ¬u.Fits) :
    ({ u with assets := assets } : Utxo).encode = u.encode := by
  have hids : (∀ a ∈ sortAssets assets, a.assetId.length < 256^2) ↔
      ∀ a ∈ sortAssets u.assets, a.assetId.length < 256^2 := by
    have hsorted : (sortAssets assets).Perm (sortAssets u.assets) :=
      (sortAssets_perm assets).trans (hperm.trans (sortAssets_perm u.assets).symm)
    simp only [hsorted.mem_iff]
  by_cases hfit : ∀ a ∈ sortAssets u.assets, a.assetId.length < 256^2
  · cases hencode : u.encode with
    | ok bytes => exact (h (Utxo.encode_ok hencode).1).elim
    | error e =>
        rw [← hencode]
        unfold Utxo.encode at hencode ⊢
        rw [mapM_encodeAsset_eq,if_pos hfit] at hencode
        rw [mapM_encodeAsset_eq,mapM_encodeAsset_eq,if_pos hfit,if_pos (hids.mpr hfit),
          hperm.length_eq]
        cases haddress : lengthBytes 2 .addressLenOverflow u.address.length with
        | error e => rfl
        | ok addrLen =>
            cases hcount : lengthBytes 4 .assetCountOverflow u.assets.length with
            | error e => rfl
            | ok assetCount =>
                cases hdatum : u.datumOption.encode with
                | error e => rfl
                | ok datum =>
                    cases href : encodeScriptRef u.scriptRef with
                    | error e => rfl
                    | ok ref =>
                        rw [haddress,hcount,hdatum,href] at hencode
                        cases hencode
  · apply encode_congr hperm
    rw [mapM_encodeAsset_eq,mapM_encodeAsset_eq,if_neg hfit,if_neg (mt hids.mp hfit)]

/-- Of two orders of the assets, the bytes show which of them the sort has left. -/
theorem layout_eq_iff (hperm : assets.Perm u.assets) (h : u.Fits) :
    ({ u with assets := assets } : Utxo).layout = u.layout ↔
      sortAssets assets = sortAssets u.assets := by
  constructor
  · intro heq
    unfold Utxo.layout at heq
    dsimp only at heq
    rw [hperm.length_eq] at heq
    simp only [List.append_cancel_left_eq,List.append_cancel_right_eq] at heq
    have hids : ∀ {l : List Asset}, l.Perm u.assets → ∀ a ∈ sortAssets l,
        a.assetId.length < 256^2 :=
      fun hl a ha => h.assetIds a (hl.mem_iff.mp ((sortAssets_perm _).mem_iff.mp ha))
    have hlength : (sortAssets assets).length = (sortAssets u.assets).length := by
      rw [(sortAssets_perm _).length_eq,(sortAssets_perm _).length_eq,hperm.length_eq]
    have hsplit := ByteFraming.splitsAt_flatMap hlength
      fun a ha b hb => Asset.bytes_splits (hids hperm a ha) (hids (List.Perm.refl _) b hb)
    exact hsplit.inj heq
  · intro heq
    unfold Utxo.layout
    rw [heq,hperm.length_eq]

end

/-- An output encodes alike in every order of its assets exactly when no id stands with two
quantities, or else some length does not fit and the same error is reported. -/
theorem encode_ignores_order_iff (u : Utxo) :
    (∀ assets : List Asset, assets.Perm u.assets →
        ({ u with assets := assets } : Utxo).encode = u.encode) ↔
      (u.Fits → ∀ a ∈ u.assets, ∀ b ∈ u.assets, a.assetId = b.assetId → a = b) := by
  constructor
  · intro hsame hfits
    rw [← sortByKey_invariant_iff]
    intro assets hperm
    have hencode := hsame assets hperm
    rw [encode_of_fits hfits,encode_of_fits ((fits_perm hperm).mpr hfits),Except.ok.injEq] at hencode
    exact (layout_eq_iff hperm hfits).mp hencode
  · intro hties assets hperm
    by_cases hfits : u.Fits
    · apply encode_congr hperm
      rw [sortAssets_eq,sortAssets_eq,sortByKey_congr Asset.assetId hperm (hties hfits)]
    · exact encode_of_not_fits hperm hfits

/-- An output with one id in two amounts, in the two orders. -/
def splitHolding : Utxo := ⟨Vector.replicate 32 0,0,[0x61],0,[⟨[7],1⟩,⟨[7],2⟩],.none,none⟩

def splitHoldingSwapped : Utxo := { splitHolding with assets := [⟨[7],2⟩,⟨[7],1⟩] }

theorem split_holding_order_seen :
    splitHoldingSwapped.assets.Perm splitHolding.assets ∧
      (∃ x y, splitHolding.encode = .ok x ∧ splitHoldingSwapped.encode = .ok y ∧ x ≠ y) := by
  refine ⟨List.Perm.swap _ _ _,splitHolding.layout,splitHoldingSwapped.layout,?_,?_,?_⟩
  all_goals decide +kernel

/-! ## The assets of a snapshot -/

/-- Strings of one width are compared before what stands behind them. -/
theorem append_lt_append {x y : Bytes} (hlength : x.length = y.length) (h : x < y) (a b : Bytes) :
    x++a < y++b := by
  induction x generalizing y with
  | nil =>
      rw [List.length_nil,eq_comm,List.length_eq_zero_iff] at hlength
      subst hlength
      exact (List.lt_irrefl _ h).elim
  | cons c x ih =>
      cases y with
      | nil => cases hlength
      | cons d y =>
          rw [List.cons_append,List.cons_append,List.cons_lt_cons_iff]
          rw [List.cons_lt_cons_iff] at h
          rcases h with hlt | ⟨heq,hlt⟩
          · exact Or.inl hlt
          · exact Or.inr ⟨heq,ih (Nat.succ.inj hlength) hlt⟩

theorem assetUnder_lt_of_name {policy : Hash28} {a b : Bytes × UInt64} (h : a.1 < b.1) :
    (assetUnder policy a).assetId < (assetUnder policy b).assetId := List.append_left_lt h

theorem assetUnder_lt_of_policy {p q : Hash28} (h : p.toList < q.toList) (a b : Bytes × UInt64) :
    (assetUnder p a).assetId < (assetUnder q b).assetId :=
  append_lt_append (by rw [Vector.length_toList,Vector.length_toList]) h _ _

/-- The two orders of a bundle make one. -/
theorem assetsOf_ascending {bundle : Bundle} (h : AscendingKeys bundle) :
    (assetsOf bundle).Pairwise fun a b => a.assetId < b.assetId := by
  unfold assetsOf
  rw [List.pairwise_flatMap]
  constructor
  · intro policy hpolicy
    have hnames := List.pairwise_map.mp (h.2 policy hpolicy)
    exact List.pairwise_map.mpr (hnames.imp assetUnder_lt_of_name)
  · refine (List.pairwise_map.mp h.1).imp ?_
    intro p q hpq x hx y hy
    obtain ⟨a,-,rfl⟩ := List.mem_map.mp hx
    obtain ⟨b,-,rfl⟩ := List.mem_map.mp hy
    exact assetUnder_lt_of_policy hpq a b

section
variable {assets : List Asset} (h : assets.Pairwise fun a b => a.assetId < b.assetId)
include h

theorem sortAssets_of_ascending : sortAssets assets = assets :=
  sortByKey_of_sorted Asset.assetId (h.imp List.le_of_lt)

theorem eq_of_assetId {a b : Asset} (ha : a ∈ assets) (hb : b ∈ assets)
    (hid : a.assetId = b.assetId) : a = b := by
  have hids : (assets.map Asset.assetId).Nodup := by
    refine List.pairwise_map.mpr (h.imp ?_)
    intro c d hlt heq
    exact List.lt_irrefl _ (heq ▸ hlt)
  exact List.inj_on_of_nodup_map hids ha hb hid

end

/-- Every output of an accepted snapshot has its assets in strictly ascending order of ids.
The sort of its encoding leaves them as they are, and in any other order they are encoded
to the same bytes. -/
theorem ingested_assets_canonical {r : MapReader} (h : r.FollowsRfc) {sizes : RecordSizes}
    {cbor : Vec UInt8} {utxos : List Utxo} (hok : ingestUtxos r sizes cbor.val = .ok utxos) :
    ∀ u ∈ utxos, (u.assets.Pairwise fun a b => a.assetId < b.assetId) ∧
      sortAssets u.assets = u.assets ∧
      ∀ assets : List Asset, assets.Perm u.assets →
        ({ u with assets := assets } : Utxo).encode = u.encode := by
  have halloc := FallibleSteps.ne_error_of_ok hok .capacityOverflow
  obtain ⟨es,-,hfits,rfl⟩ := (ingestUtxos_ok h halloc).mp hok
  intro u hu
  obtain ⟨entry,hentry,rfl⟩ := List.mem_map.mp hu
  have hascending := assetsOf_ascending (hfits entry hentry).2
  refine ⟨hascending,sortAssets_of_ascending hascending,?_⟩
  intro assets hperm
  apply encode_congr hperm
  rw [sortAssets_eq,sortAssets_eq,sortByKey_congr Asset.assetId hperm]
  intro a ha b hb
  exact eq_of_assetId hascending ha hb

/-- An output with three assets under two policies. -/
def twoPolicies : Vec UInt8 :=
  ⟨[0x81,0x86,0x58,0x20]++List.replicate 32 1++[0x00,0x41,0x61,0x05,0xa2,0x58,0x1c]++
    List.replicate 28 1++[0xa2,0x40,0x01,0x41,0x09,0x02,0x58,0x1c]++List.replicate 28 2++
    [0xa1,0x40,0x03,0xf6],by decide⟩

def twoPoliciesOutput : Utxo :=
  ⟨Vector.replicate 32 1,0,[0x61],5,[⟨List.replicate 28 1,1⟩,⟨List.replicate 28 1++[9],2⟩,
    ⟨List.replicate 28 2,3⟩],.none,none⟩

theorem two_policies_canonical :
    ingestUtxos reference smallestRecords twoPolicies.val = .ok [twoPoliciesOutput] ∧
      sortAssets twoPoliciesOutput.assets = twoPoliciesOutput.assets := by
  have hok : ingestUtxos reference smallestRecords twoPolicies.val = .ok [twoPoliciesOutput] := by
    decide +kernel
  have hcanonical := ingested_assets_canonical reference_follows hok twoPoliciesOutput
    (List.mem_singleton_self _)
  exact ⟨hok,hcanonical.2.1⟩

end OmegaHarness.AssetOrder
