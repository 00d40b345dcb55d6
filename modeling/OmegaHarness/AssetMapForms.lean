import OmegaHarness.AssetOrder

/-!
# The encodings of an asset map

The parser of asset maps refuses keys which do not ascend, so that no two byte strings
should give the same assets. Two things escape it. A head may be written at any width which
holds its argument, and a policy may come with an empty map of names, of which the list of
assets keeps nothing. So every accepted string has another one beside it, at most one byte
longer. In preferred heads and without empty policies the assets determine the string.
-/
namespace OmegaHarness.AssetMapForms
open BundleAssembly ByteDecoders CborHeads Decode DecoderViews DomainHashes
open HostileLengths LeafEncodings LedgerIngest SnapshotWalkers

/-! ## Readers of one item -/

section
variable {r : MapReader}

theorem readMapLen_exact (h : r.FollowsRfc) (hmaps : r.ReadsMaps) :
    Exact (readMapLen r) (anyHead .map) := by
  constructor
  · intro n x hx rest
    have hn : (UInt64.ofNat n).toNat = n := by
      rw [UInt64.toNat_ofNat',Nat.mod_eq_of_lt (lt_of_mem_anyHead hx)]
    exact definite_ok.mpr ⟨UInt64.ofNat n,hmaps _ x (hn.symm ▸ hx) rest,hn⟩
  · intro s n t hread
    obtain ⟨count,hcount,rfl⟩ := definite_ok.mp hread
    exact h.map_inverts hcount

theorem readVarBytes_exact (h : r.FollowsRfc) : Exact (readVarBytes r) Items.rfc.bytes :=
  h.bytes_exact _

theorem readSized_exact (h : r.FollowsRfc) (n : ℕ) (what : String) :
    Exact (readSized r n what) fun v => Items.rfc.bytes v.toList := by
  constructor
  · intro v x hx rest
    refine bind_ok.mpr ⟨v.toList,rest,(readVarBytes_exact h).reads _ x hx rest,?_⟩
    rw [dif_pos (Vector.length_toList)]
    rfl
  · intro s v t hread
    obtain ⟨bytes,x,hx,u,rfl,hrest⟩ := (readVarBytes_exact h).bind_inverts hread
    split at hrest
    · cases hrest
      exact ⟨x,hx,rfl⟩
    · cases hrest

/-! ## Another string beside every accepted one -/

/-- A head which holds a small argument at another width, no more than a byte longer. -/
theorem anyHead_other {m : Major} {n : ℕ} {x : Bytes} (hn : n < 2^8) (hx : x ∈ anyHead m n) :
    ∃ y ∈ anyHead m n, y ≠ x ∧ y.length ≤ x.length+1 := by
  obtain ⟨w,hw,rfl⟩ := hx
  by_cases hone : w = .one
  · subst hone
    refine ⟨head m .two n,⟨.two,Nat.lt_of_lt_of_le hn (by decide),rfl⟩,?_,by simp [Width.count]⟩
    intro heq
    have hlength := congrArg List.length heq
    simp [Width.count] at hlength
  · refine ⟨head m .one n,⟨.one,hn,rfl⟩,?_,by simp [Width.count]⟩
    intro heq
    have hlength := congrArg List.length heq
    rw [head_length,head_length] at hlength
    exact hone (Width.count_inj (Nat.add_left_cancel hlength)).symm

/-- What a decoder goes on to do depends on what was read and what is left. -/
theorem bind_eq_of_reads {E A B : Type} {p : Decode E A} {f : A → Decode E B} {s t u : Bytes} {a : A}
    (hs : p s = .ok (a,u)) (ht : p t = .ok (a,u)) : (p >>= f) s = (p >>= f) t := by
  rw [bind_apply,bind_apply,hs,ht]

/-- The key of a policy under another head. -/
theorem parsePolicy_other (h : r.FollowsRfc) {st out : Option Bytes × List Asset} {s t : Bytes}
    (hread : parsePolicy r st s = .ok (out,t)) :
    ∃ u, u ≠ s ∧ u.length ≤ s.length+1 ∧ parsePolicy r st u = parsePolicy r st s := by
  obtain ⟨policy,x,hx,v,rfl,-⟩ := (readSized_exact h 28 _).bind_inverts hread
  obtain ⟨y,hy,z,hz,rfl⟩ := Language.mem_mul.mp hx
  cases hz
  have hlength : policy.toList.length < 2^8 := by
    rw [Vector.length_toList]
    decide
  obtain ⟨y',hy',hne,hle⟩ := anyHead_other hlength hy
  refine ⟨y'++policy.toList++v,?_,?_,?_⟩
  · intro heq
    exact hne (List.append_cancel_right (List.append_cancel_right heq))
  · simp only [List.length_append]
    omega
  · have hother : y'++policy.toList ∈ Items.rfc.bytes policy.toList :=
      Language.append_mem_mul hy' rfl
    exact bind_eq_of_reads ((readSized_exact h 28 _).reads policy _ hother v)
      ((readSized_exact h 28 _).reads policy _ hx v)

theorem parseMultiAssets_other (h : r.FollowsRfc) (hmaps : r.ReadsMaps) {s : Bytes}
    {assets : List Asset} (hread : parseMultiAssets r s = .ok (assets,[])) :
    ∃ t, t ≠ s ∧ t.length ≤ s.length+1 ∧ parseMultiAssets r t = .ok (assets,[]) := by
  obtain ⟨n,x,hx,u,rfl,hrest⟩ := (readMapLen_exact h hmaps).bind_inverts hread
  cases n with
  | zero =>
      -- an empty map is nothing but its head
      obtain ⟨y,hy,hne,hle⟩ := anyHead_other (by decide) hx
      refine ⟨y++u,fun heq => hne (List.append_cancel_right heq),?_,?_⟩
      · simp only [List.length_append]
        omega
      · rw [← hread]
        exact bind_eq_of_reads ((readMapLen_exact h hmaps).reads 0 y hy u)
          ((readMapLen_exact h hmaps).reads 0 x hx u)
  | succ n =>
      obtain ⟨st,v,hloop,hpure⟩ := bind_ok.mp hrest
      obtain ⟨first,w,hfirst,-⟩ := bind_ok.mp hloop
      obtain ⟨u',hne,hle,hsame⟩ := parsePolicy_other h hfirst
      refine ⟨x++u',fun heq => hne (List.append_cancel_left heq),?_,?_⟩
      · simp only [List.length_append]
        omega
      · have hloop' : loop (parsePolicy r) (n+1) (none,[]) u' = .ok (st,v) := by
          rw [← hloop]
          exact bind_eq_of_reads (hsame.trans hfirst) hfirst
        exact bind_ok.mpr ⟨n+1,u',(readMapLen_exact h hmaps).reads _ x hx u',
          bind_ok.mpr ⟨st,v,hloop',hpure⟩⟩

end

/-! ## The preferred form -/

def assetBytes (asset : Bytes × UInt64) : Bytes :=
  minimalHead .bytes asset.1.length++asset.1++minimalHead .unsigned asset.2.toNat

def policyBytes (policy : Hash28 × List (Bytes × UInt64)) : Bytes :=
  minimalHead .bytes 28++policy.1.toList++
    (minimalHead .map policy.2.length++policy.2.flatMap assetBytes)

def bundleBytes (bundle : Bundle) : Bytes :=
  minimalHead .map bundle.length++bundle.flatMap policyBytes

/-- A string in preferred heads throughout, in which no policy is empty. -/
def Preferred (s : Bytes) : Prop :=
  ∃ bundle : Bundle, (∀ policy ∈ bundle, policy.2 ≠ []) ∧ s = bundleBytes bundle

def assetForm (asset : Bytes × UInt64) : Language UInt8 :=
  Items.rfc.bytes asset.1*Items.rfc.u64 asset.2

def policyForm (policy : Hash28 × List (Bytes × UInt64)) : Language UInt8 :=
  Items.rfc.bytes policy.1.toList*(anyHead .map policy.2.length*(policy.2.map assetForm).prod)

/-- Every form of a bundle. -/
def bundleForm (bundle : Bundle) : Language UInt8 :=
  anyHead .map bundle.length*(bundle.map policyForm).prod

theorem length_le_flatMap {A : Type} {f : A → Bytes} {l : List A} {a : A} (ha : a ∈ l) :
    (f a).length ≤ (l.flatMap f).length := by
  rw [List.length_flatMap]
  exact List.single_le_sum (fun _ _ => Nat.zero_le _) _ (List.mem_map_of_mem ha)

theorem count_le_flatMap {A : Type} {f : A → Bytes} (l : List A) (hf : ∀ a, 1 ≤ (f a).length) :
    l.length ≤ (l.flatMap f).length := by
  induction l with
  | nil => exact Nat.zero_le _
  | cons a l ih =>
      have ha := hf a
      rw [List.flatMap_cons,List.length_append,List.length_cons]
      omega

theorem assetBytes_mem {asset : Bytes × UInt64} (h : (assetBytes asset).length < 2^64) :
    assetBytes asset ∈ assetForm asset := by
  have hname : asset.1.length < 2^64 := by
    unfold assetBytes at h
    simp only [List.length_append] at h
    omega
  exact Language.append_mem_mul (minimalBytes_mem hname) (minimalHead_mem asset.2.toNat_lt)

theorem policyBytes_mem {policy : Hash28 × List (Bytes × UInt64)}
    (h : (policyBytes policy).length < 2^64) : policyBytes policy ∈ policyForm policy := by
  have hlength : (policy.2.flatMap assetBytes).length < 2^64 := by
    unfold policyBytes at h
    simp only [List.length_append] at h
    omega
  have hcount : policy.2.length ≤ (policy.2.flatMap assetBytes).length :=
    count_le_flatMap _ fun asset => by
      unfold assetBytes minimalHead
      simp only [List.length_append,head_length]
      omega
  have hkey : minimalHead .bytes 28++policy.1.toList ∈ Items.rfc.bytes policy.1.toList := by
    have hmem := @minimalBytes_mem policy.1.toList (by rw [Vector.length_toList]; decide)
    rwa [Vector.length_toList] at hmem
  refine Language.append_mem_mul hkey (Language.append_mem_mul (minimalHead_mem (by omega)) ?_)
  apply flatMap_mem_prod
  intro asset hasset
  exact assetBytes_mem (Nat.lt_of_le_of_lt (length_le_flatMap hasset) hlength)

theorem bundleBytes_mem {bundle : Bundle} (h : (bundleBytes bundle).length < 2^64) :
    bundleBytes bundle ∈ bundleForm bundle := by
  have hlength : (bundle.flatMap policyBytes).length < 2^64 := by
    unfold bundleBytes at h
    simp only [List.length_append] at h
    omega
  have hcount : bundle.length ≤ (bundle.flatMap policyBytes).length :=
    count_le_flatMap _ fun policy => by
      unfold policyBytes minimalHead
      simp only [List.length_append,head_length]
      omega
  refine Language.append_mem_mul (minimalHead_mem (by omega)) ?_
  apply flatMap_mem_prod
  intro policy hpolicy
  exact policyBytes_mem (Nat.lt_of_le_of_lt (length_le_flatMap hpolicy) hlength)

section
variable {r : MapReader}

theorem readBundle_reads (h : r.FollowsRfc) (hmaps : r.ReadsMaps) (bundle : Bundle) :
    Reads (readBundle r) bundle (bundleForm bundle) := by
  have hasset (asset : Bytes × UInt64) : Reads (readAsset r) asset (assetForm asset) :=
    ((readVarBytes_exact h).reads asset.1).bind ((h.u64_item _ asset.2).bind_pure)
  have hpolicy (policy : Hash28 × List (Bytes × UInt64)) :
      Reads (readPolicy r) policy (policyForm policy) :=
    ((readSized_exact h 28 _).reads policy.1).bind
      (((readMapLen_exact h hmaps).reads policy.2.length).bind
        ((Reads.times policy.2 fun asset _ => hasset asset).bind_pure))
  exact ((readMapLen_exact h hmaps).reads bundle.length).bind
    (Reads.times bundle fun policy _ => hpolicy policy)

/-- The bundle of a preferred string is the one the parser goes through. -/
theorem preferred_parsed (h : r.FollowsRfc) (hmaps : r.ReadsMaps) {s : Vec UInt8}
    {assets : List Asset} (hs : parseMultiAssets r s.val = .ok (assets,[]))
    {bundle : Bundle} (hbytes : s.val = bundleBytes bundle) :
    AscendingKeys bundle ∧ assetsOf bundle = assets := by
  obtain ⟨read,hread,hview⟩ := (views_parseMultiAssets h s.val (fits_cbor s) assets []).mp hs
  have hlength : (bundleBytes bundle).length < 2^64 := by
    rw [← hbytes]
    exact Nat.lt_of_le_of_lt (fits_cbor s) (by decide)
  have hbundle := readBundle_reads h hmaps bundle _ (bundleBytes_mem hlength) []
  rw [List.append_nil,← hbytes,hread] at hbundle
  cases hbundle
  exact Option.ite_none_right_eq_some.mp hview |>.imp_right Option.some.inj

end

/-! ## The assets determine the bundle -/

theorem assetUnder_inj {p q : Hash28} {x y : Bytes × UInt64} (h : assetUnder p x = assetUnder q y) :
    p = q ∧ x = y := by
  have hid := congrArg Asset.assetId h
  have hquantity : x.2 = y.2 := congrArg Asset.quantity h
  have hparts := List.append_inj hid (by rw [Vector.length_toList,Vector.length_toList])
  exact ⟨Vector.toList_inj.mp hparts.1,Prod.ext hparts.2 hquantity⟩

def isUnder (policy : Hash28) (asset : Asset) : Bool := asset.assetId.take 28 = policy.toList

@[simp] theorem isUnder_assetUnder (p q : Hash28) (x : Bytes × UInt64) :
    isUnder q (assetUnder p x) = decide (p = q) := by
  have htake : (assetUnder p x).assetId.take 28 = p.toList :=
    List.take_left' (Vector.length_toList)
  rw [isUnder,htake]
  simp only [Vector.toList_inj]

theorem assetsOf_cons (policy : Hash28 × List (Bytes × UInt64)) (bundle : Bundle) :
    assetsOf (policy::bundle) = policy.2.map (assetUnder policy.1)++assetsOf bundle :=
  List.flatMap_cons

theorem ascendingKeys_tail {policy : Hash28 × List (Bytes × UInt64)} {bundle : Bundle}
    (h : AscendingKeys (policy::bundle)) : AscendingKeys bundle :=
  ⟨(List.pairwise_cons.mp h.1).2,fun p hp => h.2 p (List.mem_cons_of_mem _ hp)⟩

/-- The assets of the first policy are those which start with its key. -/
theorem filter_isUnder {policy : Hash28 × List (Bytes × UInt64)} {bundle : Bundle}
    (h : AscendingKeys (policy::bundle)) :
    (assetsOf (policy::bundle)).filter (isUnder policy.1) = policy.2.map (assetUnder policy.1) := by
  have hrest : (assetsOf bundle).filter (isUnder policy.1) = [] := by
    rw [List.filter_eq_nil_iff]
    intro asset hasset
    obtain ⟨p,hp,hmem⟩ := List.mem_flatMap.mp hasset
    obtain ⟨x,-,rfl⟩ := List.mem_map.mp hmem
    rw [isUnder_assetUnder]
    intro heq
    have hlt := (List.pairwise_cons.mp h.1).1 p.1.toList (List.mem_map_of_mem hp)
    rw [of_decide_eq_true heq] at hlt
    exact List.lt_irrefl _ hlt
  rw [assetsOf_cons,List.filter_append,hrest,List.append_nil,List.filter_eq_self]
  intro asset hasset
  obtain ⟨x,-,rfl⟩ := List.mem_map.mp hasset
  simp

/-- Without empty policies the first asset names the first policy. -/
theorem first_policy_eq {p q : Hash28 × List (Bytes × UInt64)} {a b : Bundle} (hp : p.2 ≠ [])
    (hq : q.2 ≠ []) (h : assetsOf (p::a) = assetsOf (q::b)) : p.1 = q.1 := by
  obtain ⟨x,xs,hx⟩ := List.exists_cons_of_ne_nil hp
  obtain ⟨y,ys,hy⟩ := List.exists_cons_of_ne_nil hq
  rw [assetsOf_cons,assetsOf_cons,hx,hy] at h
  exact (assetUnder_inj (List.cons.inj h).1).1

theorem assetsOf_inj {a b : Bundle} (ha : AscendingKeys a) (hb : AscendingKeys b)
    (hfull : ∀ policy ∈ a, policy.2 ≠ []) (hfull' : ∀ policy ∈ b, policy.2 ≠ [])
    (h : assetsOf a = assetsOf b) : a = b := by
  induction a generalizing b with
  | nil =>
      cases b with
      | nil => rfl
      | cons q b =>
          have hempty : q.2.map (assetUnder q.1) = [] := (List.append_eq_nil_iff.mp h.symm).1
          exact (hfull' q List.mem_cons_self (List.map_eq_nil_iff.mp hempty)).elim
  | cons p a ih =>
      cases b with
      | nil =>
          have hempty : p.2.map (assetUnder p.1) = [] := (List.append_eq_nil_iff.mp h).1
          exact (hfull p List.mem_cons_self (List.map_eq_nil_iff.mp hempty)).elim
      | cons q b =>
          have hkey := first_policy_eq (hfull p List.mem_cons_self) (hfull' q List.mem_cons_self) h
          have hassets : p.2.map (assetUnder p.1) = q.2.map (assetUnder q.1) := by
            rw [← filter_isUnder ha,← filter_isUnder hb,h,hkey]
          have hrest : assetsOf a = assetsOf b := by
            rw [assetsOf_cons,assetsOf_cons,hassets] at h
            exact List.append_cancel_left h
          have hnames : p.2 = q.2 := by
            rw [hkey] at hassets
            exact List.map_injective_iff.mpr (fun x y hxy => (assetUnder_inj hxy).2) hassets
          rw [Prod.ext hkey hnames,ih (ascendingKeys_tail ha) (ascendingKeys_tail hb)
            (fun policy hp => hfull policy (List.mem_cons_of_mem _ hp))
            (fun policy hp => hfull' policy (List.mem_cons_of_mem _ hp)) hrest]

/-- Beside every accepted string there is another one, of at most one byte more, with the
same assets. Of those in preferred heads without empty policies there is only one. -/
theorem asset_map_has_other_form {r : MapReader} (h : r.FollowsRfc) (hmaps : r.ReadsMaps)
    {s : Vec UInt8} {assets : List Asset} (hs : parseMultiAssets r s.val = .ok (assets,[])) :
    (∃ t : Bytes, t ≠ s.val ∧ t.length ≤ s.val.length+1 ∧
      parseMultiAssets r t = .ok (assets,[])) ∧
    ∀ t : Vec UInt8, parseMultiAssets r t.val = .ok (assets,[]) → Preferred s.val →
      Preferred t.val → s.val = t.val := by
  refine ⟨parseMultiAssets_other h hmaps hs,?_⟩
  intro t ht hs' ht'
  obtain ⟨a,hfull,ha⟩ := hs'
  obtain ⟨b,hfull',hb⟩ := ht'
  obtain ⟨hascending,hassets⟩ := preferred_parsed h hmaps hs ha
  obtain ⟨hascending',hassets'⟩ := preferred_parsed h hmaps ht hb
  rw [ha,hb,assetsOf_inj hascending hascending' hfull hfull' (hassets.trans hassets'.symm)]

/-- An empty map in the shortest head, in a longer one, and with a policy of no names. -/
def emptyMap : Vec UInt8 := ⟨[0xa0],by decide⟩

def emptyMapWide : Vec UInt8 := ⟨[0xb8,0x00],by decide⟩

def emptyPolicy : Vec UInt8 := ⟨[0xa1,0x58,0x1c]++List.replicate 28 1++[0xa0],by decide⟩

theorem empty_map_has_other_form :
    parseMultiAssets reference emptyMap.val = .ok ([],[]) ∧
      ∃ t : Bytes, t ≠ emptyMap.val ∧ t.length ≤ 2 ∧ parseMultiAssets reference t = .ok ([],[]) := by
  have hs : parseMultiAssets reference emptyMap.val = .ok ([],[]) := by decide +kernel
  exact ⟨hs,(asset_map_has_other_form reference_follows reference_readsMaps hs).1⟩

/-- One output with the given asset map and no script. -/
def outputWith (assets : Bytes) : Bytes :=
  [0x81,0x86,0x58,0x20]++List.replicate 32 1++[0x00,0x41,0x61,0x05]++assets++[0xf6]

/-- Three maps with the same assets, and three snapshots with the same output. -/
theorem empty_map_forms :
    parseMultiAssets reference emptyMap.val = .ok ([],[]) ∧
      parseMultiAssets reference emptyMapWide.val = .ok ([],[]) ∧
      parseMultiAssets reference emptyPolicy.val = .ok ([],[]) ∧
      ∃ u, ingestUtxos reference smallestRecords (outputWith emptyMap.val) = .ok [u] ∧
        ingestUtxos reference smallestRecords (outputWith emptyMapWide.val) = .ok [u] ∧
        ingestUtxos reference smallestRecords (outputWith emptyPolicy.val) = .ok [u] := by
  refine ⟨by decide +kernel,by decide +kernel,by decide +kernel,
    ⟨Vector.replicate 32 1,0,[0x61],5,[],.none,none⟩,?_,?_,?_⟩
  all_goals decide +kernel

end OmegaHarness.AssetMapForms
