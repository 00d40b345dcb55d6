import OmegaHarness.ByteFraming
import OmegaHarness.DomainHashes
import OmegaHarness.FallibleSteps

/-!
# The records of the seven sub-trees and their leaf encodings

Each record is written in big-endian fixed widths. Only the stake entry, the governance
fact and the unspent output have variable parts: a tag byte stands in front of each
variant, a length in front of every byte string and a count in front of the assets, which
are written in the order of their ids. So the bytes determine the record, and those of an
unspent output determine it up to the order of its assets.
-/
namespace OmegaHarness.LeafEncodings
open FixedWidthBytes ByteFraming DomainHashes

/-- `[u8; 28]`. -/
abbrev Hash28 := Vector UInt8 28

def u32Bytes (n : UInt32) : Bytes := beBytes 4 n.toNat

def u128Bytes (n : BitVec 128) : Bytes := beBytes 16 n.toNat

@[ext] structure BlockHeader where
  slot : UInt64
  blockHeight : UInt64
  blockHash : Hash
  prevHash : Hash
  deriving DecidableEq, Repr

def BlockHeader.encode (h : BlockHeader) : Bytes :=
  toBeBytes h.slot++(toBeBytes h.blockHeight++(h.blockHash.toList++h.prevHash.toList))

@[ext] structure TxIndexEntry where
  txId : Hash
  slot : UInt64
  blockHash : Hash
  txPosition : UInt32
  deriving DecidableEq, Repr

def TxIndexEntry.encode (e : TxIndexEntry) : Bytes :=
  e.txId.toList++(toBeBytes e.slot++(e.blockHash.toList++u32Bytes e.txPosition))

@[ext] structure TokenPolicy where
  policyId : Hash28
  firstIssuanceSlot : UInt64
  totalSupplyAtH : BitVec 128
  deriving DecidableEq, Repr

def TokenPolicy.encode (p : TokenPolicy) : Bytes :=
  p.policyId.toList++(toBeBytes p.firstIssuanceSlot++u128Bytes p.totalSupplyAtH)

@[ext] structure ScriptEntry where
  scriptHash : Hash28
  deploymentSlot : UInt64
  scriptSizeBytes : UInt32
  language : UInt8
  deriving DecidableEq, Repr

def ScriptEntry.encode (e : ScriptEntry) : Bytes :=
  e.scriptHash.toList++(toBeBytes e.deploymentSlot++(u32Bytes e.scriptSizeBytes++[e.language]))

inductive DrepDelegation where
  | none
  | keyHash (hash : Hash28)
  | scriptHash (hash : Hash28)
  | alwaysAbstain
  | alwaysNoConfidence
  deriving DecidableEq, Repr

namespace DrepDelegation

def tagByte : DrepDelegation → UInt8
  | none => 0
  | keyHash _ => 1
  | scriptHash _ => 2
  | alwaysAbstain => 3
  | alwaysNoConfidence => 4

/-- The payload behind the tag. -/
def payload : DrepDelegation → Bytes
  | keyHash hash => hash.toList
  | scriptHash hash => hash.toList
  | none => []
  | alwaysAbstain => []
  | alwaysNoConfidence => []

def bytes (d : DrepDelegation) : Bytes := d.tagByte::d.payload

end DrepDelegation

@[ext] structure StakeEntry where
  stakeCredentialHash : Hash28
  delegatedPool : Hash28
  delegatedDrep : DrepDelegation
  rewardsLovelace : UInt64
  isPoolOperator : UInt8
  deriving DecidableEq, Repr

def StakeEntry.encode (e : StakeEntry) : Bytes :=
  e.stakeCredentialHash.toList++(e.delegatedPool.toList++(e.delegatedDrep.bytes++
    (toBeBytes e.rewardsLovelace++[e.isPoolOperator])))

inductive GovernanceFact where
  | treasury (key : Hash) (value : BitVec 128) (slot : UInt64)
  | ccSeat (key : Hash) (value : BitVec 128) (slot : UInt64)
  | ratifiedAction (key : Hash) (value : BitVec 128) (slot : UInt64)
  | inFlightAction (key : Hash) (value : BitVec 128) (slot : UInt64)
  | accountState (reserves treasury deposits feePot : UInt64)
  deriving DecidableEq, Repr

namespace GovernanceFact

def kind : GovernanceFact → UInt8
  | treasury .. => 0
  | ccSeat .. => 1
  | ratifiedAction .. => 2
  | inFlightAction .. => 3
  | accountState .. => 4

/-- The layout which the four facts with a key share. -/
def keyed (key : Hash) (value : BitVec 128) (slot : UInt64) : Bytes :=
  key.toList++(u128Bytes value++toBeBytes slot)

def payload : GovernanceFact → Bytes
  | treasury key value slot => keyed key value slot
  | ccSeat key value slot => keyed key value slot
  | ratifiedAction key value slot => keyed key value slot
  | inFlightAction key value slot => keyed key value slot
  | accountState reserves pot deposits feePot =>
      toBeBytes reserves++(toBeBytes pot++(toBeBytes deposits++toBeBytes feePot))

def encode (f : GovernanceFact) : Bytes := f.kind::f.payload

end GovernanceFact

inductive LeafError where
  | assetCountOverflow
  | assetIdLenOverflow
  | addressLenOverflow
  | inlineDatumLenOverflow
  | scriptRefLenOverflow
  deriving DecidableEq, Repr

@[ext] structure Asset where
  assetId : Bytes
  quantity : UInt64
  deriving DecidableEq, Repr

inductive DatumOption where
  | none
  | hash (hash : Hash)
  | inline (data : Bytes)
  deriving DecidableEq, Repr

inductive ScriptLanguage where
  | native
  | plutusV1
  | plutusV2
  | plutusV3
  deriving DecidableEq, Repr

def ScriptLanguage.tagByte : ScriptLanguage → UInt8
  | native => 1
  | plutusV1 => 2
  | plutusV2 => 3
  | plutusV3 => 4

@[ext] structure ScriptRef where
  language : ScriptLanguage
  bytes : Bytes
  deriving DecidableEq, Repr

@[ext] structure Utxo where
  txId : Hash
  outputIndex : UInt32
  address : Bytes
  valueLovelace : UInt64
  assets : List Asset
  datumOption : DatumOption
  scriptRef : Option ScriptRef
  deriving DecidableEq, Repr

/-- `try_from` of a length to a narrower integer, and its bytes. -/
def lengthBytes (width : ℕ) (overflow : LeafError) (length : ℕ) : Except LeafError Bytes :=
  if length < 256^width then .ok (beBytes width length) else .error overflow

/-- `sort_by` on the ids: a stable sort. -/
def sortAssets (assets : List Asset) : List Asset :=
  assets.insertionSort fun a b => a.assetId ≤ b.assetId

theorem sortAssets_perm (assets : List Asset) : (sortAssets assets).Perm assets :=
  List.perm_insertionSort _ _

def Asset.encode (a : Asset) : Except LeafError Bytes := do
  let idLen ← lengthBytes 2 .assetIdLenOverflow a.assetId.length
  return idLen++(a.assetId++toBeBytes a.quantity)

def DatumOption.encode : DatumOption → Except LeafError Bytes
  | none => .ok [0]
  | hash value => .ok (1::value.toList)
  | inline data => do
      let n ← lengthBytes 4 .inlineDatumLenOverflow data.length
      return 2::(n++data)

def encodeScriptRef : Option ScriptRef → Except LeafError Bytes
  | none => .ok [0]
  | some ref => do
      let n ← lengthBytes 4 .scriptRefLenOverflow ref.bytes.length
      return 1::ref.language.tagByte::(n++ref.bytes)

/-- The order of the lengths which can overflow is the source's: the first one is
reported. -/
def Utxo.encode (u : Utxo) : Except LeafError Bytes := do
  let addrLen ← lengthBytes 2 .addressLenOverflow u.address.length
  let assetCount ← lengthBytes 4 .assetCountOverflow u.assets.length
  let assets ← (sortAssets u.assets).mapM Asset.encode
  let datum ← u.datumOption.encode
  let scriptRef ← encodeScriptRef u.scriptRef
  return u.txId.toList++(u32Bytes u.outputIndex++(addrLen++(u.address++(toBeBytes u.valueLovelace++
    (assetCount++(assets.flatten++(datum++scriptRef)))))))

section FixedLayouts

theorem toBeBytes_splits (m n : UInt64) : SplitsAt toBeBytes m n :=
  splitsAt_width (by rw [toBeBytes_length,toBeBytes_length]) toBeBytes_inj

theorem u32Bytes_splits (m n : UInt32) : SplitsAt u32Bytes m n := by
  apply splitsAt_width
  · rw [u32Bytes,u32Bytes,beBytes_length,beBytes_length]
  · intro h
    have hm := m.toNat_lt
    have hn := n.toNat_lt
    exact UInt32.toNat_inj.mp (beBytes_inj (by omega) (by omega) h)

theorem u128Bytes_splits (m n : BitVec 128) : SplitsAt u128Bytes m n := by
  apply splitsAt_width
  · rw [u128Bytes,u128Bytes,beBytes_length,beBytes_length]
  · intro h
    have hm := m.isLt
    have hn := n.isLt
    exact BitVec.toNat_inj.mp (beBytes_inj (by omega) (by omega) h)

theorem BlockHeader.encode_injective : Function.Injective BlockHeader.encode := by
  intro a b h
  unfold BlockHeader.encode at h
  have hslot := toBeBytes_splits _ _ _ _ h
  have hheight := toBeBytes_splits _ _ _ _ hslot.2
  have hhash := vector_splits _ _ _ _ hheight.2
  exact BlockHeader.ext hslot.1 hheight.1 hhash.1 (Vector.toList_inj.mp hhash.2)

theorem TxIndexEntry.encode_injective : Function.Injective TxIndexEntry.encode := by
  intro a b h
  unfold TxIndexEntry.encode at h
  have htx := vector_splits _ _ _ _ h
  have hslot := toBeBytes_splits _ _ _ _ htx.2
  have hblock := vector_splits _ _ _ _ hslot.2
  exact TxIndexEntry.ext htx.1 hslot.1 hblock.1 ((u32Bytes_splits _ _).inj hblock.2)

theorem TokenPolicy.encode_injective : Function.Injective TokenPolicy.encode := by
  intro a b h
  unfold TokenPolicy.encode at h
  have hpolicy := vector_splits _ _ _ _ h
  have hslot := toBeBytes_splits _ _ _ _ hpolicy.2
  exact TokenPolicy.ext hpolicy.1 hslot.1 ((u128Bytes_splits _ _).inj hslot.2)

theorem ScriptEntry.encode_injective : Function.Injective ScriptEntry.encode := by
  intro a b h
  unfold ScriptEntry.encode at h
  have hscript := vector_splits _ _ _ _ h
  have hslot := toBeBytes_splits _ _ _ _ hscript.2
  have hsize := u32Bytes_splits _ _ _ _ hslot.2
  exact ScriptEntry.ext hscript.1 hslot.1 hsize.1 (List.cons.inj hsize.2).1

end FixedLayouts

section Tagged

/-- The tag decides whether a hash follows. -/
theorem DrepDelegation.bytes_splits (a b : DrepDelegation) : SplitsAt DrepDelegation.bytes a b := by
  intro x y h
  unfold DrepDelegation.bytes at h
  rw [List.cons_append,List.cons_append,List.cons.injEq] at h
  cases a <;> cases b <;> try exact absurd h.1 (by simp only [tagByte]; decide)
  case none.none => exact ⟨rfl,h.2⟩
  case keyHash.keyHash =>
    have hparts := vector_splits _ _ _ _ h.2
    exact ⟨congrArg keyHash hparts.1,hparts.2⟩
  case scriptHash.scriptHash =>
    have hparts := vector_splits _ _ _ _ h.2
    exact ⟨congrArg scriptHash hparts.1,hparts.2⟩
  case alwaysAbstain.alwaysAbstain => exact ⟨rfl,h.2⟩
  case alwaysNoConfidence.alwaysNoConfidence => exact ⟨rfl,h.2⟩

theorem StakeEntry.encode_injective : Function.Injective StakeEntry.encode := by
  intro a b h
  unfold StakeEntry.encode at h
  have hcredential := vector_splits _ _ _ _ h
  have hpool := vector_splits _ _ _ _ hcredential.2
  have hdrep := DrepDelegation.bytes_splits _ _ _ _ hpool.2
  have hrewards := toBeBytes_splits _ _ _ _ hdrep.2
  exact StakeEntry.ext hcredential.1 hpool.1 hdrep.1 hrewards.1 (List.cons.inj hrewards.2).1

theorem GovernanceFact.keyed_inj {k k' : Hash} {v v' : BitVec 128} {slot slot' : UInt64}
    (h : keyed k v slot = keyed k' v' slot') : k = k' ∧ v = v' ∧ slot = slot' := by
  unfold keyed at h
  have hkey := vector_splits _ _ _ _ h
  have hvalue := u128Bytes_splits _ _ _ _ hkey.2
  exact ⟨hkey.1,hvalue.1,toBeBytes_inj hvalue.2⟩

/-- The leading byte tells the five kinds apart before their widths matter. -/
theorem GovernanceFact.encode_injective : Function.Injective GovernanceFact.encode := by
  intro a b h
  unfold GovernanceFact.encode at h
  rw [List.cons.injEq] at h
  cases a <;> cases b <;> try exact absurd h.1 (by simp only [kind]; decide)
  case treasury.treasury =>
    rcases keyed_inj h.2 with ⟨rfl,rfl,rfl⟩
    rfl
  case ccSeat.ccSeat =>
    rcases keyed_inj h.2 with ⟨rfl,rfl,rfl⟩
    rfl
  case ratifiedAction.ratifiedAction =>
    rcases keyed_inj h.2 with ⟨rfl,rfl,rfl⟩
    rfl
  case inFlightAction.inFlightAction =>
    rcases keyed_inj h.2 with ⟨rfl,rfl,rfl⟩
    rfl
  case accountState.accountState =>
    have hreserves := toBeBytes_splits _ _ _ _ h.2
    have htreasury := toBeBytes_splits _ _ _ _ hreserves.2
    have hdeposits := toBeBytes_splits _ _ _ _ htreasury.2
    rw [hreserves.1,htreasury.1,hdeposits.1,toBeBytes_inj hdeposits.2]

end Tagged

section Outputs

theorem lengthBytes_ok {width length : ℕ} {overflow : LeafError} {bytes : Bytes} :
    lengthBytes width overflow length = .ok bytes ↔
      length < 256^width ∧ bytes = beBytes width length := by
  unfold lengthBytes
  by_cases h : length < 256^width
  · rw [if_pos h,Except.ok.injEq,and_iff_right h,eq_comm]
  · rw [if_neg h]
    simp only [reduceCtorEq,h,false_and]

def Asset.bytes (a : Asset) : Bytes := framed 2 a.assetId++toBeBytes a.quantity

def DatumOption.bytes : DatumOption → Bytes
  | none => [0]
  | hash value => 1::value.toList
  | inline data => 2::framed 4 data

def scriptRefBytes : Option ScriptRef → Bytes
  | none => [0]
  | some ref => 1::ref.language.tagByte::framed 4 ref.bytes

/-- The lengths which fit the widths they are written in. -/
structure Utxo.Fits (u : Utxo) : Prop where
  address : u.address.length < 256^2
  assetCount : u.assets.length < 256^4
  assetIds : ∀ a ∈ u.assets, a.assetId.length < 256^2
  datum : ∀ data, u.datumOption = .inline data → data.length < 256^4
  scriptRef : ∀ ref, u.scriptRef = some ref → ref.bytes.length < 256^4

def Utxo.layout (u : Utxo) : Bytes :=
  u.txId.toList++(u32Bytes u.outputIndex++(framed 2 u.address++(toBeBytes u.valueLovelace++
    (beBytes 4 u.assets.length++((sortAssets u.assets).flatMap Asset.bytes++
      (u.datumOption.bytes++scriptRefBytes u.scriptRef))))))

theorem Asset.encode_ok {a : Asset} {bytes : Bytes} (h : a.encode = .ok bytes) :
    a.assetId.length < 256^2 ∧ bytes = a.bytes := by
  rcases FallibleSteps.bind_ok.mp h with ⟨idLen,hlength,hbytes⟩
  rcases lengthBytes_ok.mp hlength with ⟨hfits,rfl⟩
  cases hbytes
  exact ⟨hfits,(List.append_assoc ..).symm⟩

theorem Asset.mapM_encode_ok {assets : List Asset} {parts : List Bytes}
    (h : assets.mapM Asset.encode = .ok parts) :
    (∀ a ∈ assets, a.assetId.length < 256^2) ∧ parts.flatten = assets.flatMap Asset.bytes := by
  induction FallibleSteps.mapM_ok.mp h with
  | nil => exact ⟨fun a ha => (List.not_mem_nil ha).elim,rfl⟩
  | cons hpart hrest ih =>
      have hhead := Asset.encode_ok hpart
      have htail := ih (FallibleSteps.mapM_ok.mpr hrest)
      refine ⟨List.forall_mem_cons.mpr ⟨hhead.1,htail.1⟩,?_⟩
      rw [List.flatten_cons,List.flatMap_cons,htail.2,hhead.2]

theorem DatumOption.encode_ok {d : DatumOption} {bytes : Bytes} (h : d.encode = .ok bytes) :
    (∀ data, d = .inline data → data.length < 256^4) ∧ bytes = d.bytes := by
  cases d with
  | none =>
      cases h
      exact ⟨nofun,rfl⟩
  | hash value =>
      cases h
      exact ⟨nofun,rfl⟩
  | inline data =>
      rcases FallibleSteps.bind_ok.mp h with ⟨n,hlength,hbytes⟩
      rcases lengthBytes_ok.mp hlength with ⟨hfits,rfl⟩
      cases hbytes
      refine ⟨fun data' heq => ?_,rfl⟩
      cases heq
      exact hfits

theorem encodeScriptRef_ok {ref : Option ScriptRef} {bytes : Bytes}
    (h : encodeScriptRef ref = .ok bytes) :
    (∀ r, ref = some r → r.bytes.length < 256^4) ∧ bytes = scriptRefBytes ref := by
  cases ref with
  | none =>
      cases h
      exact ⟨nofun,rfl⟩
  | some r =>
      rcases FallibleSteps.bind_ok.mp h with ⟨n,hlength,hbytes⟩
      rcases lengthBytes_ok.mp hlength with ⟨hfits,rfl⟩
      cases hbytes
      refine ⟨fun r' heq => ?_,rfl⟩
      cases heq
      exact hfits

/-- An encoded output fits its widths, and its bytes are the layout. -/
theorem Utxo.encode_ok {u : Utxo} {bytes : Bytes} (h : u.encode = .ok bytes) :
    u.Fits ∧ bytes = u.layout := by
  rcases FallibleSteps.bind_ok.mp h with ⟨addrLen,haddress,h⟩
  rcases FallibleSteps.bind_ok.mp h with ⟨count,hcount,h⟩
  rcases FallibleSteps.bind_ok.mp h with ⟨assets,hassets,h⟩
  rcases FallibleSteps.bind_ok.mp h with ⟨datum,hdatum,h⟩
  rcases FallibleSteps.bind_ok.mp h with ⟨ref,href,hbytes⟩
  rcases lengthBytes_ok.mp haddress with ⟨haddressFits,rfl⟩
  rcases lengthBytes_ok.mp hcount with ⟨hcountFits,rfl⟩
  have hassetsFit := Asset.mapM_encode_ok hassets
  have hdatumFits := DatumOption.encode_ok hdatum
  have hrefFits := encodeScriptRef_ok href
  cases hbytes
  constructor
  · exact ⟨haddressFits,hcountFits,
      fun a ha => hassetsFit.1 a ((sortAssets_perm u.assets).mem_iff.mpr ha),
      hdatumFits.1,hrefFits.1⟩
  · rw [Utxo.layout,hassetsFit.2,hdatumFits.2,hrefFits.2,framed]
    simp only [List.append_assoc]

theorem Asset.bytes_splits {a b : Asset} (ha : a.assetId.length < 256^2)
    (hb : b.assetId.length < 256^2) : SplitsAt Asset.bytes a b := by
  intro x y h
  unfold Asset.bytes at h
  rw [List.append_assoc,List.append_assoc] at h
  have hid := splitsAt_framed ha hb _ _ h
  have hquantity := toBeBytes_splits _ _ _ _ hid.2
  exact ⟨Asset.ext hid.1 hquantity.1,hquantity.2⟩

theorem DatumOption.bytes_splits {a b : DatumOption}
    (ha : ∀ data, a = .inline data → data.length < 256^4)
    (hb : ∀ data, b = .inline data → data.length < 256^4) : SplitsAt DatumOption.bytes a b := by
  intro x y h
  cases a <;> cases b <;> try exact absurd (List.cons.inj h).1 (by decide)
  case none.none => exact ⟨rfl,(List.cons.inj h).2⟩
  case hash.hash =>
    have hparts := vector_splits _ _ _ _ (List.cons.inj h).2
    exact ⟨congrArg DatumOption.hash hparts.1,hparts.2⟩
  case inline.inline =>
    have hparts := splitsAt_framed (ha _ rfl) (hb _ rfl) _ _ (List.cons.inj h).2
    exact ⟨congrArg inline hparts.1,hparts.2⟩

theorem ScriptLanguage.tagByte_injective : Function.Injective ScriptLanguage.tagByte := by
  intro a b h
  cases a <;> cases b <;> first | rfl | exact absurd h (by decide)

theorem scriptRefBytes_splits {a b : Option ScriptRef}
    (ha : ∀ r, a = some r → r.bytes.length < 256^4)
    (hb : ∀ r, b = some r → r.bytes.length < 256^4) : SplitsAt scriptRefBytes a b := by
  intro x y h
  cases a <;> cases b <;> try exact absurd (List.cons.inj h).1 (by decide)
  case none.none => exact ⟨rfl,(List.cons.inj h).2⟩
  case some.some =>
    have htag := List.cons.inj (List.cons.inj h).2
    have hparts := splitsAt_framed (ha _ rfl) (hb _ rfl) _ _ htag.2
    exact ⟨congrArg some (ScriptRef.ext (ScriptLanguage.tagByte_injective htag.1) hparts.1),hparts.2⟩

/-- Equal but for the order of the assets. -/
def SameUtxo (u v : Utxo) : Prop :=
  ∃ assets, u.assets.Perm assets ∧ v = { u with assets := assets }

theorem lengthBytes_of_lt {width length : ℕ} (h : length < 256^width) (overflow : LeafError) :
    lengthBytes width overflow length = .ok (beBytes width length) := if_pos h

theorem encodeAsset_eq (a : Asset) :
    a.encode = if a.assetId.length < 256^2 then .ok a.bytes else .error .assetIdLenOverflow := by
  unfold Asset.encode lengthBytes
  split
  · rw [Asset.bytes,framed,List.append_assoc]
    rfl
  · rfl

/-- The assets are refused for one reason only, so it does not matter which one is met
first. -/
theorem mapM_encodeAsset_eq (assets : List Asset) :
    assets.mapM Asset.encode =
      if ∀ a ∈ assets, a.assetId.length < 256^2 then .ok (assets.map Asset.bytes)
      else .error .assetIdLenOverflow := by
  induction assets with
  | nil => rfl
  | cons a assets ih =>
      rw [List.mapM_cons,encodeAsset_eq,ih]
      simp only [List.forall_mem_cons]
      by_cases ha : a.assetId.length < 256^2
      · by_cases hrest : ∀ b ∈ assets, b.assetId.length < 256^2
        · rw [if_pos ha,if_pos hrest,if_pos ⟨ha,hrest⟩]
          rfl
        · have hnot : ¬(a.assetId.length < 256^2 ∧ ∀ b ∈ assets, b.assetId.length < 256^2) :=
            fun h => hrest h.2
          rw [if_pos ha,if_neg hrest,if_neg hnot]
          rfl
      · have hnot : ¬(a.assetId.length < 256^2 ∧ ∀ b ∈ assets, b.assetId.length < 256^2) :=
          fun h => ha h.1
        rw [if_neg ha,if_neg hnot]
        rfl

theorem encodeDatum_of_fits {d : DatumOption}
    (h : ∀ data, d = .inline data → data.length < 256^4) : d.encode = .ok d.bytes := by
  cases d with
  | none => rfl
  | hash value => rfl
  | inline data =>
      rw [DatumOption.encode,lengthBytes_of_lt (h data rfl)]
      rfl

theorem encodeScriptRef_of_fits {ref : Option ScriptRef}
    (h : ∀ r, ref = some r → r.bytes.length < 256^4) :
    encodeScriptRef ref = .ok (scriptRefBytes ref) := by
  cases ref with
  | none => rfl
  | some r =>
      rw [encodeScriptRef,lengthBytes_of_lt (h r rfl)]
      rfl

theorem encode_of_fits {u : Utxo} (h : u.Fits) : u.encode = .ok u.layout := by
  have hids : ∀ a ∈ sortAssets u.assets, a.assetId.length < 256^2 :=
    fun a ha => h.assetIds a ((sortAssets_perm u.assets).mem_iff.mp ha)
  have hencode : ∃ bytes, u.encode = .ok bytes := by
    unfold Utxo.encode
    rw [lengthBytes_of_lt h.address,lengthBytes_of_lt h.assetCount,mapM_encodeAsset_eq,if_pos hids,
      encodeDatum_of_fits h.datum,encodeScriptRef_of_fits h.scriptRef]
    exact ⟨_,rfl⟩
  obtain ⟨bytes,hbytes⟩ := hencode
  rw [hbytes,(Utxo.encode_ok hbytes).2]

/-- Two outputs agree in every field, in their assets once these are sorted. -/
structure Utxo.Agrees (u v : Utxo) : Prop where
  txId : u.txId = v.txId
  outputIndex : u.outputIndex = v.outputIndex
  address : u.address = v.address
  valueLovelace : u.valueLovelace = v.valueLovelace
  assets : sortAssets u.assets = sortAssets v.assets
  datumOption : u.datumOption = v.datumOption
  scriptRef : u.scriptRef = v.scriptRef

/-- The layout determines every field, the assets in the order of the sort. -/
theorem Utxo.layout_agrees {u v : Utxo} (hu : u.Fits) (hv : v.Fits) (h : u.layout = v.layout) :
    u.Agrees v := by
  unfold Utxo.layout at h
  have htx := vector_splits _ _ _ _ h
  have hindex := u32Bytes_splits _ _ _ _ htx.2
  have haddress := splitsAt_framed hu.address hv.address _ _ hindex.2
  have hvalue := toBeBytes_splits _ _ _ _ haddress.2
  have hcount := List.append_inj hvalue.2 (by rw [beBytes_length,beBytes_length])
  have hlength := beBytes_inj hu.assetCount hv.assetCount hcount.1
  have hids : ∀ {w : Utxo}, w.Fits → ∀ a ∈ sortAssets w.assets, a.assetId.length < 256^2 :=
    fun hw a ha => hw.assetIds a ((sortAssets_perm _).mem_iff.mp ha)
  have hassets := splitsAt_flatMap
    (by rw [(sortAssets_perm _).length_eq,(sortAssets_perm _).length_eq,hlength])
    (fun a ha b hb => Asset.bytes_splits (hids hu a ha) (hids hv b hb)) _ _ hcount.2
  have hdatum := DatumOption.bytes_splits hu.datum hv.datum _ _ hassets.2
  have href := (scriptRefBytes_splits hu.scriptRef hv.scriptRef).inj hdatum.2
  exact ⟨htx.1,hindex.1,haddress.1,hvalue.1,hassets.1,hdatum.1,href⟩

theorem Utxo.Agrees.layout_eq {u v : Utxo} (h : u.Agrees v) : u.layout = v.layout := by
  have hlength : u.assets.length = v.assets.length := by
    rw [← (sortAssets_perm u.assets).length_eq,h.assets,(sortAssets_perm v.assets).length_eq]
  unfold Utxo.layout
  rw [h.txId,h.outputIndex,h.address,h.valueLovelace,hlength,h.assets,h.datumOption,h.scriptRef]

/-- The layout determines an output up to the order of its assets. -/
theorem Utxo.layout_binds {u v : Utxo} (hu : u.Fits) (hv : v.Fits) (h : u.layout = v.layout) :
    SameUtxo u v := by
  have hagrees := Utxo.layout_agrees hu hv h
  refine ⟨v.assets,?_,?_⟩
  · exact (sortAssets_perm u.assets).symm.trans (hagrees.assets ▸ sortAssets_perm v.assets)
  · exact Utxo.ext hagrees.txId.symm hagrees.outputIndex.symm hagrees.address.symm
      hagrees.valueLovelace.symm rfl hagrees.datumOption.symm hagrees.scriptRef.symm

theorem Utxo.encode_binds {u v : Utxo} {bytes : Bytes} (hu : u.encode = .ok bytes)
    (hv : v.encode = .ok bytes) : SameUtxo u v := by
  have huFits := Utxo.encode_ok hu
  have hvFits := Utxo.encode_ok hv
  exact Utxo.layout_binds huFits.1 hvFits.1 (huFits.2.symm.trans hvFits.2)

end Outputs

/-- In each of the seven sub-trees the bytes of a leaf determine its record, those of an
unspent output up to the order of its assets. -/
theorem leaf_encodings_injective :
    Function.Injective BlockHeader.encode ∧ Function.Injective TxIndexEntry.encode ∧
      Function.Injective TokenPolicy.encode ∧ Function.Injective ScriptEntry.encode ∧
      Function.Injective StakeEntry.encode ∧ Function.Injective GovernanceFact.encode ∧
      ∀ (u v : Utxo) (bytes : Bytes), u.encode = .ok bytes → v.encode = .ok bytes →
        SameUtxo u v :=
  ⟨BlockHeader.encode_injective,TxIndexEntry.encode_injective,TokenPolicy.encode_injective,
    ScriptEntry.encode_injective,StakeEntry.encode_injective,GovernanceFact.encode_injective,
    fun _ _ _ => Utxo.encode_binds⟩

end OmegaHarness.LeafEncodings
