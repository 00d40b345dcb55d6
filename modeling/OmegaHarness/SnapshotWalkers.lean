import OmegaHarness.DecoderViews
import OmegaHarness.HostileLengths
import OmegaHarness.KeyedTables

/-!
# Three walks over one snapshot

Token policies and scripts are ingested from the same bytes as the unspent outputs, by two
more walks over the entries. Each of the three loops is written out by hand in the source
and has checks of its own: the outputs want an index of 32 bits and ascending asset maps,
the other two want an address of 32 bytes.

The common format is read by `readEntry`, which makes none of these checks. Each walk is
then seen through it, and they accept the same bytes when their checks agree.
-/
namespace OmegaHarness.SnapshotWalkers
open BundleAssembly ByteDecoders CborHeads Decode DecoderViews DomainHashes KeyedTables
open LeafEncodings LedgerIngest

/-- Byte arrays are ordered by their first difference. -/
instance hash28Order : LinearOrder Hash28 where
  le_refl := Vector.le_refl
  le_trans _ _ _ := Vector.le_trans
  le_antisymm _ _ := Vector.le_antisymm
  le_total := Vector.le_total
  lt_iff_le_not_ge a b := by
    rw [Vector.not_le]
    constructor
    · intro h
      exact ⟨Vector.le_of_lt h,h⟩
    · intro h
      exact h.2
  toDecidableLE := inferInstance
  toDecidableEq := inferInstance
  toDecidableLT := inferInstance
  compare a b := compareOfLessAndEq a b
  compare_eq_compareOfLessAndEq _ _ := rfl

structure ScriptCredential where
  hash : Hash28
  language : UInt8
  size : UInt32
  deriving DecidableEq, Repr

/-- What an output holds besides lovelace: quantities by name, by policy. -/
abbrev Bundle := List (Hash28 × List (Bytes × UInt64))

section
variable (r : MapReader)

/-! ## The pieces of an entry -/

/-- The fields in front of a policy's or script's walk over an entry, all dropped. -/
def skipFields (context : String) : Decode IngestError ℕ := do
  let arity ← other (readArrayLen r)
  ensure (arity = 4 ∨ arity = 6)
    (.schema context s!"utxo entry must be 4-elem or 6-elem, got {arity}")
  let _txId ← other (read32Bytes r)
  let _outIdx ← other (readU64 r)
  let _addr ← other (read32Bytes r)
  let _value ← other (readU64 r)
  pure arity

def readAsset : Decode String (Bytes × UInt64) := do
  let name ← readVarBytes r
  let quantity ← readU64 r
  pure (name,quantity)

def readPolicy : Decode String (Hash28 × List (Bytes × UInt64)) := do
  let policy ← read28Bytes r
  let nAssets ← readMapLen r
  let assets ← times (readAsset r) nAssets
  pure (policy,assets)

def readBundle : Decode String Bundle := do
  let nPolicies ← readMapLen r
  times (readPolicy r) nPolicies

def readCredential (context : String) : Decode IngestError (Option ScriptCredential) := do
  let absent ← other (readNullMarker r)
  if absent then pure none
  else do
    let arity ← other (readArrayLen r)
    ensure (arity = 3) (.schema context s!"script_credential arity {arity} != 3")
    let hash ← other (read28Bytes r)
    let language ← other (readU8 r)
    let size ← other (readU32 r)
    pure (some ⟨hash,language,size⟩)

/-- The frame of the two walks: count, entries, end of input, with nothing reserved. -/
def walk {A : Type} (entries : ℕ → Decode IngestError A) (cbor : Bytes) :
    Except (Halt IngestError) A :=
  run (do
    let n ← other (readArrayLen r)
    let out ← entries n
    other (expectEnd cbor.length)
    pure out) cbor

/-! ## Token policies -/

/-- Running totals are of 128 bits. -/
abbrev Totals := Table Hash28 ℕ

def totalOf (totals : Totals) (policy : Hash28) : ℕ := (totals.lookup policy).getD 0

def totalSupplyOverflow : String := "token-policy total_supply overflow u128"

def checkedAdd (a b : ℕ) : Decode String ℕ := do
  ensure (a+b < 2^128) totalSupplyOverflow
  pure (a+b)

def addAsset (policyTotal : ℕ) : Decode String ℕ := do
  let _name ← readVarBytes r
  let qty ← readU64 r
  checkedAdd policyTotal qty.toNat

def addPolicy (totals : Totals) : Decode String Totals := do
  let policy ← read28Bytes r
  let nAssets ← readMapLen r
  let policyTotal ← loop (addAsset r) nAssets 0
  let total ← checkedAdd (totalOf totals policy) policyTotal
  pure (totals.insert policy total)

def addBundle (totals : Totals) : Decode String Totals := do
  let nPolicies ← readMapLen r
  loop (addPolicy r) nPolicies totals

/-- An entry of four fields has no bundle. -/
def addExtension (arity : ℕ) (totals : Totals) : Decode IngestError Totals :=
  if arity = 4 then pure totals
  else do
    let totals ← other (addBundle r totals)
    let _credential ← readCredential r "token_policy.script_credential"
    pure totals

def walkPolicies (totals : Totals) : Decode IngestError Totals := do
  let arity ← skipFields r "token_policy.utxo_entry"
  addExtension r arity totals

/-- The slot of the first issuance is not in the snapshot. -/
def tokenPolicy (row : Hash28 × ℕ) : TokenPolicy := ⟨row.1,0,BitVec.ofNat 128 row.2⟩

def ingestTokenPolicies (cbor : Bytes) : Except (Halt IngestError) (List TokenPolicy) :=
  (walk r (fun n => loop (walkPolicies r) n ∅) cbor).map fun totals => (sortedRows totals).map tokenPolicy

/-! ## Scripts -/

abbrev Scripts := Table Hash28 ScriptEntry

/-- The first occurrence of a hash wins. -/
def register (seen : Scripts) : Option ScriptCredential → Scripts
  | none => seen
  | some credential =>
      if credential.hash ∈ seen then seen
      else seen.insert credential.hash ⟨credential.hash,0,credential.size,credential.language⟩

def registerExtension (arity : ℕ) (seen : Scripts) : Decode IngestError Scripts :=
  if arity = 4 then pure seen
  else do
    let _bundle ← other (readBundle r)
    let credential ← readCredential r "script.credential"
    pure (register seen credential)

def walkScripts (seen : Scripts) : Decode IngestError Scripts := do
  let arity ← skipFields r "script.utxo_entry"
  registerExtension r arity seen

def ingestScripts (cbor : Bytes) : Except (Halt IngestError) (List ScriptEntry) :=
  (walk r (fun n => loop (walkScripts r) n ∅) cbor).map fun seen => (sortedRows seen).map Prod.snd

/-! ## The common format -/

structure Fields where
  arity : ℕ
  txId : Hash
  outputIndex : UInt64
  address : Bytes
  valueLovelace : UInt64
  deriving DecidableEq, Repr

structure SnapshotEntry where
  fields : Fields
  bundle : Bundle
  credential : Option ScriptCredential
  deriving DecidableEq, Repr

def readFields : Decode IngestError Fields := do
  let arity ← other (readArrayLen r)
  ensure (arity = 4 ∨ arity = 6) (.other "not an entry")
  let txId ← other (read32Bytes r)
  let outputIndex ← other (readU64 r)
  let address ← other (readVarBytes r)
  let valueLovelace ← other (readU64 r)
  pure ⟨arity,txId,outputIndex,address,valueLovelace⟩

def readBehind (arity : ℕ) : Decode IngestError (Bundle × Option ScriptCredential) :=
  if arity = 4 then pure ([],none)
  else do
    let bundle ← other (readBundle r)
    let credential ← readCredential r "entry"
    pure (bundle,credential)

def readEntry : Decode IngestError SnapshotEntry := do
  let fields ← readFields r
  let behind ← readBehind r fields.arity
  pure ⟨fields,behind.1,behind.2⟩

/-- The entries of a snapshot, whatever their indices, addresses and orders of keys. -/
def readSnapshot (cbor : Bytes) : Except (Halt IngestError) (List SnapshotEntry) :=
  walk r (times (readEntry r)) cbor

end

/-! ## The outputs seen through the format -/

def assetUnder (policy : Hash28) (asset : Bytes × UInt64) : Asset :=
  ⟨policy.toList++asset.1,asset.2⟩

def assetsOf (bundle : Bundle) : List Asset :=
  bundle.flatMap fun policy => policy.2.map (assetUnder policy.1)

/-- Keys ascend strictly, so none is repeated. -/
def AscendingKeys (bundle : Bundle) : Prop :=
  (bundle.map fun policy => policy.1.toList).Pairwise (· < ·) ∧
    ∀ policy ∈ bundle, (policy.2.map Prod.fst).Pairwise (· < ·)

instance (bundle : Bundle) : Decidable (AscendingKeys bundle) :=
  inferInstanceAs (Decidable (_ ∧ _))

/-- What the outputs want of an entry. -/
def FitsUtxo (entry : SnapshotEntry) : Prop :=
  entry.fields.outputIndex.toNat < 2^32 ∧ AscendingKeys entry.bundle

instance (entry : SnapshotEntry) : Decidable (FitsUtxo entry) :=
  inferInstanceAs (Decidable (_ ∧ _))

def utxoOf (entry : SnapshotEntry) : Utxo :=
  ⟨entry.fields.txId,UInt32.ofNat entry.fields.outputIndex.toNat,entry.fields.address,
    entry.fields.valueLovelace,assetsOf entry.bundle,.none,none⟩

section
variable {r : MapReader} {k : ℕ}

theorem checks_ascending (message : String) (key : Bytes) (last : Option Bytes) :
    Checks (checkAscending message key last) (Above last key) := by
  intro s u t
  cases last with
  | none =>
      have habove : Above none key := fun _ h => by cases h
      simp [checkAscending,habove]
  | some before =>
      have habove : Above (some before) key ↔ ¬key ≤ before := by
        simp [Above]
      rw [habove]
      exact ensure_ok

theorem checks_ascendingName (policy : Hash28) (name : Bytes) (last : Option Bytes) :
    Checks (checkAscendingName policy name last) (Above last name) :=
  fun s u t => mapFailed_ok.trans (checks_ascending "asset_name" name last s u t)

/-- A read of a value which counts its bytes. -/
theorem readU64_takes (h : r.FollowsRfc) : Triple (Fits k) (readU64 r) fun _ => Fits (k+1) := by
  refine Triple.reads (PanicFree.item _ _) ?_
  intro s a t hread
  obtain ⟨x,⟨w,-,rfl⟩,rfl⟩ := h.u64_inverts (item_ok.mp hread)
  simp only [List.length_append,head_length]
  omega

theorem views_parseAsset (h : r.FollowsRfc) (policy : Hash28) (st : Option Bytes × List Asset) :
    Views (Fits 28) (parseAsset r policy st) (readAsset r) fun asset =>
      if Above st.1 asset.1 ∧ True then some (some asset.1,st.2++[assetUnder policy asset])
      else none := by
  refine Views.bind_same (Views.refl _) (readVarBytes_fits h) ?_
  intro name
  refine Views.check (checks_ascendingName policy name st.1) ?_ ?_
  · intro habove
    refine Views.bind_same (Views.refl _) (readU64_fits h) ?_
    intro quantity
    refine Views.passes (checks_withCapacity _ _) ?_ (Views.pure (if_pos ⟨habove,trivial⟩))
    intro s hs
    unfold Fits at hs
    omega
  · intro hnot
    exact Yields.bind fun quantity => Yields.pure (if_neg fun hboth => hnot hboth.1)

/-- One policy of a bundle: its key is compared and its names must ascend. -/
theorem views_parsePolicy (h : r.FollowsRfc) (st : Option Bytes × List Asset) :
    Views (Fits 0) (parsePolicy r st) (readPolicy r) fun policy =>
      if Above st.1 policy.1.toList ∧ (policy.2.map Prod.fst).Pairwise (· < ·) then
        some (some policy.1.toList,st.2++policy.2.map (assetUnder policy.1))
      else none := by
  refine Views.bind_same (Views.refl _) (readSized_fits h 28 _) ?_
  intro policy
  rw [Nat.zero_add]
  refine Views.check (checks_ascending "policy_id" policy.toList st.1) ?_ ?_
  · intro habove
    refine Views.bind_same (Views.refl _) (readMapLen_fits h) ?_
    intro n
    have hloop := Views.loop (views_parseAsset h policy) (parseAsset_fits h policy) n (none,st.2)
    refine Views.of_bind_pure _ ((hloop.bind_pure _).congr ?_)
    intro assets
    have hfold := @foldlM_ascending_start _ _ (fun _ => True) _ Prod.fst
      (fun asset => [assetUnder policy asset]) assets st.2
    have hmap := congrArg (Option.map fun out => (some policy.toList,out)) hfold
    rw [Option.map_map] at hmap
    refine hmap.trans ?_
    simp [habove,List.map_eq_flatMap,apply_ite]
  · intro hnot
    refine Yields.bind fun n => Yields.bind fun assets => Yields.pure (if_neg ?_)
    exact fun hboth => hnot hboth.1

theorem views_parseMultiAssets (h : r.FollowsRfc) :
    Views (Fits 0) (parseMultiAssets r) (readBundle r) fun bundle =>
      if AscendingKeys bundle then some (assetsOf bundle) else none := by
  refine Views.bind_same (Views.refl _) (readMapLen_fits h) ?_
  intro n
  have hloop := Views.loop (views_parsePolicy h) (parsePolicy_fits h) n (none,[])
  refine (hloop.bind_pure Prod.snd).congr ?_
  intro bundle
  exact foldlM_ascending_start bundle []

/-- The script behind the bundle is only passed over. -/
theorem views_skipScriptCredential (h : r.FollowsRfc) (context : String) :
    Views (Fits k) (skipScriptCredential r) (readCredential r context) fun _ => some () := by
  refine Views.bind_same (Views.refl _).of_mapFailed (readNullMarker_fits h) ?_
  intro absent
  cases absent with
  | true => exact Views.pure rfl
  | false =>
      refine Views.bind_same (Views.refl _).of_mapFailed (readArrayLen_fits h) fun arity => ?_
      refine Views.check_both (checks_ensure _ _) (checks_ensure _ _) fun _ => ?_
      refine Views.bind_same (Views.refl _).of_mapFailed (Keeps.forget (readSized_fits h 28 _))
        fun hash => ?_
      refine Views.bind_same (Views.refl _).of_mapFailed (readU8_fits h) fun language => ?_
      refine Views.bind_same (Views.refl _).of_mapFailed (readU32_fits h) fun size => ?_
      exact Views.pure rfl

theorem views_readExtension (h : r.FollowsRfc) {arity : ℕ} (harity : arity = 4 ∨ arity = 6) :
    Views (Fits 0) (readExtension r arity) (readBehind r arity) fun behind =>
      if AscendingKeys behind.1 then some (assetsOf behind.1) else none := by
  obtain rfl | rfl := harity
  · exact Views.pure (if_pos ⟨List.Pairwise.nil,by simp⟩)
  · refine Views.bind (views_parseMultiAssets h).of_mapFailed (parseMultiAssets_fits h) ?_ ?_
    · intro bundle assets hview
      obtain ⟨hkeys,hassets⟩ := Option.ite_none_right_eq_some.mp hview
      refine Views.bind (views_skipScriptCredential h "entry") (skipScriptCredential_fits h) ?_ ?_
      · intro credential _ _
        apply Views.pure
        rw [if_pos hkeys,hassets]
      · intro credential hnone
        cases hnone
    · intro bundle hview
      refine Yields.bind fun credential => Yields.pure ?_
      exact hview

theorem views_readUtxo (h : r.FollowsRfc) :
    Views (Fits 0) (readUtxo r) (readEntry r) fun entry =>
      if FitsUtxo entry then some (utxoOf entry) else none := by
  rw [readEntry,readFields]
  simp only [bind_assoc,pure_bind]
  refine Views.bind_same (Views.refl _) (readArrayLen_fits h).mapFailed fun arity => ?_
  refine Views.check_both (checks_ensure _ _) (checks_ensure _ _) fun harity => ?_
  refine Views.bind_same (Views.refl _) (Keeps.forget (readSized_fits h 32 _)).mapFailed
    fun txId => ?_
  refine Views.bind_same (Views.refl _) (readU64_fits h).mapFailed fun outputIndex => ?_
  refine Views.check (checks_ensure _ _) ?_ ?_
  · intro hindex
    refine Views.bind_same (Views.refl _) (Keeps.forget (readVarBytes_fits h)).mapFailed
      fun address => ?_
    refine Views.bind_same (Views.refl _) (readU64_fits h).mapFailed fun valueLovelace => ?_
    refine Views.bind (views_readExtension h harity).mapFailed (readExtension_fits h arity).mapFailed
      ?_ ?_
    · intro behind assets hview
      obtain ⟨hkeys,hassets⟩ := Option.ite_none_right_eq_some.mp hview
      cases hassets
      exact Views.pure (if_pos ⟨hindex,hkeys⟩)
    · intro behind hview
      apply Yields.pure
      apply if_neg
      rintro ⟨-,hkeys⟩
      rw [if_pos hkeys] at hview
      cases hview
  · intro hindex
    refine Yields.bind fun address => Yields.bind fun valueLovelace => Yields.bind fun behind =>
      Yields.pure (if_neg ?_)
    exact fun hfits => hindex hfits.1

/-! ## The pieces which the other two walks share -/

theorem readSized_views (n : ℕ) (what : String) (P : Bytes → Prop) :
    Views P (readSized r n what) (readVarBytes r) fun bytes =>
      if hlen : bytes.length = n then some ⟨bytes.toArray,hlen⟩ else none := by
  intro s _ v t
  rw [readSized,bind_ok]
  constructor
  · rintro ⟨bytes,u,hread,hrest⟩
    split at hrest
    · rename_i hlen
      cases hrest
      exact ⟨bytes,hread,dif_pos hlen⟩
    · cases hrest
  · rintro ⟨bytes,hread,hview⟩
    dsimp only at hview
    split at hview
    · rename_i hlen
      cases hview
      exact ⟨bytes,t,hread,by rw [dif_pos hlen]; rfl⟩
    · cases hview

theorem skipFields_fits (h : r.FollowsRfc) (context : String) : Keeps k (skipFields r context) :=
  (readArrayLen_fits h).mapFailed.bind fun _ => (Keeps.ensure _ _).bind fun _ =>
    (Keeps.forget (readSized_fits h 32 _)).mapFailed.bind fun _ =>
    (readU64_fits h).mapFailed.bind fun _ =>
    (Keeps.forget (readSized_fits h 32 _)).mapFailed.bind fun _ =>
    (readU64_fits h).mapFailed.bind fun _ => Keeps.pure _

theorem readCredential_fits (h : r.FollowsRfc) (context : String) :
    Keeps k (readCredential r context) := by
  refine (readNullMarker_fits h).mapFailed.bind ?_
  intro absent
  cases absent with
  | true => exact Keeps.pure _
  | false =>
      exact (readArrayLen_fits h).mapFailed.bind fun _ => (Keeps.ensure _ _).bind fun _ =>
        (Keeps.forget (readSized_fits h 28 _)).mapFailed.bind fun _ =>
        (readU8_fits h).mapFailed.bind fun _ => (readU32_fits h).mapFailed.bind fun _ =>
        Keeps.pure _

theorem views_skipFields (h : r.FollowsRfc) (context : String) :
    Views (Fits 0) (skipFields r context) (readFields r) fun fields =>
      if fields.address.length = 32 then some fields.arity else none := by
  refine Views.bind_same (Views.refl _) (readArrayLen_fits h).mapFailed fun arity => ?_
  refine Views.check_both (checks_ensure _ _) (checks_ensure _ _) fun _ => ?_
  refine Views.bind_same (Views.refl _) (Keeps.forget (readSized_fits h 32 _)).mapFailed
    fun txId => ?_
  refine Views.bind_same (Views.refl _) (readU64_fits h).mapFailed fun outputIndex => ?_
  refine Views.bind (readSized_views 32 _ _).mapFailed.of_mapFailed
    (Keeps.forget (readSized_fits h 32 _)).mapFailed ?_ ?_
  · intro address sized hview
    have hlen : address.length = 32 := by
      by_contra hlen
      rw [dif_neg hlen] at hview
      cases hview
    refine Views.bind_same (Views.refl _) (readU64_fits h).mapFailed fun valueLovelace => ?_
    exact Views.pure (if_pos hlen)
  · intro address hview
    have hlen : address.length ≠ 32 := by
      intro hlen
      rw [dif_pos hlen] at hview
      cases hview
    exact Yields.bind fun valueLovelace => Yields.pure (if_neg hlen)

/-- Contexts only differ in what they report. -/
theorem views_readCredential (h : r.FollowsRfc) (context context' : String) :
    Views (Fits 0) (readCredential r context) (readCredential r context') some := by
  refine Views.bind_same (Views.refl _) (readNullMarker_fits h).mapFailed ?_
  intro absent
  cases absent with
  | true => exact Views.refl _
  | false =>
      refine Views.bind_same (Views.refl _) (readArrayLen_fits h).mapFailed fun arity => ?_
      refine Views.check_both (checks_ensure _ _) (checks_ensure _ _) fun _ => ?_
      exact Views.refl _

/-- An entry is walked by dropping its fields and reading on. -/
theorem views_entry {S : Type} {I : Bytes → Prop} {context : String}
    {behind : ℕ → Decode IngestError S} (fold : Bundle × Option ScriptCredential → S)
    (h : r.FollowsRfc) (hI : ∀ s, I s → Fits 0 s)
    (hfields : Triple I (skipFields r context) fun _ => I)
    (hbehind : ∀ arity, Views I (behind arity) (readBehind r arity) fun b => some (fold b)) :
    Views I (skipFields r context >>= behind) (readEntry r) fun entry =>
      if entry.fields.address.length = 32 then some (fold (entry.bundle,entry.credential))
      else none := by
  refine Views.bind ((views_skipFields h context).mono hI) hfields ?_ ?_
  · intro fields arity hview
    obtain ⟨haddress,harity⟩ := Option.ite_none_right_eq_some.mp hview
    cases harity
    refine Views.of_bind_pure _ ((hbehind fields.arity).congr ?_)
    intro b
    exact (if_pos haddress).symm
  · intro fields hview
    refine Yields.bind fun b => Yields.pure (if_neg ?_)
    intro haddress
    rw [if_pos haddress] at hview
    cases hview

/-! ## Scripts seen through the format -/

theorem readBundle_fits (h : r.FollowsRfc) : Keeps k (readBundle r) := by
  have hasset : Keeps k (readAsset r) :=
    (Keeps.forget (readVarBytes_fits h)).bind fun _ => (readU64_fits h).bind fun _ => Keeps.pure _
  have hpolicy : Keeps k (readPolicy r) :=
    (Keeps.forget (readSized_fits h 28 _)).bind fun _ => (readMapLen_fits h).bind fun n =>
      (hasset.times n).bind fun _ => Keeps.pure _
  exact (readMapLen_fits h).bind hpolicy.times

theorem registerExtension_fits (h : r.FollowsRfc) (arity : ℕ) (seen : Scripts) :
    Keeps k (registerExtension r arity seen) := by
  unfold registerExtension
  split
  · exact Keeps.pure _
  · exact (readBundle_fits h).mapFailed.bind fun _ => (readCredential_fits h _).bind fun _ =>
      Keeps.pure _

theorem walkScripts_fits (h : r.FollowsRfc) (seen : Scripts) : Keeps k (walkScripts r seen) :=
  (skipFields_fits h _).bind fun arity => registerExtension_fits h arity seen

theorem views_walkScripts (h : r.FollowsRfc) (seen : Scripts) :
    Views (Fits 0) (walkScripts r seen) (readEntry r) fun entry =>
      if entry.fields.address.length = 32 then some (register seen entry.credential) else none := by
  refine views_entry (fun behind => register seen behind.2) h (fun _ hs => hs)
    (skipFields_fits h _) ?_
  intro arity
  unfold registerExtension readBehind
  by_cases harity : arity = 4
  · rw [if_pos harity,if_pos harity]
    exact Views.pure rfl
  · rw [if_neg harity,if_neg harity]
    refine Views.bind_same (Views.refl _) (readBundle_fits h).mapFailed fun bundle => ?_
    refine Views.bind_same (views_readCredential h _ _) (readCredential_fits h _) fun credential => ?_
    exact Views.pure rfl

/-! ## The whole walk -/

theorem other_expectEnd_free (total : ℕ) : PanicFree (other (LedgerIngest.expectEnd total)) :=
  (PanicFree.remaining.bind fun _ => PanicFree.ensure _ _).mapFailed

/-- A walk whose records are seen through a reader of them is a function of what the
reader finds. -/
theorem walk_views {A B : Type} {I : Bytes → Prop} {entries : ℕ → Decode IngestError A}
    {p : Decode IngestError B} {view : List B → Option A} {cbor : Bytes} {out : A}
    (hcount : Triple I (other (readArrayLen r)) fun _ => I)
    (htriple : ∀ n, Triple I (entries n) fun _ _ => True)
    (hviews : ∀ n, Views I (entries n) (times p n) view) (hcbor : I cbor) :
    walk r entries cbor = .ok out ↔
      ∃ es, walk r (times p) cbor = .ok es ∧ view es = some out := by
  have hend : Triple (fun _ => True) (other (LedgerIngest.expectEnd cbor.length))
      fun _ _ => True :=
    fun s _ => ⟨other_expectEnd_free _ s,fun _ => trivial⟩
  have hwalk : Views I (do
      let n ← other (readArrayLen r)
      let out ← entries n
      other (LedgerIngest.expectEnd cbor.length)
      pure out) (do
      let n ← other (readArrayLen r)
      let es ← times p n
      other (LedgerIngest.expectEnd cbor.length)
      pure es) view := by
    refine Views.bind_same (Views.refl _) hcount fun n => ?_
    refine Views.bind (hviews n) (htriple n) ?_ ?_
    · intro es out hview
      exact Views.bind_same (Views.refl _) hend fun _ => Views.pure hview
    · intro es hview
      exact Yields.bind fun _ => Yields.pure hview
  unfold walk
  simp only [run_ok]
  constructor
  · intro h
    obtain ⟨t,hread⟩ := h
    obtain ⟨es,hes,hview⟩ := (hwalk cbor hcbor out t).mp hread
    exact ⟨es,⟨t,hes⟩,hview⟩
  · intro h
    obtain ⟨es,⟨t,hes⟩,hview⟩ := h
    exact ⟨t,(hwalk cbor hcbor out t).mpr ⟨es,hes,hview⟩⟩

/-- A walk whose entries are seen through the format is a function of the entries. -/
theorem walk_ok {A : Type} {I : Bytes → Prop} {entries : ℕ → Decode IngestError A}
    {view : List SnapshotEntry → Option A} {cbor : Bytes} {out : A}
    (hcount : Triple I (other (readArrayLen r)) fun _ => I)
    (htriple : ∀ n, Triple I (entries n) fun _ _ => True)
    (hviews : ∀ n, Views I (entries n) (times (readEntry r) n) view) (hcbor : I cbor) :
    walk r entries cbor = .ok out ↔
      ∃ es, readSnapshot r cbor = .ok es ∧ view es = some out :=
  walk_views hcount htriple hviews hcbor

/-- What holds behind the entries holds of the result. -/
theorem walk_post {A : Type} {I : Bytes → Prop} {Q : A → Prop} {entries : ℕ → Decode IngestError A}
    {cbor : Bytes} {out : A} (hcount : Triple I (other (readArrayLen r)) fun _ => I)
    (htriple : ∀ n, Triple I (entries n) fun out _ => Q out) (hcbor : I cbor)
    (h : walk r entries cbor = .ok out) : Q out := by
  obtain ⟨t,hread⟩ := run_ok.mp h
  obtain ⟨n,u,hn,hentries⟩ := bind_ok.mp hread
  obtain ⟨out',v,hout,hrest⟩ := bind_ok.mp hentries
  obtain ⟨_,_,-,hpure⟩ := bind_ok.mp hrest
  cases hpure
  exact (htriple n u ((hcount cbor hcbor).2 hn)).2 hout

theorem walk_not_panic {A : Type} {I : Bytes → Prop} {entries : ℕ → Decode IngestError A}
    {cbor : Bytes} (hcount : Triple I (other (readArrayLen r)) fun _ => I)
    (htriple : ∀ n, Triple I (entries n) fun _ _ => True) (hcbor : I cbor) :
    walk r entries cbor ≠ .error .capacityOverflow := by
  have hend (out : A) : Triple (fun _ => True) (do
      other (LedgerIngest.expectEnd cbor.length)
      pure out) fun _ _ => True :=
    fun s _ => ⟨(other_expectEnd_free _).bind (fun _ => PanicFree.pure out) s,fun _ => trivial⟩
  have hwalk := hcount.bind fun n => (htriple n).bind hend
  rw [walk,ne_eq,run_panic]
  exact (hwalk cbor hcbor).1

/-- Unless the reservation of the result fails, it makes no difference. -/
theorem ingest_eq_walk {A : Type} {size : ℕ} {entries : ℕ → Decode IngestError A} {cbor : Bytes}
    (h : ingest r size entries cbor ≠ .error .capacityOverflow) :
    ingest r size entries cbor = walk r entries cbor := by
  rw [ingest,ne_eq,run_panic] at h
  unfold ingest walk run
  congr 1
  apply bind_congr_ok
  intro n t hread
  by_cases hcapacity : n*size ≤ isizeMax
  · rw [withCapacity_bind hcapacity]
  · refine (h (bind_panic.mpr (Or.inr ⟨n,t,hread,?_⟩))).elim
    exact bind_panic.mpr (Or.inl (withCapacity_panic.mpr (not_le.mp hcapacity)))

theorem fits_cbor (cbor : Vec UInt8) : Fits 0 cbor.val := by
  have hlen := cbor.property
  unfold Fits isizeMax
  omega

theorem ingestUtxos_ok (h : r.FollowsRfc) {sizes : RecordSizes} {cbor : Vec UInt8}
    {utxos : List Utxo} (halloc : ingestUtxos r sizes cbor.val ≠ .error .capacityOverflow) :
    ingestUtxos r sizes cbor.val = .ok utxos ↔
      ∃ es, readSnapshot r cbor.val = .ok es ∧ (∀ e ∈ es, FitsUtxo e) ∧ es.map utxoOf = utxos := by
  have hentry := readUtxo_fits h
  rw [ingestUtxos,ingest_eq_walk halloc,walk_ok (readArrayLen_fits h).mapFailed
    (fun n => (hentry.times n).weaken fun _ _ _ => trivial)
    ((views_readUtxo h).times hentry) (fits_cbor cbor)]
  simp only [mapM_guard]

theorem ingestScripts_ok (h : r.FollowsRfc) {cbor : Vec UInt8} {scripts : List ScriptEntry} :
    ingestScripts r cbor.val = .ok scripts ↔
      ∃ es, readSnapshot r cbor.val = .ok es ∧ (∀ e ∈ es, e.fields.address.length = 32) ∧
        (sortedRows (es.foldl (fun seen e => register seen e.credential) ∅)).map Prod.snd =
          scripts := by
  have hwalk (seen : Scripts) := @walk_ok r Scripts (Fits 0) _ _ cbor.val seen
    (readArrayLen_fits h).mapFailed
    (fun n => (Keeps.loop (walkScripts_fits h) n ∅).weaken fun _ _ _ => trivial)
    (fun n => Views.loop (views_walkScripts h) (walkScripts_fits h) n ∅) (fits_cbor cbor)
  rw [ingestScripts,FallibleSteps.map_ok]
  simp only [hwalk,foldlM_guard]
  constructor
  · rintro ⟨seen,⟨es,hes,haddress,rfl⟩,rfl⟩
    exact ⟨es,hes,haddress,rfl⟩
  · rintro ⟨es,hes,haddress,rfl⟩
    exact ⟨_,⟨es,hes,haddress,rfl⟩,rfl⟩

theorem ingestScripts_not_panic (h : r.FollowsRfc) (cbor : Vec UInt8) :
    ingestScripts r cbor.val ≠ .error .capacityOverflow := by
  rw [ingestScripts,ne_eq,FallibleSteps.map_error]
  exact walk_not_panic (readArrayLen_fits h).mapFailed
    (fun n => (Keeps.loop (walkScripts_fits h) n ∅).weaken fun _ _ _ => trivial) (fits_cbor cbor)

end

end OmegaHarness.SnapshotWalkers
