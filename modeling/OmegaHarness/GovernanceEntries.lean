import OmegaHarness.SnapshotWalkers

/-!
# The entries of a governance snapshot

A governance snapshot is an array of entries whose kind byte says what follows: a key, a
value and a slot, or the four pots of the account state. The walk over it takes each entry
to the fact of its kind and lets at most one account state pass. That there is one it never
asks, though the module says that it fails if there is none: its flag is set and compared,
and not looked at behind the loop.

`readFactEntry` reads what stands in the bytes and makes none of the walk's checks.
-/
namespace OmegaHarness.GovernanceEntries
open BundleAssembly ByteDecoders CborHeads Decode DecoderViews DomainHashes HostileLengths
open LeafEncodings LedgerIngest SnapshotWalkers

/-- What stands behind the kind byte. -/
inductive FactBody where
  | keyed (key : Hash) (value : BitVec 128) (slot : UInt64)
  | pots (reserves treasury deposits feePot : UInt64)
  deriving DecidableEq, Repr

structure FactEntry where
  arity : ℕ
  kindByte : UInt8
  body : FactBody
  deriving DecidableEq, Repr

section
variable (r : MapReader)

def readKeyedBody : Decode IngestError FactBody := do
  let key ← other (read32Bytes r)
  let value ← other (readU128Bytes r)
  let slot ← other (readU64 r)
  pure (.keyed key value slot)

def readPots : Decode IngestError FactBody := do
  let reserves ← other (readU64 r)
  let treasury ← other (readU64 r)
  let deposits ← other (readU64 r)
  let feePot ← other (readU64 r)
  pure (.pots reserves treasury deposits feePot)

def readFactEntry : Decode IngestError FactEntry := do
  let arity ← other (readArrayLen r)
  let kindByte ← other (readU8 r)
  let body ← if kindByte = 4 then readPots r else readKeyedBody r
  pure ⟨arity,kindByte,body⟩

/-- The entries of a snapshot, of whatever kinds and arities. -/
def readFactEntries (cbor : Bytes) : Except (Halt IngestError) (List FactEntry) :=
  walk r (times (readFactEntry r)) cbor

end

/-- The constructor which a kind byte names, for the kinds with a key. -/
def keyedFact (kindByte : UInt8) : Option (Hash → BitVec 128 → UInt64 → GovernanceFact) :=
  if kindByte = 0 then some .treasury
  else if kindByte = 1 then some .ccSeat
  else if kindByte = 2 then some .ratifiedAction
  else if kindByte = 3 then some .inFlightAction
  else none

/-- The fact which an entry stands for, if its kind is known and its arity that of the
kind. -/
def FactEntry.fact (e : FactEntry) : Option GovernanceFact :=
  match e.body with
  | .keyed key value slot =>
      if e.arity = 4 then (keyedFact e.kindByte).map fun fact => fact key value slot else none
  | .pots reserves treasury deposits feePot =>
      if e.kindByte = 4 ∧ e.arity = 5 then some (.accountState reserves treasury deposits feePot)
      else none

/-- The entry becomes the fact. -/
def FactEntry.StandsFor (e : FactEntry) (f : GovernanceFact) : Prop := e.fact = some f

theorem keyedFact_kind {kindByte : UInt8} {fact : Hash → BitVec 128 → UInt64 → GovernanceFact}
    (h : keyedFact kindByte = some fact) (key : Hash) (value : BitVec 128) (slot : UInt64) :
    (fact key value slot).kind = kindByte := by
  unfold keyedFact at h
  split_ifs at h with h0 h1 h2 h3
  all_goals
    cases h
    symm
    assumption

theorem FactEntry.StandsFor.kind {e : FactEntry} {f : GovernanceFact} (h : e.StandsFor f) :
    f.kind = e.kindByte := by
  obtain ⟨arity,kindByte,body⟩ := e
  cases body with
  | keyed key value slot =>
      obtain ⟨-,hfact⟩ := Option.ite_none_right_eq_some.mp h
      obtain ⟨fact,hkind,rfl⟩ := Option.map_eq_some_iff.mp hfact
      exact keyedFact_kind hkind key value slot
  | pots reserves treasury deposits feePot =>
      obtain ⟨⟨hkind,-⟩,hfact⟩ := Option.ite_none_right_eq_some.mp h
      cases hfact
      exact hkind.symm

/-- The walk at one entry: a fact is added, and a second account state refused. -/
def step (st : Bool × List GovernanceFact) (e : FactEntry) : Option (Bool × List GovernanceFact) :=
  if e.kindByte = 4 ∧ st.1 = true then none
  else e.fact.map fun f => (st.1 || e.kindByte = 4,st.2++[f])

section
variable {r : MapReader} {k : ℕ}

theorem views_readKeyedFact (h : r.FollowsRfc) {kindByte : UInt8} (hkind : kindByte ≠ 4)
    {fact : Hash → BitVec 128 → UInt64 → GovernanceFact} (hfact : keyedFact kindByte = some fact)
    (arity : ℕ) (st : Bool × List GovernanceFact) :
    Views (Fits k) (do
        let f ← readKeyedFact r arity kindByte fact
        pure (st.1,st.2++[f]))
      (do
        let body ← readKeyedBody r
        pure (⟨arity,kindByte,body⟩ : FactEntry))
      (step st) := by
  unfold readKeyedFact readKeyedBody
  simp only [bind_assoc,pure_bind]
  refine Views.check (checks_ensure _ _) ?_ ?_
  · intro harity
    refine Views.bind_same (Views.refl _) (Keeps.forget (readSized_fits h 32 _)).mapFailed fun key => ?_
    refine Views.bind_same (Views.refl _) (readU128Bytes_fits h).mapFailed fun value => ?_
    refine Views.bind_same (Views.refl _) (readU64_fits h).mapFailed fun slot => ?_
    apply Views.pure
    simp [step,FactEntry.fact,hkind,harity,hfact]
  · intro harity
    refine Yields.bind fun key => Yields.bind fun value => Yields.bind fun slot => Yields.pure ?_
    simp [step,FactEntry.fact,hkind,harity]

theorem views_readAccountState (h : r.FollowsRfc) (arity : ℕ) (st : Bool × List GovernanceFact) :
    Views (Fits k) (do
        let f ← readAccountState r arity st.1
        pure (true,st.2++[f]))
      (do
        let body ← readPots r
        pure (⟨arity,4,body⟩ : FactEntry))
      (step st) := by
  have hpot (name : String) : Views (Fits k) (other (readAccountPot r name)) (other (readU64 r)) some :=
    (Views.refl _).of_mapFailed.mapFailed.mapFailed
  have hfits (name : String) : Keeps k (other (readAccountPot r name)) :=
    (readU64_fits h).mapFailed.mapFailed
  unfold readAccountState readPots
  simp only [bind_assoc,pure_bind]
  refine Views.check (checks_ensure _ _) ?_ ?_
  · intro harity
    refine Views.bind_same (hpot _) (hfits _) fun reserves => ?_
    refine Views.bind_same (hpot _) (hfits _) fun treasury => ?_
    refine Views.bind_same (hpot _) (hfits _) fun deposits => ?_
    refine Views.bind_same (hpot _) (hfits _) fun feePot => ?_
    refine Views.check (checks_ensure _ _) ?_ ?_
    · intro hfirst
      apply Views.pure
      simp [step,FactEntry.fact,harity,hfirst]
    · intro hsecond
      apply Yields.pure
      simp [step,hsecond]
  · intro harity
    refine Yields.bind fun reserves => Yields.bind fun treasury => Yields.bind fun deposits =>
      Yields.bind fun feePot => Yields.pure ?_
    simp [step,FactEntry.fact,harity]

theorem views_readFact (h : r.FollowsRfc) (st : Bool × List GovernanceFact) :
    Views (Fits k) (readFact r st) (readFactEntry r) (step st) := by
  refine Views.bind_same (Views.refl _) (readArrayLen_fits h).mapFailed fun arity => ?_
  refine Views.bind_same (Views.refl _) (readU8_fits h).mapFailed fun kindByte => ?_
  by_cases h4 : kindByte = 4
  · subst h4
    exact views_readAccountState h arity st
  · rw [if_neg h4,if_neg h4]
    split_ifs with h0 h1 h2 h3
    · exact views_readKeyedFact h h4 (by simp [keyedFact,h0]) arity st
    · exact views_readKeyedFact h h4 (by simp [keyedFact,h1]) arity st
    · exact views_readKeyedFact h h4 (by simp [keyedFact,h2]) arity st
    · exact views_readKeyedFact h h4 (by simp [keyedFact,h3]) arity st
    · have hnone : keyedFact kindByte = none := by simp [keyedFact,h0,h1,h2,h3]
      apply Views.fails
      unfold readKeyedBody
      simp only [bind_assoc,pure_bind]
      refine Yields.bind fun key => Yields.bind fun value => Yields.bind fun slot => Yields.pure ?_
      simp [step,FactEntry.fact,h4,hnone]

end

/-! ## The whole walk -/

/-- The entries of the account state. -/
def accountStates (es : List FactEntry) : ℕ := es.countP fun e => e.kindByte = 4

theorem accountStates_cons (e : FactEntry) (es : List FactEntry) :
    accountStates (e::es) = accountStates es+if e.kindByte = 4 then 1 else 0 := by
  rw [accountStates,List.countP_cons]
  simp [accountStates]

theorem step_none {st : Bool × List GovernanceFact} {e : FactEntry}
    (h : e.fact = none ∨ e.kindByte = 4 ∧ st.1 = true) : step st e = none := by
  unfold step
  rcases h with hfact | hsecond
  · simp [hfact]
  · rw [if_pos hsecond]

theorem step_some {st : Bool × List GovernanceFact} {e : FactEntry} {f : GovernanceFact}
    (hfact : e.fact = some f) (h : ¬(e.kindByte = 4 ∧ st.1 = true)) :
    step st e = some (st.1 || e.kindByte = 4,st.2++[f]) := by
  rw [step,if_neg h,hfact]
  rfl

/-- The loop takes each entry to its fact, and an account state only once. -/
theorem foldlM_step {es : List FactEntry} {saw : Bool} {acc out : List GovernanceFact} :
    (es.foldlM step (saw,acc)).map Prod.snd = some out ↔
      accountStates es+saw.toNat ≤ 1 ∧
        ∃ facts, List.Forall₂ FactEntry.StandsFor es facts ∧ acc++facts = out := by
  induction es generalizing saw acc with
  | nil => simp [accountStates,Bool.toNat_le]
  | cons e es ih =>
      rw [List.foldlM_cons,accountStates_cons]
      simp only [List.forall₂_cons_left_iff,FactEntry.StandsFor]
      cases hfact : e.fact with
      | none =>
          rw [step_none (Or.inl hfact)]
          simp
      | some f =>
          by_cases hsecond : e.kindByte = 4 ∧ saw = true
          · rw [step_none (Or.inr hsecond)]
            simp [hsecond.1,hsecond.2]
          · rw [step_some hfact hsecond]
            simp only [Option.bind_eq_bind,Option.bind_some]
            rw [ih]
            have hflag : accountStates es+(saw || decide (e.kindByte = 4)).toNat =
                accountStates es+(if e.kindByte = 4 then 1 else 0)+saw.toNat := by
              by_cases hkind : e.kindByte = 4
              · cases saw with
                | true => exact (hsecond ⟨hkind,rfl⟩).elim
                | false => simp [hkind]
              · simp [hkind]
            rw [hflag]
            simp [and_assoc]

section
variable {r : MapReader} {sizes : RecordSizes} {cbor : Vec UInt8} {facts : List GovernanceFact}

theorem views_readFacts (h : r.FollowsRfc) (n : ℕ) :
    Views (Fits 0) (readFacts r n) (times (readFactEntry r) n) fun es =>
      (es.foldlM step (false,[])).map Prod.snd :=
  (Views.loop (views_readFact h) (readFact_fits h) n (false,[])).bind_pure Prod.snd

/-- The walk accepts entries of known kinds and right arities with at most one account
state among them, and returns their facts. -/
theorem ingestGovernance_ok (h : r.FollowsRfc)
    (halloc : ingestGovernance r sizes cbor.val ≠ .error .capacityOverflow) :
    ingestGovernance r sizes cbor.val = .ok facts ↔
      ∃ es, readFactEntries r cbor.val = .ok es ∧ accountStates es ≤ 1 ∧
        List.Forall₂ FactEntry.StandsFor es facts := by
  rw [ingestGovernance,ingest_eq_walk halloc,walk_views (readArrayLen_fits h).mapFailed
    (fun n => (readFacts_fits h n).weaken fun _ _ _ => trivial)
    (views_readFacts h) (fits_cbor cbor)]
  simp only [foldlM_step,Bool.toNat_false,Nat.add_zero,List.nil_append,exists_eq_right]
  rfl

/-- Facts which are account states. -/
def isAccountState : GovernanceFact → Bool
  | .accountState .. => true
  | _ => false

theorem isAccountState_iff (f : GovernanceFact) : isAccountState f ↔ f.kind = 4 := by
  cases f with
  | accountState => simp [isAccountState,GovernanceFact.kind]
  | treasury | ccSeat | ratifiedAction | inFlightAction =>
      simp [isAccountState,GovernanceFact.kind]

theorem countP_isAccountState {es : List FactEntry}
    (h : List.Forall₂ FactEntry.StandsFor es facts) :
    facts.countP isAccountState = accountStates es := by
  induction h with
  | nil => rfl
  | cons hfact _ ih =>
      rw [accountStates_cons,List.countP_cons,ih]
      simp only [isAccountState_iff,hfact.kind]

/-- Every entry of an accepted snapshot becomes one fact, of the kind which its kind byte
names and in its place. There is exactly one account state among them if and only if some
kind byte names one: an input without any passes. -/
theorem account_state_present_iff (h : r.FollowsRfc)
    (hok : ingestGovernance r sizes cbor.val = .ok facts) :
    ∃ es, readFactEntries r cbor.val = .ok es ∧
      List.Forall₂ (fun e f => e.StandsFor f ∧ f.kind = e.kindByte) es facts ∧
      (facts.countP isAccountState = 1 ↔ ∃ e ∈ es, e.kindByte = 4) := by
  have halloc := FallibleSteps.ne_error_of_ok hok .capacityOverflow
  obtain ⟨es,hes,hsingle,hfacts⟩ := (ingestGovernance_ok h halloc).mp hok
  refine ⟨es,hes,hfacts.imp fun _ _ hfact => ⟨hfact,hfact.kind⟩,?_⟩
  have hpos : 0 < accountStates es ↔ ∃ e ∈ es, e.kindByte = 4 := by
    simp [accountStates,List.countP_pos_iff]
  rw [countP_isAccountState hfacts,← hpos]
  omega

end

def treasuryEntry : Bytes :=
  [0x84,0x00,0x58,0x20]++List.replicate 32 0++[0x50]++List.replicate 16 1++[0x05]

/-- A fact of the treasury and an account state. -/
def withPots : Vec UInt8 :=
  ⟨[0x82]++treasuryEntry++[0x85,0x04,0x01,0x02,0x03,0x04],by decide⟩

theorem pots_present :
    ∃ facts, ingestGovernance reference smallestRecords withPots.val = .ok facts ∧
      facts.map GovernanceFact.kind = [0,4] ∧ facts.countP isAccountState = 1 := by
  have hok : ingestGovernance reference smallestRecords withPots.val =
      .ok [.treasury (Vector.replicate 32 0) (BitVec.ofNat 128 (2^128/255)) 5,
        .accountState 1 2 3 4] := by
    decide +kernel
  obtain ⟨es,hes,-,hcount⟩ := account_state_present_iff reference_follows hok
  have hentries : readFactEntries reference withPots.val =
      .ok [⟨4,0,.keyed (Vector.replicate 32 0) (BitVec.ofNat 128 (2^128/255)) 5⟩,
        ⟨5,4,.pots 1 2 3 4⟩] := by
    decide +kernel
  rw [hentries] at hes
  cases hes
  exact ⟨_,hok,rfl,hcount.mpr ⟨_,List.mem_cons_of_mem _ (List.mem_singleton_self _),rfl⟩⟩

def withoutPots : Vec UInt8 := ⟨[0x81]++treasuryEntry,by decide⟩

/-- No entries at all, or only one with a key: both are accepted. -/
theorem pots_absent :
    ingestGovernance reference smallestRecords noRecords.val = .ok [] ∧
      ∃ f, ingestGovernance reference smallestRecords withoutPots.val = .ok [f] ∧
        isAccountState f = false := by
  refine ⟨by decide +kernel,
    .treasury (Vector.replicate 32 0) (BitVec.ofNat 128 (2^128/255)) 5,?_,rfl⟩
  decide +kernel

end OmegaHarness.GovernanceEntries
