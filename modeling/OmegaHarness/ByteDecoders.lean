import Mathlib

/-!
# Byte decoders and the languages they read

A decoder takes one value off the front of a byte string and leaves the rest.
It stops early in two ways which a caller must tell apart: an error value, and
the panic of a vector asked to reserve more than `isize::MAX` bytes. What a
decoder reads is stated as a language for each value; where it panics is a
language of prefixes, put together from its parts by the rules below.
-/
namespace OmegaHarness.ByteDecoders

/-- The most bytes one allocation may have. -/
def isizeMax : ℕ := 2^63-1

inductive Halt (E : Type) where
  | failed (e : E)
  | capacityOverflow
  deriving DecidableEq, Repr

/-- The state is the rest of the input. -/
def Decode (E A : Type) : Type := List UInt8 → Except (Halt E) (A × List UInt8)

namespace Decode
variable {E F A B S : Type}

instance monad : Monad (Decode E) where
  pure a := fun s => .ok (a,s)
  bind p f := fun s => match p s with
    | .ok (a,t) => f a t
    | .error e => .error e

def fail (e : E) : Decode E A := fun _ => .error (.failed e)

def ensure (c : Prop) [Decidable c] (e : E) : Decode E Unit :=
  fun s => if c then .ok ((),s) else .error (.failed e)

def remaining : Decode E ℕ := fun s => .ok (s.length,s)

/-- One call into a reader of a foreign library. -/
def item (onError : String → E) (read : List UInt8 → Except String (A × List UInt8)) : Decode E A :=
  fun s => match read s with
    | .ok r => .ok r
    | .error e => .error (.failed (onError e))

def mapFailed (f : E → F) (p : Decode E A) : Decode F A :=
  fun s => match p s with
    | .ok r => .ok r
    | .error (.failed e) => .error (.failed (f e))
    | .error .capacityOverflow => .error .capacityOverflow

/-- `Vec::with_capacity(count)` for elements of `size` bytes. -/
def withCapacity (size count : ℕ) : Decode E Unit :=
  fun s => if isizeMax < count*size then .error .capacityOverflow else .ok ((),s)

/-- Read `n` values in a row and collect them. -/
def times (p : Decode E A) : ℕ → Decode E (List A)
  | 0 => pure []
  | n+1 => do
      let a ← p
      let as ← times p n
      pure (a::as)

/-- Run a loop body `n` times over a state. -/
def loop (body : S → Decode E S) : ℕ → S → Decode E S
  | 0,st => pure st
  | n+1,st => do
      let next ← body st
      loop body n next

def run (p : Decode E A) (s : List UInt8) : Except (Halt E) A := (p s).map Prod.fst

variable {p : Decode E A} {f : A → Decode E B} {a : A} {b : B} {s t : List UInt8}

@[simp] theorem pure_apply (a : A) (s : List UInt8) : (pure a : Decode E A) s = .ok (a,s) := rfl

theorem bind_ok : (p >>= f) s = .ok (b,t) ↔ ∃ a u, p s = .ok (a,u) ∧ f a u = .ok (b,t) := by
  change (match p s with | .ok (a,u) => f a u | .error e => .error e) = _ ↔ _
  cases p s with
  | ok r => simp [Prod.ext_iff]
  | error e => simp

theorem bind_panic : (p >>= f) s = .error .capacityOverflow ↔
    p s = .error .capacityOverflow ∨ ∃ a u, p s = .ok (a,u) ∧ f a u = .error .capacityOverflow := by
  change (match p s with | .ok (a,u) => f a u | .error e => .error e) = _ ↔ _
  cases p s with
  | ok r => simp [Prod.ext_iff]
  | error e => simp

theorem bind_failed {e : E} : (p >>= f) s = .error (.failed e) ↔
    p s = .error (.failed e) ∨ ∃ a u, p s = .ok (a,u) ∧ f a u = .error (.failed e) := by
  change (match p s with | .ok (a,u) => f a u | .error e => .error e) = _ ↔ _
  cases p s with
  | ok r => simp [Prod.ext_iff]
  | error e => simp

theorem ensure_ok {c : Prop} [Decidable c] {e : E} {u : Unit} :
    ensure c e s = .ok (u,t) ↔ c ∧ s = t := by
  unfold ensure
  by_cases h : c
  · simp [h]
  · simp [h]

theorem item_ok {onError : String → E} {read : List UInt8 → Except String (A × List UInt8)} :
    item onError read s = .ok (a,t) ↔ read s = .ok (a,t) := by
  unfold item
  cases read s with
  | ok r => simp
  | error e => simp

theorem mapFailed_ok {g : E → F} : mapFailed g p s = .ok (a,t) ↔ p s = .ok (a,t) := by
  unfold mapFailed
  cases h : p s with
  | ok r => simp
  | error e =>
      cases e with
      | failed e => simp
      | capacityOverflow => simp

theorem mapFailed_panic {g : E → F} :
    mapFailed g p s = .error .capacityOverflow ↔ p s = .error .capacityOverflow := by
  unfold mapFailed
  cases h : p s with
  | ok r => simp
  | error e =>
      cases e with
      | failed e => simp
      | capacityOverflow => simp

theorem withCapacity_ok {size count : ℕ} {u : Unit} :
    (withCapacity size count : Decode E Unit) s = .ok (u,t) ↔ count*size ≤ isizeMax ∧ s = t := by
  unfold withCapacity
  by_cases h : isizeMax < count*size
  · simp [h]
  · simp [h,not_lt.mp h]

theorem withCapacity_panic {size count : ℕ} :
    (withCapacity size count : Decode E Unit) s = .error .capacityOverflow ↔
      isizeMax < count*size := by
  unfold withCapacity
  by_cases h : isizeMax < count*size
  · simp [h]
  · simp [h]

theorem run_ok : p.run s = .ok a ↔ ∃ t, p s = .ok (a,t) := by
  unfold run
  cases p s with
  | ok r => simp [Except.map,Prod.ext_iff]
  | error e => simp [Except.map]

theorem run_panic : p.run s = .error .capacityOverflow ↔ p s = .error .capacityOverflow := by
  unfold run
  cases p s with
  | ok r => simp [Except.map]
  | error e => simp [Except.map]

/-- A call which comes back to its caller, with a value or with an error. -/
def Returns (result : Except (Halt E) A) : Prop :=
  (∃ a, result = .ok a) ∨ ∃ e, result = .error (.failed e)

theorem returns_iff {result : Except (Halt E) A} :
    Returns result ↔ ¬result = .error .capacityOverflow := by
  unfold Returns
  cases result with
  | ok a => simp
  | error halt =>
      cases halt with
      | failed e => simp
      | capacityOverflow => simp

/-! ## Forward: a decoder reads a value off every string of a language -/

def Reads (p : Decode E A) (a : A) (L : Language UInt8) : Prop :=
  ∀ x ∈ L, ∀ rest, p (x++rest) = .ok (a,rest)

theorem Reads.pure (a : A) : Reads (pure a : Decode E A) a 1 := by
  intro x hx rest
  rw [Language.mem_one] at hx
  simp [hx]

theorem Reads.bind {L M : Language UInt8} (hp : Reads p a L) (hf : Reads (f a) b M) :
    Reads (p >>= f) b (L*M) := by
  intro z hz rest
  obtain ⟨x,hx,y,hy,rfl⟩ := Language.mem_mul.mp hz
  rw [List.append_assoc]
  exact bind_ok.mpr ⟨a,y++rest,hp x hx _,hf y hy rest⟩

/-- The last read of a decoder which then only builds its result. -/
theorem Reads.bind_pure {L : Language UInt8} {g : A → B} (hp : Reads p a L) :
    Reads (p >>= fun a => Pure.pure (g a)) (g a) L := by
  have h : Reads (p >>= fun a => Pure.pure (g a)) (g a) (L*1) := hp.bind (Reads.pure (g a))
  rwa [mul_one] at h

/-- Checks and reservations between two reads take no input. -/
theorem Reads.after_ensure {L : Language UInt8} {f : Unit → Decode E B} {c : Prop} [Decidable c]
    {e : E} (hc : c) (hf : Reads (f ()) b L) : Reads (ensure c e >>= f) b L :=
  fun x hx rest => bind_ok.mpr ⟨(),_,ensure_ok.mpr ⟨hc,rfl⟩,hf x hx rest⟩

theorem Reads.after_withCapacity {L : Language UInt8} {f : Unit → Decode E B} {size count : ℕ}
    (hfits : count*size ≤ isizeMax) (hf : Reads (f ()) b L) :
    Reads (withCapacity size count >>= f) b L :=
  fun x hx rest => bind_ok.mpr ⟨(),_,withCapacity_ok.mpr ⟨hfits,rfl⟩,hf x hx rest⟩

theorem Reads.times {G : A → Language UInt8} (as : List A) (hp : ∀ a ∈ as, Reads p a (G a)) :
    Reads (times p as.length) as (as.map G).prod := by
  induction as with
  | nil => exact Reads.pure []
  | cons a as ih =>
      rw [List.map_cons,List.prod_cons]
      have htail := ih fun a ha => hp a (List.mem_cons_of_mem _ ha)
      exact (hp a List.mem_cons_self).bind htail.bind_pure

theorem flatMap_mem_prod {G : A → Language UInt8} {g : A → List UInt8} (as : List A)
    (h : ∀ a ∈ as, g a ∈ G a) : as.flatMap g ∈ (as.map G).prod := by
  induction as with
  | nil => exact Language.nil_mem_one
  | cons a as ih =>
      rw [List.flatMap_cons,List.map_cons,List.prod_cons]
      exact Language.append_mem_mul (h a List.mem_cons_self)
        (ih fun a ha => h a (List.mem_cons_of_mem _ ha))

/-! ## Exactly: nothing else is read -/

structure Exact (p : Decode E A) (G : A → Language UInt8) : Prop where
  reads : ∀ a, Reads p a (G a)
  inverts : ∀ {s a t}, p s = .ok (a,t) → ∃ x ∈ G a, s = x++t

variable {G : A → Language UInt8}

/-- One read peeled off a sequence. -/
theorem Exact.bind_inverts (hp : Exact p G) (h : (p >>= f) s = .ok (b,t)) :
    ∃ a, ∃ x ∈ G a, ∃ u, s = x++u ∧ f a u = .ok (b,t) := by
  obtain ⟨a,u,hread,hrest⟩ := bind_ok.mp h
  obtain ⟨x,hx,hs⟩ := hp.inverts hread
  exact ⟨a,x,hx,u,hs,hrest⟩

theorem Exact.times (hp : Exact p G) (n : ℕ) :
    Exact (times p n) (fun as => {x | as.length = n ∧ x ∈ (as.map G).prod}) := by
  constructor
  · intro as x hx rest
    obtain ⟨rfl,hx⟩ := hx
    exact Reads.times as (fun a _ => hp.reads a) x hx rest
  · induction n with
    | zero =>
        intro s as t h
        cases h
        exact ⟨[],⟨rfl,Language.nil_mem_one⟩,rfl⟩
    | succ n ih =>
        intro s as t h
        obtain ⟨a,x,hx,u,rfl,hrest⟩ := hp.bind_inverts h
        obtain ⟨tail,v,htail,hpure⟩ := bind_ok.mp hrest
        cases hpure
        obtain ⟨y,⟨hlen,hy⟩,rfl⟩ := ih htail
        refine ⟨x++y,⟨by simp [hlen],?_⟩,by simp⟩
        rw [List.map_cons,List.prod_cons]
        exact Language.mem_mul.mpr ⟨x,hx,y,hy,rfl⟩

/-- What follows `n` successful reads, whatever was read. -/
theorem mem_iSup_pow {n : ℕ} {x : List UInt8} :
    x ∈ (⨆ a, G a)^n ↔ ∃ as : List A, as.length = n ∧ x ∈ (as.map G).prod := by
  induction n generalizing x with
  | zero =>
      constructor
      · intro hx
        exact ⟨[],rfl,hx⟩
      · rintro ⟨as,hlen,hx⟩
        rw [List.length_eq_zero_iff] at hlen
        rw [hlen] at hx
        exact hx
  | succ n ih =>
      rw [pow_succ',Language.mem_mul]
      constructor
      · rintro ⟨y,hy,z,hz,rfl⟩
        obtain ⟨a,ha⟩ := Language.mem_iSup.mp hy
        obtain ⟨as,hlen,has⟩ := ih.mp hz
        exact ⟨a::as,by simp [hlen],Language.mem_mul.mpr ⟨y,ha,z,has,rfl⟩⟩
      · rintro ⟨as,hlen,hx⟩
        cases as with
        | nil => cases hlen
        | cons a as =>
            rw [List.map_cons,List.prod_cons] at hx
            obtain ⟨y,hy,z,hz,rfl⟩ := Language.mem_mul.mp hx
            exact ⟨y,Language.mem_iSup.mpr ⟨a,hy⟩,z,ih.mpr ⟨as,Nat.succ.inj hlen,hz⟩,rfl⟩

theorem iSup_times (n : ℕ) :
    ⨆ as : List A, ({x | as.length = n ∧ x ∈ (as.map G).prod} : Language UInt8) = (⨆ a, G a)^n := by
  refine Language.ext fun x => ?_
  exact Language.mem_iSup.trans mem_iSup_pow.symm

/-! ## Where a decoder panics -/

/-- The inputs on which `p` panics are those starting with a string of `L`. -/
def Panics (p : Decode E A) (L : Language UInt8) : Prop :=
  ∀ s, p s = .error .capacityOverflow ↔ s ∈ L*⊤

def PanicFree (p : Decode E A) : Prop := ∀ s, p s ≠ .error .capacityOverflow

theorem mem_mul_top {L : Language UInt8} : s ∈ L*⊤ ↔ ∃ x ∈ L, ∃ rest, s = x++rest := by
  rw [Language.mem_mul]
  constructor
  · rintro ⟨x,hx,rest,-,rfl⟩
    exact ⟨x,hx,rest,rfl⟩
  · rintro ⟨x,hx,rest,rfl⟩
    exact ⟨x,hx,rest,trivial,rfl⟩

theorem PanicFree.panics (h : PanicFree p) : Panics p 0 := by
  intro s
  rw [zero_mul]
  exact iff_of_false (h s) (Language.notMem_zero s)

theorem PanicFree.pure (a : A) : PanicFree (pure a : Decode E A) := by
  intro s h
  cases h

theorem PanicFree.fail (e : E) : PanicFree (fail e : Decode E A) := by
  intro s h
  cases h

theorem PanicFree.ensure (c : Prop) [Decidable c] (e : E) : PanicFree (ensure c e) := by
  intro s h
  unfold Decode.ensure at h
  split at h
  · cases h
  · cases h

theorem PanicFree.remaining : PanicFree (remaining : Decode E ℕ) := by
  intro s h
  cases h

theorem PanicFree.item (onError : String → E)
    (read : List UInt8 → Except String (A × List UInt8)) : PanicFree (item onError read) := by
  intro s h
  unfold Decode.item at h
  split at h
  · cases h
  · cases h

theorem PanicFree.mapFailed {g : E → F} (hp : PanicFree p) : PanicFree (mapFailed g p) :=
  fun s h => hp s (mapFailed_panic.mp h)

theorem PanicFree.bind (hp : PanicFree p) (hf : ∀ a, PanicFree (f a)) : PanicFree (p >>= f) := by
  intro s h
  obtain h | ⟨a,u,-,h⟩ := bind_panic.mp h
  · exact hp s h
  · exact hf a u h

theorem PanicFree.times (hp : PanicFree p) (n : ℕ) : PanicFree (times p n) := by
  induction n with
  | zero => exact PanicFree.pure []
  | succ n ih => exact hp.bind fun a => ih.bind fun as => PanicFree.pure (a::as)

/-- The panics of a sequence: those of its first part, and those of the second
behind whatever the first part reads. -/
theorem Panics.bind {L : Language UInt8} {M : A → Language UInt8} (hpanics : Panics p L)
    (hp : Exact p G) (hf : ∀ a, Panics (f a) (M a)) : Panics (p >>= f) (L+⨆ a, G a*M a) := by
  intro s
  rw [bind_panic,hpanics s,add_mul,Language.mem_add]
  apply or_congr_right
  rw [mem_mul_top]
  constructor
  · rintro ⟨a,u,hread,hpanic⟩
    obtain ⟨x,hx,rfl⟩ := hp.inverts hread
    obtain ⟨y,hy,rest,rfl⟩ := mem_mul_top.mp ((hf a u).mp hpanic)
    exact ⟨x++y,Language.mem_iSup.mpr ⟨a,Language.mem_mul.mpr ⟨x,hx,y,hy,rfl⟩⟩,rest,by simp⟩
  · rintro ⟨z,hz,rest,rfl⟩
    obtain ⟨a,ha⟩ := Language.mem_iSup.mp hz
    obtain ⟨x,hx,y,hy,rfl⟩ := Language.mem_mul.mp ha
    refine ⟨a,y++rest,?_,(hf a _).mpr (mem_mul_top.mpr ⟨y,hy,rest,rfl⟩)⟩
    rw [List.append_assoc]
    exact hp.reads a x hx _

/-- The same when the first part cannot panic. -/
theorem Panics.after {M : A → Language UInt8} (hfree : PanicFree p) (hp : Exact p G)
    (hf : ∀ a, Panics (f a) (M a)) : Panics (p >>= f) (⨆ a, G a*M a) := by
  have h := hfree.panics.bind hp hf
  rwa [zero_add] at h

/-- And what follows does not depend on the value. -/
theorem Panics.after_any {M : Language UInt8} (hfree : PanicFree p) (hp : Exact p G)
    (hf : ∀ a, Panics (f a) M) : Panics (p >>= f) ((⨆ a, G a)*M) := by
  rw [Language.iSup_mul]
  exact Panics.after hfree hp hf

/-- Nothing is added by a part which cannot panic. -/
theorem Panics.bind_free {L : Language UInt8} (hpanics : Panics p L) (hf : ∀ a, PanicFree (f a)) :
    Panics (p >>= f) L := by
  intro s
  rw [bind_panic,hpanics s]
  exact or_iff_left fun ⟨a,u,_,h⟩ => hf a u h

theorem iSup_rounds_succ (M L : Language UInt8) (n : ℕ) :
    ⨆ k : Fin (n+1), M^k.val*L = L+M*⨆ k : Fin n, M^k.val*L := by
  rw [Language.mul_iSup]
  ext x
  rw [Language.mem_add,Language.mem_iSup,Language.mem_iSup,Fin.exists_fin_succ]
  simp only [Fin.val_zero,pow_zero,one_mul,Fin.val_succ,pow_succ',mul_assoc]

/-- A loop panics in one of its rounds, behind the values of the earlier ones. -/
theorem Panics.times {L : Language UInt8} (hpanics : Panics p L) (hp : Exact p G) (n : ℕ) :
    Panics (times p n) (⨆ k : Fin n, (⨆ a, G a)^k.val*L) := by
  induction n with
  | zero =>
      intro s
      refine iff_of_false (PanicFree.pure _ s) ?_
      rw [mem_mul_top]
      rintro ⟨x,hx,-⟩
      obtain ⟨k,-⟩ := Language.mem_iSup.mp hx
      exact k.elim0
  | succ n ih =>
      have hrest : ∀ a, Panics (Decode.times p n >>= fun as => Pure.pure (a::as))
          (⨆ k : Fin n, (⨆ a, G a)^k.val*L) := fun a => ih.bind_free fun _ => PanicFree.pure _
      intro s
      rw [Decode.times,hpanics.bind hp hrest s]
      rw [iSup_rounds_succ,← Language.iSup_mul]

/-! ## Pre- and postconditions on the rest of the input -/

/-- From a rest with `P` the decoder does not panic, and what it leaves behind a
value satisfies `Q`. -/
def Triple (P : List UInt8 → Prop) (p : Decode E A) (Q : A → List UInt8 → Prop) : Prop :=
  ∀ s, P s → p s ≠ .error .capacityOverflow ∧ ∀ {a t}, p s = .ok (a,t) → Q a t

variable {P : List UInt8 → Prop} {Q : A → List UInt8 → Prop} {R : B → List UInt8 → Prop}

theorem Triple.pure (h : ∀ s, P s → Q a s) : Triple P (pure a : Decode E A) Q := by
  intro s hs
  refine ⟨PanicFree.pure a s,?_⟩
  intro a t hread
  cases hread
  exact h s hs

theorem Triple.bind (hp : Triple P p Q) (hf : ∀ a, Triple (Q a) (f a) R) :
    Triple P (p >>= f) R := by
  intro s hs
  constructor
  · intro h
    obtain h | ⟨a,u,hread,h⟩ := bind_panic.mp h
    · exact (hp s hs).1 h
    · exact (hf a u ((hp s hs).2 hread)).1 h
  · intro b t h
    obtain ⟨a,u,hread,h⟩ := bind_ok.mp h
    exact (hf a u ((hp s hs).2 hread)).2 h

theorem Triple.fail (e : E) : Triple P (fail e) Q := by
  intro s hs
  refine ⟨PanicFree.fail e s,?_⟩
  intro a t hread
  cases hread

theorem Triple.mapFailed {g : E → F} (hp : Triple P p Q) : Triple P (mapFailed g p) Q := by
  intro s hs
  refine ⟨fun h => (hp s hs).1 (mapFailed_panic.mp h),?_⟩
  intro a t h
  exact (hp s hs).2 (mapFailed_ok.mp h)

/-- The loop rule: the body keeps the invariant. -/
theorem Triple.loop {I : S → List UInt8 → Prop} {body : S → Decode E S}
    (hbody : ∀ st, Triple (I st) (body st) I) (n : ℕ) (st : S) :
    Triple (I st) (loop body n st) I := by
  induction n generalizing st with
  | zero => exact Triple.pure fun s hs => hs
  | succ n ih => exact (hbody st).bind ih

theorem Triple.weaken {Q' : A → List UInt8 → Prop} (hp : Triple P p Q)
    (h : ∀ a s, Q a s → Q' a s) : Triple P p Q' :=
  fun s hs => ⟨(hp s hs).1,fun hread => h _ _ ((hp s hs).2 hread)⟩

/-- From a rest with `P` the decoder fails with errors of `X` only. -/
def FailsOnly (P : List UInt8 → Prop) (p : Decode E A) (X : E → Prop) : Prop :=
  ∀ s, P s → ∀ e, p s = .error (.failed e) → X e

namespace FailsOnly
variable {X : E → Prop}

theorem pure (a : A) : FailsOnly P (pure a : Decode E A) X := by
  intro s _ e h
  cases h

theorem fail {e : E} (h : X e) : FailsOnly P (fail e : Decode E A) X := by
  intro s _ e' he
  cases he
  exact h

theorem item {onError : String → E} {read : List UInt8 → Except String (A × List UInt8)}
    (h : ∀ e, X (onError e)) : FailsOnly P (item onError read) X := by
  intro s _ e he
  unfold Decode.item at he
  split at he
  · cases he
  · cases he
    exact h _

/-- A check fails with its error, or not at all. -/
theorem ensure {c : Prop} [Decidable c] {e : E} (h : ∀ s, P s → ¬c → X e) :
    FailsOnly P (ensure c e) X := by
  intro s hs e' he
  unfold Decode.ensure at he
  split at he
  · cases he
  · rename_i hc
    cases he
    exact h s hs hc

theorem mapFailed {X : F → Prop} {g : E → F} (h : FailsOnly P p fun e => X (g e)) :
    FailsOnly P (mapFailed g p) X := by
  intro s hs e he
  unfold Decode.mapFailed at he
  split at he
  · cases he
  · rename_i hp
    cases he
    exact h s hs _ hp
  · cases he

theorem imp {Y : E → Prop} (h : FailsOnly P p X) (hXY : ∀ e, X e → Y e) : FailsOnly P p Y :=
  fun s hs e he => hXY e (h s hs e he)

theorem bind (hp : FailsOnly P p X) (htriple : Triple P p Q) (hf : ∀ a, FailsOnly (Q a) (f a) X) :
    FailsOnly P (p >>= f) X := by
  intro s hs e he
  obtain hfirst | ⟨a,u,hread,hrest⟩ := bind_failed.mp he
  · exact hp s hs e hfirst
  · exact hf a u ((htriple s hs).2 hread) e hrest

/-- What follows fails only so wherever it starts. -/
theorem bind_any (hp : FailsOnly P p X) (hf : ∀ a, FailsOnly (fun _ => True) (f a) X) :
    FailsOnly P (p >>= f) X := by
  intro s hs e he
  obtain hfirst | ⟨a,u,-,hrest⟩ := bind_failed.mp he
  · exact hp s hs e hfirst
  · exact hf a u trivial e hrest

theorem loop {I : S → List UInt8 → Prop} {body : S → Decode E S}
    (hbody : ∀ st, FailsOnly (I st) (body st) X) (htriple : ∀ st, Triple (I st) (body st) I) (n : ℕ)
    (st : S) : FailsOnly (I st) (loop body n st) X := by
  induction n generalizing st with
  | zero => exact pure st
  | succ n ih => exact (hbody st).bind (htriple st) ih

end FailsOnly

/-- The rest and `k` bytes more fit into memory together: the rest of an input in
memory of which `k` bytes have been read. -/
def Fits (k : ℕ) (s : List UInt8) : Prop := s.length+k ≤ isizeMax

theorem Fits.mono {j k : ℕ} (hjk : j ≤ k) (h : Fits k s) : Fits j s := by
  unfold Fits at h ⊢
  omega

/-- A read which takes at least `size a` bytes. -/
theorem Triple.reads {k : ℕ} {size : A → ℕ} (hfree : PanicFree p)
    (h : ∀ {s a t}, p s = .ok (a,t) → t.length+size a ≤ s.length) :
    Triple (Fits k) p fun a => Fits (k+size a) := by
  intro s hs
  refine ⟨hfree s,?_⟩
  intro a t hread
  have hlen := h hread
  unfold Fits at hs ⊢
  omega

/-- The decoder does not panic, and whatever it reads is not counted. -/
def Keeps (k : ℕ) (p : Decode E A) : Prop := Triple (Fits k) p fun _ => Fits k

namespace Keeps
variable {k : ℕ}

theorem bind (hp : Keeps k p) (hf : ∀ a, Keeps k (f a)) : Keeps k (p >>= f) := Triple.bind hp hf

theorem pure (a : A) : Keeps k (pure a : Decode E A) := Triple.pure fun _ hs => hs

theorem shrinks (hfree : PanicFree p) (h : ∀ {s a t}, p s = .ok (a,t) → t.length ≤ s.length) :
    Keeps k p := by
  intro s hs
  refine ⟨hfree s,?_⟩
  intro a t hread
  have hlen := h hread
  unfold Fits at hs ⊢
  omega

theorem fail (e : E) : Keeps k (fail e : Decode E A) := Triple.fail e

theorem ensure (c : Prop) [Decidable c] (e : E) : Keeps k (ensure c e) :=
  shrinks (PanicFree.ensure c e) fun hread => by rw [(ensure_ok.mp hread).2]

theorem mapFailed {g : E → F} (hp : Keeps k p) : Keeps k (mapFailed g p) := Triple.mapFailed hp

theorem times (hp : Keeps k p) (n : ℕ) : Keeps k (times p n) := by
  induction n with
  | zero => exact Keeps.pure []
  | succ n ih => exact hp.bind fun a => ih.bind fun as => Keeps.pure (a::as)

theorem loop {body : S → Decode E S} (hbody : ∀ st, Keeps k (body st)) (n : ℕ) (st : S) :
    Keeps k (loop body n st) :=
  Triple.loop (I := fun _ => Fits k) hbody n st

/-- What a read took may be forgotten. -/
theorem forget {size : A → ℕ} (h : Triple (Fits k) p fun a => Fits (k+size a)) : Keeps k p :=
  h.weaken fun _ _ => Fits.mono (Nat.le_add_right k _)

/-- As many bytes as have been read can be reserved. -/
theorem withCapacity {count : ℕ} (h : count ≤ k) :
    Keeps k (withCapacity 1 count : Decode E Unit) := by
  intro s hs
  unfold Fits at hs
  constructor
  · rw [ne_eq,withCapacity_panic]
    omega
  · intro u t hread
    obtain ⟨-,rfl⟩ := withCapacity_ok.mp hread
    exact hs

end Keeps

end Decode
end OmegaHarness.ByteDecoders
