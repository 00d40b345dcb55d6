import OmegaHarness.ByteDecoders

/-!
# One decoder seen through another

Two decoders may walk over the same bytes and keep different things. Here one of them
reads whole values, and the other is described by what it makes of such a value: nothing,
if it refuses it, or else what it keeps (`Views`). A loop which folds into a state is in
this way seen through the plain reading of its records.

A check in the way splits the values into those which pass and those which do not. A
check that what came before has already settled is no check (`Views.passes`).
-/
namespace OmegaHarness.DecoderViews
open ByteDecoders Decode

variable {E F A B C D S : Type}

theorem bind_apply (p : Decode E A) (f : A → Decode E B) (s : List UInt8) :
    (p >>= f) s = match p s with
      | .ok (a,t) => f a t
      | .error e => .error e := rfl

instance : LawfulMonad (Decode E) := LawfulMonad.mk' (Decode E)
  (fun p => by
    funext s
    change (match p s with | .ok (a,t) => .ok (a,t) | .error e => .error e) = p s
    cases p s <;> rfl)
  (fun _ _ => rfl)
  (fun p f g => by
    funext s
    simp only [bind_apply]
    cases p s <;> rfl)

variable {P Q : List UInt8 → Prop} {p : Decode E A} {f : A → Decode E C}

theorem bind_congr_ok {f g : A → Decode E C} {s : List UInt8}
    (h : ∀ a t, p s = .ok (a,t) → f a t = g a t) : (p >>= f) s = (p >>= g) s := by
  rw [bind_apply,bind_apply]
  cases hp : p s with
  | error e => rfl
  | ok r => exact h r.1 r.2 hp

/-- A reservation which does not fail does nothing. -/
theorem withCapacity_bind {size count : ℕ} {f : Unit → Decode E C} (h : count*size ≤ isizeMax) :
    (withCapacity size count >>= f) = f () := by
  funext s
  rw [bind_apply,withCapacity_ok.mpr ⟨h,rfl⟩]

/-- Every value which the decoder reads satisfies `R`. -/
def Yields (p : Decode E A) (R : A → Prop) : Prop := ∀ s a t, p s = .ok (a,t) → R a

theorem Yields.pure {R : A → Prop} {a : A} (h : R a) : Yields (Pure.pure a : Decode E A) R := by
  intro s b t hread
  cases hread
  exact h

theorem Yields.bind {R : C → Prop} (h : ∀ a, Yields (f a) R) : Yields (p >>= f) R := by
  intro s c t hread
  obtain ⟨a,u,-,hrest⟩ := bind_ok.mp hread
  exact h a u c t hrest

/-- A decoder which reads nothing and passes exactly when `c` holds. -/
def Checks (p : Decode E Unit) (c : Prop) : Prop := ∀ s u t, p s = .ok (u,t) ↔ c ∧ s = t

theorem checks_ensure (c : Prop) [Decidable c] (e : E) : Checks (ensure c e) c :=
  fun _ _ _ => ensure_ok

theorem checks_withCapacity (size count : ℕ) :
    Checks (withCapacity size count : Decode E Unit) (count*size ≤ isizeMax) :=
  fun _ _ _ => withCapacity_ok

/-- From a rest with `P`, the decoder `q` reads what `p` reads and `view` accepts. -/
def Views (P : List UInt8 → Prop) (q : Decode F B) (p : Decode E A) (view : A → Option B) : Prop :=
  ∀ s, P s → ∀ b t, q s = .ok (b,t) ↔ ∃ a, p s = .ok (a,t) ∧ view a = some b

namespace Views
variable {q : Decode F B} {g : B → Decode F D} {v : A → Option B} {view : C → Option D}

theorem refl (p : Decode E A) : Views P p p some := by
  intro s _ b t
  constructor
  · intro h
    exact ⟨b,h,rfl⟩
  · rintro ⟨a,h,ha⟩
    cases ha
    exact h

theorem pure {a : A} {b : B} (h : v a = some b) :
    Views P (Pure.pure b : Decode F B) (Pure.pure a : Decode E A) v := by
  intro s _ b' t
  constructor
  · intro hread
    cases hread
    exact ⟨a,rfl,h⟩
  · rintro ⟨a',hread,hv⟩
    cases hread
    rw [h] at hv
    cases hv
    rfl

theorem mono (h : Views P q p v) (hPQ : ∀ s, Q s → P s) : Views Q q p v :=
  fun s hs => h s (hPQ s hs)

theorem congr {v' : A → Option B} (h : Views P q p v) (hv : ∀ a, v a = v' a) : Views P q p v' := by
  have heq : v = v' := funext hv
  rw [← heq]
  exact h

theorem mapFailed {E' : Type} {e : F → E'} (h : Views P q p v) : Views P (mapFailed e q) p v :=
  fun s hs b t => mapFailed_ok.trans (h s hs b t)

theorem of_mapFailed {E' : Type} {e : E → E'} (h : Views P q p v) :
    Views P q (Decode.mapFailed e p) v := by
  intro s hs b t
  rw [h s hs b t]
  simp only [mapFailed_ok]

/-- The first decoders are compared and then what follows them. A value which the first
one refuses must be refused by the view of the whole as well. -/
theorem bind {R : B → List UInt8 → Prop} (hq : Views P q p v) (htriple : Triple P q R)
    (hyes : ∀ a b, v a = some b → Views (R b) (g b) (f a) view)
    (hno : ∀ a, v a = none → Yields (f a) (view · = none)) :
    Views P (q >>= g) (p >>= f) view := by
  intro s hs d t
  rw [bind_ok]
  constructor
  · rintro ⟨b,u,hread,hrest⟩
    obtain ⟨a,hp,hv⟩ := (hq s hs b u).mp hread
    obtain ⟨c,hc,hview⟩ := (hyes a b hv u ((htriple s hs).2 hread) d t).mp hrest
    exact ⟨c,bind_ok.mpr ⟨a,u,hp,hc⟩,hview⟩
  · rintro ⟨c,hread,hview⟩
    obtain ⟨a,u,hp,hc⟩ := bind_ok.mp hread
    cases hv : v a with
    | none =>
        rw [hno a hv u c t hc] at hview
        cases hview
    | some b =>
        have hb := (hq s hs b u).mpr ⟨a,hp,hv⟩
        exact ⟨b,u,hb,(hyes a b hv u ((htriple s hs).2 hb) d t).mpr ⟨c,hc,hview⟩⟩

/-- Both sides read the same value. -/
theorem bind_same {q : Decode F A} {g : A → Decode F D} {R : A → List UInt8 → Prop}
    (hq : Views P q p some) (htriple : Triple P q R) (hf : ∀ a, Views (R a) (g a) (f a) view) :
    Views P (q >>= g) (p >>= f) view := by
  apply bind hq htriple
  · intro a b hab
    cases hab
    exact hf a
  · intro a ha
    cases ha

/-- One side or the other puts its value into another form at the end. -/
theorem bind_pure (hq : Views P q p v) (g : B → D) :
    Views P (q >>= fun b => Pure.pure (g b)) p fun a => (v a).map g := by
  intro s hs d t
  rw [bind_ok]
  constructor
  · rintro ⟨b,u,hread,hpure⟩
    cases hpure
    obtain ⟨a,ha,hv⟩ := (hq s hs b _).mp hread
    exact ⟨a,ha,congrArg (Option.map g) hv⟩
  · rintro ⟨a,ha,hmap⟩
    obtain ⟨b,hv,rfl⟩ := Option.map_eq_some_iff.mp hmap
    exact ⟨b,t,(hq s hs b t).mpr ⟨a,ha,hv⟩,rfl⟩

theorem of_bind_pure {q : Decode F D} (w : A → C) (hq : Views P q p fun a => view (w a)) :
    Views P q (p >>= fun a => Pure.pure (w a)) view := by
  intro s hs d t
  rw [hq s hs d t]
  constructor
  · rintro ⟨a,ha,hview⟩
    exact ⟨w a,bind_ok.mpr ⟨a,t,ha,rfl⟩,hview⟩
  · rintro ⟨c,hc,hview⟩
    obtain ⟨a,u,ha,hpure⟩ := bind_ok.mp hc
    cases hpure
    exact ⟨a,ha,hview⟩

/-- One side makes a check. -/
theorem check {q : Decode F Unit} {g : Unit → Decode F B} {c : Prop} (hq : Checks q c)
    (hyes : c → Views P (g ()) p v) (hno : ¬c → Yields p (v · = none)) :
    Views P (q >>= g) p v := by
  intro s hs b t
  rw [bind_ok]
  constructor
  · rintro ⟨_,u,hcheck,hrest⟩
    obtain ⟨hc,rfl⟩ := (hq _ _ _).mp hcheck
    exact (hyes hc s hs b t).mp hrest
  · rintro ⟨a,hread,hv⟩
    by_cases hc : c
    · exact ⟨(),s,(hq _ _ _).mpr ⟨hc,rfl⟩,(hyes hc s hs b t).mpr ⟨a,hread,hv⟩⟩
    · rw [hno hc s a t hread] at hv
      cases hv

/-- Both sides make the same check. -/
theorem check_both {p : Decode E Unit} {q : Decode F Unit} {f : Unit → Decode E C}
    {g : Unit → Decode F D} {c : Prop} (hq : Checks q c) (hp : Checks p c)
    (hf : c → Views P (g ()) (f ()) view) : Views P (q >>= g) (p >>= f) view := by
  apply check hq
  · intro hc s hs d t
    rw [hf hc s hs d t]
    have hpass : ∀ a, (p >>= f) s = .ok (a,t) ↔ f () s = .ok (a,t) := by
      intro a
      rw [bind_ok]
      constructor
      · rintro ⟨_,u,hcheck,hrest⟩
        obtain ⟨-,rfl⟩ := (hp _ _ _).mp hcheck
        exact hrest
      · intro hrest
        exact ⟨(),s,(hp _ _ _).mpr ⟨hc,rfl⟩,hrest⟩
    simp only [hpass]
  · intro hc s a t hread
    obtain ⟨_,u,hcheck,-⟩ := bind_ok.mp hread
    exact (hc ((hp _ _ _).mp hcheck).1).elim

/-- One side fails, and the other reads nothing which its view accepts. -/
theorem fails {e : F} {g : D → Decode F B} (h : Yields p (v · = none)) :
    Views P (Decode.fail e >>= g) p v := by
  intro s _ b t
  constructor
  · intro hread
    cases hread
  · rintro ⟨a,hread,hv⟩
    rw [h s a t hread] at hv
    cases hv

/-- The check is known to pass. -/
theorem passes {q : Decode F Unit} {g : Unit → Decode F B} {c : Prop} (hq : Checks q c)
    (hc : ∀ s, P s → c) (hf : Views P (g ()) p v) : Views P (q >>= g) p v := by
  intro s hs b t
  rw [bind_ok,← hf s hs b t]
  constructor
  · rintro ⟨_,u,hcheck,hrest⟩
    obtain ⟨-,rfl⟩ := (hq _ _ _).mp hcheck
    exact hrest
  · intro hrest
    exact ⟨(),s,(hq _ _ _).mpr ⟨hc s hs,rfl⟩,hrest⟩

theorem times_succ_ok {n : ℕ} {s t : List UInt8} {as : List A} :
    Decode.times p (n+1) s = .ok (as,t) ↔
      ∃ a u, p s = .ok (a,u) ∧ ∃ rest, Decode.times p n u = .ok (rest,t) ∧ as = a::rest := by
  rw [Decode.times,bind_ok]
  constructor
  · rintro ⟨a,u,hread,hrest⟩
    obtain ⟨rest,v,htail,hpure⟩ := bind_ok.mp hrest
    cases hpure
    exact ⟨a,u,hread,rest,htail,rfl⟩
  · rintro ⟨a,u,hread,rest,htail,rfl⟩
    exact ⟨a,u,hread,bind_ok.mpr ⟨rest,t,htail,rfl⟩⟩

/-- A loop is a fold over the records which it goes through. -/
theorem loop {I : S → List UInt8 → Prop} {body : S → Decode F S} {step : S → A → Option S}
    (hbody : ∀ st, Views (I st) (body st) p (step st)) (htriple : ∀ st, Triple (I st) (body st) I)
    (n : ℕ) (st : S) :
    Views (I st) (loop body n st) (times p n) (List.foldlM step st) := by
  induction n generalizing st with
  | zero => exact Views.pure rfl
  | succ n ih =>
      intro s hs final t
      rw [Decode.loop,bind_ok]
      constructor
      · rintro ⟨next,u,hread,hrest⟩
        obtain ⟨a,ha,hstep⟩ := (hbody st s hs next u).mp hread
        obtain ⟨as,has,hfold⟩ := (ih next u ((htriple st s hs).2 hread) final t).mp hrest
        refine ⟨a::as,times_succ_ok.mpr ⟨a,u,ha,as,has,rfl⟩,?_⟩
        rw [List.foldlM_cons,hstep]
        exact hfold
      · rintro ⟨all,hread,hfold⟩
        obtain ⟨a,u,ha,as,has,rfl⟩ := times_succ_ok.mp hread
        rw [List.foldlM_cons] at hfold
        obtain ⟨next,hstep,hfold⟩ := Option.bind_eq_some_iff.mp hfold
        have hnext := (hbody st s hs next u).mpr ⟨a,ha,hstep⟩
        exact ⟨next,u,hnext,(ih next u ((htriple st s hs).2 hnext) final t).mpr ⟨as,has,hfold⟩⟩

/-- A loop which collects records collects the views of them. -/
theorem times (hq : Views P q p v) (htriple : Triple P q fun _ => P) (n : ℕ) :
    Views P (times q n) (times p n) (List.mapM v) := by
  induction n with
  | zero => exact Views.pure rfl
  | succ n ih =>
      intro s hs bs t
      rw [times_succ_ok]
      constructor
      · rintro ⟨b,u,hread,rest,htail,rfl⟩
        obtain ⟨a,ha,hb⟩ := (hq s hs b u).mp hread
        obtain ⟨as,has,hrest⟩ := (ih u ((htriple s hs).2 hread) rest t).mp htail
        refine ⟨a::as,times_succ_ok.mpr ⟨a,u,ha,as,has,rfl⟩,?_⟩
        simp [List.mapM_cons,hb,hrest]
      · rintro ⟨all,hread,hviews⟩
        obtain ⟨a,u,ha,as,has,rfl⟩ := times_succ_ok.mp hread
        rw [List.mapM_cons] at hviews
        obtain ⟨b,hb,hviews⟩ := Option.bind_eq_some_iff.mp hviews
        obtain ⟨rest,hrest,hcons⟩ := Option.bind_eq_some_iff.mp hviews
        cases hcons
        have hfirst := (hq s hs b u).mpr ⟨a,ha,hb⟩
        exact ⟨b,u,hfirst,rest,(ih u ((htriple s hs).2 hfirst) rest t).mpr ⟨as,has,hrest⟩,rfl⟩

end Views

/-! ## Folds and maps with a condition -/

section Conditions
variable {c : A → Prop} [DecidablePred c]

theorem foldlM_guard {h : S → A → S} {as : List A} {st out : S} :
    as.foldlM (fun st a => if c a then some (h st a) else none) st = some out ↔
      (∀ a ∈ as, c a) ∧ as.foldl h st = out := by
  induction as generalizing st with
  | nil => simp
  | cons a as ih =>
      rw [List.foldlM_cons,List.foldl_cons,List.forall_mem_cons]
      by_cases hc : c a
      · rw [if_pos hc]
        simp only [hc,true_and]
        exact ih
      · rw [if_neg hc]
        simp [hc]

theorem mapM_guard {h : A → B} {as : List A} {out : List B} :
    as.mapM (fun a => if c a then some (h a) else none) = some out ↔
      (∀ a ∈ as, c a) ∧ as.map h = out := by
  induction as generalizing out with
  | nil => simp
  | cons a as ih =>
      rw [List.mapM_cons,List.map_cons,List.forall_mem_cons]
      by_cases hc : c a
      · rw [if_pos hc,Option.bind_eq_bind,Option.bind_some]
        constructor
        · intro hmap
          obtain ⟨rest,hrest,hcons⟩ := Option.bind_eq_some_iff.mp hmap
          cases hcons
          obtain ⟨hall,rfl⟩ := ih.mp hrest
          exact ⟨⟨hc,hall⟩,rfl⟩
        · rintro ⟨⟨-,hall⟩,rfl⟩
          exact Option.bind_eq_some_iff.mpr ⟨_,ih.mpr ⟨hall,rfl⟩,rfl⟩
      · rw [if_neg hc]
        simp [hc]

/-- The key lies above the last one, if there was one. -/
def Above (last : Option (List UInt8)) (key : List UInt8) : Prop := ∀ before ∈ last, before < key

instance (last : Option (List UInt8)) (key : List UInt8) : Decidable (Above last key) :=
  match last with
  | none => .isTrue fun _ h => by cases h
  | some before => decidable_of_iff (before < key) (by simp [Above])

/-- A fold which remembers the last key, wants each key above it and collects what the
values give. -/
theorem foldlM_ascending {key : A → List UInt8} {h : A → List B} {as : List A}
    {last : Option (List UInt8)} {acc out : List B} :
    (as.foldlM (fun st a =>
        if Above st.1 (key a) ∧ c a then some (some (key a),st.2++h a) else none) (last,acc)).map
        Prod.snd = some out ↔
      ((∀ a ∈ as, Above last (key a)) ∧ (as.map key).Pairwise (· < ·) ∧ ∀ a ∈ as, c a) ∧
        acc++as.flatMap h = out := by
  induction as generalizing last acc with
  | nil => simp
  | cons a as ih =>
      rw [List.foldlM_cons,List.map_cons,List.pairwise_cons,List.forall_mem_cons,
        List.forall_mem_cons,List.flatMap_cons]
      by_cases hgood : Above last (key a) ∧ c a
      · rw [if_pos hgood]
        refine Iff.trans ih ?_
        -- what is above the new key is above the old one as well
        have habove : (∀ b ∈ as, Above (some (key a)) (key b)) ↔
            (∀ b ∈ as, Above last (key b)) ∧ ∀ k ∈ as.map key, key a < k := by
          simp only [Above,Option.mem_some,forall_eq',List.forall_mem_map]
          constructor
          · intro hall
            exact ⟨fun b hb before hbefore =>
              List.lt_trans (hgood.1 before hbefore) (hall b hb),hall⟩
          · intro hall
            exact hall.2
        rw [habove,List.append_assoc]
        simp only [hgood,true_and]
        tauto
      · rw [if_neg hgood]
        simp only [Option.bind_eq_bind,Option.bind_none,Option.map_none,reduceCtorEq,false_iff]
        rintro ⟨⟨⟨habove,-⟩,-,hc,-⟩,-⟩
        exact hgood ⟨habove,hc⟩

/-- Started without a last key, it only wants the keys to ascend. -/
theorem foldlM_ascending_start {key : A → List UInt8} {h : A → List B} (as : List A)
    (acc : List B) :
    (as.foldlM (fun st a =>
        if Above st.1 (key a) ∧ c a then some (some (key a),st.2++h a) else none) (none,acc)).map
        Prod.snd =
      if (as.map key).Pairwise (· < ·) ∧ ∀ a ∈ as, c a then some (acc++as.flatMap h) else none := by
  have hnone : ∀ a ∈ as, Above none (key a) := fun _ _ _ hmem => by cases hmem
  apply Option.ext
  intro out
  rw [foldlM_ascending,and_iff_right hnone,
    Option.ite_none_right_eq_some,Option.some.injEq]

end Conditions

end OmegaHarness.DecoderViews
