import Mathlib.Tactic

/-!
# Fallible steps

Inversion of sequenced checks: a chain of fallible steps succeeded exactly when
every step did, each on the results of those before it.
-/
namespace OmegaHarness.FallibleSteps

variable {E A B : Type}

theorem ne_error_of_ok {x : Except E A} {a : A} (h : x = .ok a) (e : E) : x ≠ .error e := by
  rw [h]
  intro heq
  cases heq

theorem bind_ok {x : Except E A} {f : A → Except E B} {b : B} :
    x.bind f = .ok b ↔ ∃ a, x = .ok a ∧ f a = .ok b := by
  cases x with
  | ok a => simp [Except.bind]
  | error e => simp [Except.bind]

/-- A check returns nothing but its verdict. -/
theorem check_bind_ok {x : Except E Unit} {f : Unit → Except E B} {b : B} :
    x.bind f = .ok b ↔ x = .ok () ∧ f () = .ok b := by
  cases x with
  | ok a => simp [Except.bind]
  | error e => simp [Except.bind]

/-- A guard passes exactly when its condition for refusal fails. -/
theorem guard_ok {c : Prop} [Decidable c] {e : E} {u : Unit} :
    (if c then .error e else .ok () : Except E Unit) = .ok u ↔ ¬c := by
  by_cases h : c
  · simp [h]
  · simp [h]

theorem map_ok {x : Except E A} {f : A → B} {b : B} :
    x.map f = .ok b ↔ ∃ a, x = .ok a ∧ b = f a := by
  cases x with
  | ok a => simp [Except.map,eq_comm]
  | error e => simp [Except.map]

theorem map_error {x : Except E A} {f : A → B} {e : E} : x.map f = .error e ↔ x = .error e := by
  cases x with
  | ok a => simp [Except.map]
  | error e => simp [Except.map]

theorem mapError_ok {x : Except E A} {f : E → B} {a : A} : x.mapError f = .ok a ↔ x = .ok a := by
  cases x with
  | ok a => simp [Except.mapError]
  | error e => simp [Except.mapError]

/-- A loop over a list succeeded exactly when each of its steps did. -/
theorem mapM_ok {f : A → Except E B} {xs : List A} {ys : List B} :
    xs.mapM f = .ok ys ↔ List.Forall₂ (fun a b => f a = .ok b) xs ys := by
  induction xs generalizing ys with
  | nil =>
      rw [List.mapM_nil,List.forall₂_nil_left_iff]
      constructor
      · intro h
        cases h
        rfl
      · intro h
        rw [h]
        rfl
  | cons x xs ih =>
      rw [List.mapM_cons,List.forall₂_cons_left_iff]
      constructor
      · intro h
        rcases bind_ok.mp h with ⟨y,hy,hrest⟩
        rcases bind_ok.mp hrest with ⟨rest,htail,heq⟩
        cases heq
        exact ⟨y,rest,hy,ih.mp htail,rfl⟩
      · intro h
        rcases h with ⟨y,rest,hy,htail,rfl⟩
        exact bind_ok.mpr ⟨y,hy,bind_ok.mpr ⟨rest,ih.mpr htail,rfl⟩⟩

theorem mapM_mem_ok {f : A → Except E B} {xs : List A} {ys : List B} (h : xs.mapM f = .ok ys) {x : A}
    (hx : x ∈ xs) : ∃ y, f x = .ok y := by
  induction mapM_ok.mp h with
  | nil => exact (List.not_mem_nil hx).elim
  | cons hhead hrest ih =>
      rcases List.mem_cons.mp hx with rfl | hx
      · exact ⟨_,hhead⟩
      · exact ih (mapM_ok.mpr hrest) hx

theorem mapM_image_ok {f : A → Except E B} {xs : List A} {ys : List B} (h : xs.mapM f = .ok ys) {y : B}
    (hy : y ∈ ys) : ∃ x ∈ xs, f x = .ok y := by
  induction mapM_ok.mp h with
  | nil => exact (List.not_mem_nil hy).elim
  | cons hhead hrest ih =>
      rcases List.mem_cons.mp hy with rfl | hy
      · exact ⟨_,List.mem_cons_self,hhead⟩
      · obtain ⟨x,hx,hok⟩ := ih (mapM_ok.mpr hrest) hy
        exact ⟨x,List.mem_cons_of_mem _ hx,hok⟩

theorem mapM_exists_ok {f : A → Except E B} {xs : List A} (h : ∀ x ∈ xs, ∃ y, f x = .ok y) :
    ∃ ys, xs.mapM f = .ok ys := by
  induction xs with
  | nil => exact ⟨[],rfl⟩
  | cons x xs ih =>
      obtain ⟨y,hy⟩ := h x List.mem_cons_self
      obtain ⟨ys,hys⟩ := ih fun a ha => h a (List.mem_cons_of_mem x ha)
      exact ⟨y::ys,mapM_ok.mpr (List.Forall₂.cons hy (mapM_ok.mp hys))⟩

/-- A pure last step of a loop's body can be taken after the loop. -/
theorem mapM_map {C : Type} (f : A → Except E B) (g : B → C) (xs : List A) :
    xs.mapM (fun a => (f a).map g) = (xs.mapM f).map (List.map g) := by
  induction xs with
  | nil => rfl
  | cons x xs ih =>
      rw [List.mapM_cons,List.mapM_cons,ih]
      cases f x with
      | error e => rfl
      | ok y =>
          cases xs.mapM f with
          | error e => rfl
          | ok ys => rfl

/-- Two loops over one list: the results of one element, and their keys when the keys of
all results agree. -/
theorem mapM_pair_ok {C : Type} {f g : A → Except E B} {xs : List A} {ys zs : List B} (key : B → C)
    (hf : xs.mapM f = .ok ys) (hg : xs.mapM g = .ok zs) {x : A} (hx : x ∈ xs) :
    ∃ y z, f x = .ok y ∧ g x = .ok z ∧ (ys.map key = zs.map key → key y = key z) := by
  rw [mapM_ok] at hf hg
  induction hf generalizing zs with
  | nil => exact (List.not_mem_nil hx).elim
  | cons hhead _ ih =>
      rcases List.forall₂_cons_left_iff.mp hg with ⟨z,rest,hz,hrest,rfl⟩
      rcases List.mem_cons.mp hx with rfl | hx
      · exact ⟨_,z,hhead,hz,fun hkeys => (List.cons.inj hkeys).1⟩
      · rcases ih hrest hx with ⟨y',z',hy',hz',hkey⟩
        exact ⟨y',z',hy',hz',fun hkeys => hkey (List.cons.inj hkeys).2⟩

end OmegaHarness.FallibleSteps
