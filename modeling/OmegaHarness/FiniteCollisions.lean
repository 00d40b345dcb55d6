import Mathlib.Tactic

/-!
# Collisions between two finite lists of inputs

Every function into a finite type has two inputs with one image, so the bare
existence of a collision says nothing. Here both inputs must lie in lists which
the caller writes down, and a search over those lists returns the pair.
-/
namespace OmegaHarness.FiniteCollisions

variable {X Y : Type}

/-- Two different inputs with one image, one from each list. -/
def Collision (f : X → Y) (xs ys : List X) : Prop :=
  ∃ a ∈ xs, ∃ b ∈ ys, a ≠ b ∧ f a = f b

theorem Collision.mono {f : X → Y} {xs ys us vs : List X} (h : Collision f xs ys)
    (hx : xs ⊆ us) (hy : ys ⊆ vs) : Collision f us vs := by
  obtain ⟨a,ha,b,hb,hne,himage⟩ := h
  exact ⟨a,hx ha,b,hy hb,hne,himage⟩

theorem Collision.symm {f : X → Y} {xs ys : List X} (h : Collision f xs ys) :
    Collision f ys xs := by
  obtain ⟨a,ha,b,hb,hne,himage⟩ := h
  exact ⟨b,hb,a,ha,hne.symm,himage.symm⟩

/-- A collision of the images of two lists under an injective encoding. -/
theorem Collision.map {Z : Type} {f : X → Y} {e : Z → X} (he : Function.Injective e)
    {xs ys : List Z} (h : Collision (fun z => f (e z)) xs ys) :
    Collision f (xs.map e) (ys.map e) := by
  obtain ⟨a,ha,b,hb,hne,himage⟩ := h
  exact ⟨e a,List.mem_map_of_mem ha,e b,List.mem_map_of_mem hb,fun h => hne (he h),himage⟩

/-- Equal images of two listed inputs: either the inputs are equal or they are
the collision. -/
theorem eq_or_collision {f : X → Y} {xs ys : List X} {a b : X} (ha : a ∈ xs) (hb : b ∈ ys)
    (himage : f a = f b) : a = b ∨ Collision f xs ys := by
  by_cases h : a = b
  · exact Or.inl h
  · exact Or.inr ⟨a,ha,b,hb,h,himage⟩

/-- Lists with equal images are equal, or two of their elements are the collision. -/
theorem map_eq_or_collision {f : X → Y} {xs ys : List X} (h : xs.map f = ys.map f) :
    xs = ys ∨ Collision f xs ys := by
  induction xs generalizing ys with
  | nil => exact Or.inl (List.map_eq_nil_iff.mp h.symm).symm
  | cons x xs ih =>
      cases ys with
      | nil => cases h
      | cons y ys =>
          rw [List.map_cons,List.map_cons,List.cons.injEq] at h
          rcases eq_or_collision List.mem_cons_self List.mem_cons_self h.1 with hhead | hcol
          · rcases ih h.2 with htail | hcol
            · exact Or.inl (by rw [hhead,htail])
            · exact Or.inr (hcol.mono (List.subset_cons_self x xs) (List.subset_cons_self y ys))
          · exact Or.inr hcol

/-- Two different inputs of one list with one image. -/
def CollisionAmong (f : X → Y) (xs : List X) : Prop := Collision f xs xs

theorem CollisionAmong.mono {f : X → Y} {xs us : List X} (h : CollisionAmong f xs) (hx : xs ⊆ us) :
    CollisionAmong f us :=
  Collision.mono h hx hx

theorem Collision.among {f : X → Y} {xs ys : List X} (h : Collision f xs ys) :
    CollisionAmong f (xs++ys) :=
  h.mono (List.subset_append_left _ _) (List.subset_append_right _ _)

/-- Pairwise different images leave no collision, however often an input is listed. -/
theorem not_collisionAmong_of_images {Z : Type} {f : X → Y} (key : Y → Z) {xs us : List X}
    (hx : xs ⊆ us) (h : (us.map fun x => key (f x)).Nodup) : ¬CollisionAmong f xs := by
  intro hcol
  obtain ⟨a,ha,b,hb,hne,himage⟩ := hcol
  exact hne (List.inj_on_of_nodup_map h (hx ha) (hx hb) (congrArg key himage))

variable [DecidableEq X] [DecidableEq Y]

/-- The search which exhibits the pair. -/
def exhibit (f : X → Y) (xs ys : List X) : Option (X × X) :=
  (xs.product ys).find? fun p => p.1 ≠ p.2 ∧ f p.1 = f p.2

theorem exhibit_some {f : X → Y} {xs ys : List X} {p : X × X} (h : exhibit f xs ys = some p) :
    p.1 ∈ xs ∧ p.2 ∈ ys ∧ p.1 ≠ p.2 ∧ f p.1 = f p.2 := by
  have hp := List.find?_some h
  have hm := List.mem_of_find?_eq_some h
  simp only [ne_eq,decide_eq_true_eq] at hp
  exact ⟨(List.mem_product.mp hm).1,(List.mem_product.mp hm).2,hp⟩

/-- The search succeeds exactly when there is a collision to exhibit. -/
theorem exhibit_isSome (f : X → Y) (xs ys : List X) :
    (exhibit f xs ys).isSome ↔ Collision f xs ys := by
  unfold exhibit Collision
  rw [List.find?_isSome]
  constructor
  · rintro ⟨p,hp,hcol⟩
    obtain ⟨ha,hb⟩ := List.mem_product.mp hp
    exact ⟨p.1,ha,p.2,hb,by simpa using hcol⟩
  · rintro ⟨a,ha,b,hb,hcol⟩
    exact ⟨(a,b),List.mem_product.mpr ⟨ha,hb⟩,by simpa using hcol⟩

instance (f : X → Y) (xs ys : List X) : Decidable (Collision f xs ys) :=
  decidable_of_iff _ (exhibit_isSome f xs ys)

instance (f : X → Y) (xs : List X) : Decidable (CollisionAmong f xs) :=
  inferInstanceAs (Decidable (Collision f xs xs))

end OmegaHarness.FiniteCollisions
