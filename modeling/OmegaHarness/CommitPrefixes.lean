import OmegaHarness.FaultStreams

/-!
# Crashes between commits

An operation which commits a list of steps one after the other leaves, when the
process crashes somewhere inside it, the database after some of the first of
them. The list of a sequence of operations is the concatenation of their lists,
and a process which is gone before an operation starts leaves everything alone.
-/
namespace OmegaHarness.CommitPrefixes
open FaultyTransactions FaultStreams
variable {C D W F E A B : Type} (perform : C → D → D)

def performAll (commits : List C) (db : D) : D := commits.foldl (fun db c => perform c db) db

theorem performAll_append (first second : List C) (db : D) :
    performAll perform (first++second) db =
      performAll perform second (performAll perform first db) := List.foldl_append

/-- The first commits of an operation are the first commits of what it begins. -/
theorem performAll_take_append (first second : List C) (k : ℕ) (db : D) :
    performAll perform (first.take k) db =
      performAll perform ((first++second).take (min k first.length)) db := by
  rw [List.take_append_of_le_length (min_le_right _ _),← List.take_eq_take_min]

/-- A crash inside the operation leaves a prefix of its commits, and nothing less
than all of them lets it succeed on a living process. -/
structure Commits (op : Op D W F E A) (commits : List C) : Prop where
  draws : Draws op
  dead : ∀ s, Dead s.faults → (op.run s).2.db = s.db
  crash : ∀ s, Crashing s.faults → ∃ k, (op.run s).2.db = performAll perform (commits.take k) s.db ∧
    ∀ a t, op.run s = (.ok a,t) → commits.length ≤ k ∨ Dead t.faults

variable {perform}

theorem commits_ofExcept (x : Except E A) : Commits perform (ofExcept x : Op D W F E A) [] where
  draws := draws_ofExcept x
  dead _ _ := rfl
  crash _ _ := ⟨0,rfl,fun _ _ _ => Or.inl le_rfl⟩

theorem commits_pure (a : A) : Commits perform (pure a : Op D W F E A) [] := commits_ofExcept (.ok a)

theorem commits_statement {inject : F → E} {f : D → Except E (A × D)} {c : C}
    (h : ∀ db a db', f db = .ok (a,db') → db' = perform c db) :
    Commits perform (statement inject f : Op D W F E A) [c] where
  draws := draws_statement f
  dead s hdead := by
    rcases Option.ne_none_iff_exists'.mp (hdead 0) with ⟨x,hx⟩
    rw [statement_run]
    simp only [hx]
    rfl
  crash s _ := by
    rw [statement_run]
    cases s.faults 0 with
    | some x => exact ⟨0,rfl,fun a t hrun => by cases hrun⟩
    | none =>
        cases hf : f s.db with
        | error e => exact ⟨0,rfl,fun a t hrun => by cases hrun⟩
        | ok result =>
            refine ⟨1,?_,fun _ _ _ => Or.inl le_rfl⟩
            exact h s.db result.1 result.2 hf

theorem commits_mapFailure {E' : Type} {translate : E → E'} {op : Op D W F E A} {commits : List C}
    (hop : Commits perform op commits) : Commits perform (mapFailure translate op) commits where
  draws := hop.draws
  dead := hop.dead
  crash s hcrash := by
    rcases hop.crash s hcrash with ⟨k,hdb,hall⟩
    exact ⟨k,hdb,fun a t hrun => hall a t (mapFailure_ok.mp hrun)⟩

theorem commits_bind {op : Op D W F E A} {f : A → Op D W F E B} {first second : List C}
    (hop : Commits perform op first) (hf : ∀ a, Commits perform (f a) second) :
    Commits perform (op >>= f) (first++second) where
  draws := draws_bind hop.draws fun a => (hf a).draws
  dead s hdead := by
    rcases hop.draws s with ⟨-,k,hk⟩
    have hdb := hop.dead s hdead
    rw [bind_run]
    cases hrun : op.run s with
    | mk r t =>
      rw [hrun] at hk hdb
      cases r with
      | error e => exact hdb
      | ok a =>
          have hgone : Dead t.faults := hk ▸ hdead.later k
          exact ((hf a).dead t hgone).trans hdb
  crash s hcrash := by
    rcases hop.crash s hcrash with ⟨k,hdb,hall⟩
    rcases hop.draws s with ⟨-,j,hj⟩
    have hshort := performAll_take_append perform first second k s.db
    rw [bind_run]
    cases hrun : op.run s with
    | mk r t =>
      rw [hrun] at hdb hj
      cases r with
      | error e =>
          exact ⟨_,hdb.trans hshort,fun a u h => by cases h⟩
      | ok a =>
          rcases hall a t hrun with hlength | hgone
          · have halive : Crashing t.faults := hj ▸ hcrash.later j
            rcases (hf a).crash t halive with ⟨i,hdb',hall'⟩
            rw [List.take_of_length_le hlength] at hdb
            refine ⟨first.length+i,?_,?_⟩
            · rw [List.take_length_add_append,performAll_append]
              exact hdb'.trans (congrArg _ hdb)
            · intro b u hu
              rcases hall' b u hu with h | h
              · left
                rw [List.length_append]
                exact Nat.add_le_add_left h _
              · exact Or.inr h
          · rcases (hf a).draws t with ⟨-,m,hm⟩
            refine ⟨_,((hf a).dead t hgone).trans (hdb.trans hshort),?_⟩
            intro b u hu
            right
            dsimp only at hu
            rw [hu] at hm
            exact hm ▸ hgone.later m

/-- A success without faults has made all the commits. -/
theorem Commits.calm {op : Op D W F E A} {commits : List C} (h : Commits perform op commits) {db : D}
    {w : W} {a : A} {t : Session D W F} (hrun : op.run (calmAt db w) = (.ok a,t)) :
    t = calmAt (performAll perform commits db) w := by
  have hcalm : Crashing (calmAt (F := F) db w).faults := fun _ hn => (hn rfl).elim
  rcases h.crash (calmAt db w) hcalm with ⟨k,hdb,hall⟩
  have hstate := h.draws.calm db w
  rw [hrun] at hdb hstate
  rcases hall a t hrun with hlength | hgone
  · rw [List.take_of_length_le hlength] at hdb
    exact hstate.trans (congrArg (fun db => calmAt db w) hdb)
  · exact (hgone 0 (congrFun (congrArg Session.faults hstate) 0)).elim

/-- A failed computation commits nothing, whatever was to follow. -/
theorem commits_ofExcept_bind {x : Except E A} {f : A → Op D W F E B} {commits : List C}
    (h : ∀ a, x = .ok a → Commits perform (f a) commits) :
    Commits perform (ofExcept x >>= f) commits := by
  cases x with
  | ok a => exact h a rfl
  | error e =>
      exact ⟨fun _ => ⟨rfl,0,rfl⟩,fun _ _ => rfl,fun _ _ => ⟨0,rfl,fun _ _ hrun => by cases hrun⟩⟩

end OmegaHarness.CommitPrefixes
