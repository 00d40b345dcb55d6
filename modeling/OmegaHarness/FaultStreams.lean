import OmegaHarness.FaultyTransactions

/-!
# How operations use up the fault stream

An operation draws its faults in order, so what it leaves of the stream is the
stream from some point on. A success takes a fixed number of statements: it
happens exactly when none of them is struck, and a struck statement ends it.
A crash is a stream which never recovers.
-/
namespace OmegaHarness.FaultStreams
open FaultyTransactions
variable {D W F E A B : Type}

/-- The stream after a number of statements. -/
def later (faults : ℕ → Option F) (k : ℕ) : ℕ → Option F := fun n => faults (n+k)

theorem later_later (faults : ℕ → Option F) (j k : ℕ) :
    later (later faults j) k = later faults (j+k) := by
  funext n
  rw [later,later,later,Nat.add_assoc,Nat.add_comm k j]

theorem later_head (faults : ℕ → Option F) (k : ℕ) : later faults k 0 = faults k :=
  congrArg faults (Nat.zero_add k)

theorem later_sub (faults : ℕ → Option F) {k n : ℕ} (h : n ≤ k) : later faults n (k-n) = faults k := by
  rw [later,Nat.sub_add_cancel h]

theorem struck_or_quiet (faults : ℕ → Option F) (n : ℕ) :
    (∃ k < n, faults k ≠ none) ∨ ∀ k < n, faults k = none := by
  by_cases h : ∃ k < n, faults k ≠ none
  · exact Or.inl h
  · right
    intro k hk
    by_contra hne
    exact h ⟨k,hk,hne⟩

/-- The operation takes its faults in order and leaves the world outside alone. -/
def Draws (op : Op D W F E A) : Prop :=
  ∀ s, (op.run s).2.world = s.world ∧ ∃ k, (op.run s).2.faults = later s.faults k

section Draws
variable {inject : F → E}

theorem draws_pure (a : A) : Draws (pure a : Op D W F E A) := fun _ => ⟨rfl,0,rfl⟩

theorem draws_ofExcept (x : Except E A) : Draws (ofExcept x : Op D W F E A) :=
  fun _ => ⟨rfl,0,rfl⟩

theorem draws_statement (f : D → Except E (A × D)) :
    Draws (statement inject f : Op D W F E A) := by
  intro s
  rw [statement_run]
  cases s.faults 0 with
  | some x => exact ⟨rfl,1,rfl⟩
  | none => cases f s.db <;> exact ⟨rfl,1,rfl⟩

theorem draws_bind {op : Op D W F E A} {f : A → Op D W F E B} (hop : Draws op)
    (hf : ∀ a, Draws (f a)) : Draws (op >>= f) := by
  intro s
  rw [bind_run]
  rcases hop s with ⟨hworld,j,hj⟩
  cases hrun : op.run s with
  | mk r t =>
    rw [hrun] at hworld hj
    cases r with
    | error e => exact ⟨hworld,j,hj⟩
    | ok a =>
        rcases hf a t with ⟨hworld',k,hk⟩
        refine ⟨hworld'.trans hworld,j+k,?_⟩
        rw [hk,hj,later_later]

theorem draws_attempt {op : Op D W F E A} (hop : Draws op) : Draws (attempt op) := hop

theorem draws_transaction {body : Op D W F E A} (hbody : Draws body) :
    Draws (transaction inject body) := by
  intro s
  rw [transaction_run]
  cases s.faults 0 with
  | some x => exact ⟨rfl,1,rfl⟩
  | none =>
      rcases hbody s.next with ⟨hworld,j,hj⟩
      have hnext : s.next.faults = later s.faults 1 := rfl
      rw [hnext,later_later] at hj
      cases hrun : body.run s.next with
      | mk r u =>
        rw [hrun] at hworld hj
        cases r with
        | error e => exact ⟨hworld,1+j,hj⟩
        | ok a =>
            have hcommit : u.next.faults = later s.faults (1+j+1) := by
              rw [← later_later,← hj]
              rfl
            dsimp only
            cases u.faults 0 <;> exact ⟨hworld,1+j+1,hcommit⟩

/-- Without faults only the database can differ afterwards. -/
theorem Draws.calm {op : Op D W F E A} (h : Draws op) (db : D) (w : W) :
    (op.run (calmAt db w)).2 = calmAt (op.run (calmAt db w)).2.db w := by
  rcases h (calmAt db w) with ⟨hworld,k,hk⟩
  cases hrun : (op.run (calmAt db w)).2 with
  | mk db' w' faults =>
    rw [hrun] at hworld hk
    cases hworld
    cases hk
    rfl

end Draws

/-- From these contents the operation succeeds with a fixed number of statements,
unless one of them is struck. -/
structure Takes (op : Op D W F E A) (db : D) (w : W) (count : ℕ) (a : A) (db' : D) (w' : W) :
    Prop where
  quiet : ∀ faults, (∀ k < count, faults k = none) →
    op.run ⟨db,w,faults⟩ = (.ok a,⟨db',w',later faults count⟩)
  struck : ∀ faults, (∃ k < count, faults k ≠ none) →
    ∃ e t j, op.run ⟨db,w,faults⟩ = (.error e,t) ∧ (∃ k < j, faults k ≠ none) ∧
      t.faults = later faults j

section Takes
variable {inject : F → E} {db db' : D} {w w' : W} {a : A}

theorem takes_pure (a : A) (db : D) (w : W) : Takes (pure a : Op D W F E A) db w 0 a db w where
  quiet _ _ := rfl
  struck _ h := by
    rcases h with ⟨k,hk,-⟩
    exact (Nat.not_lt_zero k hk).elim

theorem takes_ofExcept {x : Except E A} (h : x = .ok a) (db : D) (w : W) :
    Takes (ofExcept x : Op D W F E A) db w 0 a db w := by
  rw [h]
  exact takes_pure a db w

theorem takes_statement {f : D → Except E (A × D)} (h : f db = .ok (a,db')) (w : W) :
    Takes (statement inject f : Op D W F E A) db w 1 a db' w where
  quiet faults hquiet := statement_ok.mpr ⟨hquiet 0 Nat.one_pos,db',h,rfl⟩
  struck faults hstruck := by
    rcases hstruck with ⟨k,hk,hfault⟩
    rw [Nat.lt_one_iff.mp hk] at hfault
    rcases Option.ne_none_iff_exists'.mp hfault with ⟨x,hx⟩
    refine ⟨inject x,⟨db,w,later faults 1⟩,1,?_,⟨0,Nat.one_pos,hfault⟩,rfl⟩
    rw [statement_run]
    simp only [hx]
    rfl

theorem takes_bind {op : Op D W F E A} {f : A → Op D W F E B} {m n : ℕ} {db'' : D} {w'' : W} {b : B}
    (hop : Takes op db w m a db' w') (hf : Takes (f a) db' w' n b db'' w'') :
    Takes (op >>= f) db w (m+n) b db'' w'' where
  quiet faults hquiet := by
    have hfirst := hop.quiet faults fun k hk => hquiet k (by omega)
    have hsecond := hf.quiet (later faults m) fun k hk => hquiet (k+m) (by omega)
    rw [later_later] at hsecond
    exact bind_ok.mpr ⟨a,_,hfirst,hsecond⟩
  struck faults hstruck := by
    rcases struck_or_quiet faults m with hearly | hquiet
    · rcases hop.struck faults hearly with ⟨e,t,j,hrun,hbefore,hleft⟩
      refine ⟨e,t,j,?_,hbefore,hleft⟩
      rw [bind_run,hrun]
    · rcases hstruck with ⟨k,hk,hfault⟩
      have hm : m ≤ k := by
        by_contra hlt
        exact hfault (hquiet k (by omega))
      have hlate : ∃ i < n, later faults m i ≠ none := by
        refine ⟨k-m,by omega,?_⟩
        rw [later_sub faults hm]
        exact hfault
      rcases hf.struck (later faults m) hlate with ⟨e,t,j,hrun,⟨i,hi,hstrike⟩,hleft⟩
      refine ⟨e,t,m+j,?_,⟨i+m,by omega,hstrike⟩,?_⟩
      · rw [bind_run,hop.quiet faults hquiet]
        exact hrun
      · rw [hleft,later_later]

/-- A transaction adds its first and its last statement. -/
theorem takes_transaction {body : Op D W F E A} {n : ℕ} (hbody : Takes body db w n a db' w') :
    Takes (transaction inject body) db w (n+2) a db' w' where
  quiet faults hquiet := by
    have hrun := hbody.quiet (later faults 1) fun k hk => hquiet (k+1) (by omega)
    rw [later_later] at hrun
    have hcommit : later faults (1+n) 0 = none := hquiet (0+(1+n)) (by omega)
    refine transaction_ok.mpr ⟨hquiet 0 (by omega),_,hrun,hcommit,?_⟩
    rw [show n+2 = 1+n+1 by omega,← later_later faults (1+n) 1]
    rfl
  struck faults hstruck := by
    cases hbegin : faults 0 with
    | some x =>
        have hfault : faults 0 ≠ none := by simp [hbegin]
        exact ⟨inject x,⟨db,w,later faults 1⟩,1,transaction_begin_error hbegin,
          ⟨0,Nat.one_pos,hfault⟩,rfl⟩
    | none =>
        rcases struck_or_quiet (later faults 1) n with hinside | hquiet
        · rcases hbody.struck (later faults 1) hinside with ⟨e,u,j,hrun,⟨k,hk,hfault⟩,hleft⟩
          exact ⟨e,{ u with db := db },1+j,transaction_body_error hbegin hrun,
            ⟨k+1,by omega,hfault⟩,hleft.trans (later_later faults 1 j)⟩
        · -- Only the last statement is left to be struck.
          rcases hstruck with ⟨k,hk,hfault⟩
          have hlast : k = n+1 := by
            rcases Nat.eq_zero_or_pos k with hzero | hpos
            · rw [hzero] at hfault
              exact (hfault hbegin).elim
            · by_contra hne
              have hbefore := hquiet (k-1) (by omega)
              rw [later_sub faults hpos] at hbefore
              exact hfault hbefore
          rw [hlast] at hfault
          rcases Option.ne_none_iff_exists'.mp hfault with ⟨x,hx⟩
          have hrun := hbody.quiet _ hquiet
          rw [later_later] at hrun
          have hcommit : later faults (1+n) 0 = some x := by
            rw [later_head,Nat.add_comm]
            exact hx
          refine ⟨inject x,_,1+n+1,transaction_commit_error hbegin hrun hcommit,
            ⟨n+1,by omega,hfault⟩,?_⟩
          exact later_later faults (1+n) 1

end Takes

/-- Once a statement has failed, all later ones fail. -/
def Crashing (faults : ℕ → Option F) : Prop := ∀ n, faults n ≠ none → faults (n+1) ≠ none

/-- The stream of a process which is gone. -/
def Dead (faults : ℕ → Option F) : Prop := ∀ n, faults n ≠ none

theorem Dead.later {faults : ℕ → Option F} (h : Dead faults) (k : ℕ) : Dead (later faults k) :=
  fun n => h (n+k)

theorem Crashing.mono {faults : ℕ → Option F} (h : Crashing faults) {n : ℕ} (hn : faults n ≠ none)
    (k : ℕ) : faults (n+k) ≠ none := by
  induction k with
  | zero => exact hn
  | succ k ih => exact h (n+k) ih

theorem Crashing.later {faults : ℕ → Option F} (h : Crashing faults) (k : ℕ) :
    Crashing (later faults k) := by
  intro n hn
  have hnext := h (n+k) hn
  rw [Nat.add_right_comm] at hnext
  exact hnext

/-- Nothing is left after the first strike. -/
theorem Crashing.dead {faults : ℕ → Option F} (h : Crashing faults) {j : ℕ}
    (hstruck : ∃ k < j, faults k ≠ none) : Dead (FaultStreams.later faults j) := by
  rcases hstruck with ⟨k,hk,hfault⟩
  intro n
  have hlate := h.mono hfault (n+j-k)
  rw [show k+(n+j-k) = n+j by omega] at hlate
  exact hlate

/-- The crash after a number of statements. -/
def crashAfter (message : F) (k : ℕ) : ℕ → Option F := fun n => if n < k then none else some message

theorem crashAfter_quiet {message : F} {k n : ℕ} (h : n < k) : crashAfter message k n = none :=
  if_pos h

theorem crashAfter_struck {message : F} {k n : ℕ} (h : k ≤ n) :
    crashAfter message k n = some message := if_neg (not_lt.mpr h)

theorem crashing_crashAfter (message : F) (k : ℕ) : Crashing (crashAfter message k) := by
  intro n hn
  by_cases h : n < k
  · exact (hn (crashAfter_quiet h)).elim
  · rw [crashAfter_struck (by omega)]
    exact Option.some_ne_none _

end OmegaHarness.FaultStreams
