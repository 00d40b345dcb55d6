import Mathlib.Tactic

/-!
# Operations on a store which may fail at any statement

An operation runs on a session: a database, the world outside it, and a stream
which says which of the coming statements fail, and how. A failed statement
changes nothing. A transaction whose body or commit fails puts the database back
where it was; the world outside is not put back.

What an operation achieves under faults it achieves without them as well
(`Steady`), so a success is specified on calm sessions alone. What it leaves
behind on failure is a separate question, answered by `Keeps`. An operation which
does not look at a part of the database runs past a change of it (`Blind`).
-/
namespace OmegaHarness.FaultyTransactions

structure Session (D W F : Type) where
  db : D
  world : W
  faults : ℕ → Option F

variable {D W F E A B : Type}

/-- The session after one statement has used up its entry of the stream. -/
def Session.next (s : Session D W F) : Session D W F :=
  { s with faults := fun n => s.faults (n+1) }

/-- The session on the same contents with no fault ahead. -/
def calmAt (db : D) (world : W) : Session D W F := ⟨db,world,fun _ => none⟩

@[simp] theorem calmAt_db (db : D) (w : W) : (calmAt db w : Session D W F).db = db := rfl
@[simp] theorem calmAt_world (db : D) (w : W) : (calmAt db w : Session D W F).world = w := rfl
@[simp] theorem calmAt_next (db : D) (w : W) : (calmAt db w : Session D W F).next = calmAt db w := rfl

@[simp] theorem calmAt_faults (db : D) (w : W) (n : ℕ) :
    (calmAt db w : Session D W F).faults n = none := rfl

structure Op (D W F E A : Type) where
  run : Session D W F → Except E A × Session D W F

instance : Monad (Op D W F E) where
  pure a := ⟨fun s => (.ok a,s)⟩
  bind op f := ⟨fun s =>
    match op.run s with
    | (.ok a,t) => (f a).run t
    | (.error e,t) => (.error e,t)⟩

theorem pure_run (a : A) (s : Session D W F) : (pure a : Op D W F E A).run s = (.ok a,s) := rfl

theorem bind_run (op : Op D W F E A) (f : A → Op D W F E B) (s : Session D W F) :
    (op >>= f).run s = match op.run s with
      | (.ok a,t) => (f a).run t
      | (.error e,t) => (.error e,t) := rfl

/-- A sequence succeeded exactly when both halves did. -/
theorem bind_ok {op : Op D W F E A} {f : A → Op D W F E B} {s t : Session D W F} {b : B} :
    (op >>= f).run s = (.ok b,t) ↔ ∃ a u, op.run s = (.ok a,u) ∧ (f a).run u = (.ok b,t) := by
  rw [bind_run]
  cases h : op.run s with
  | mk r u => cases r <;> simp

/-- A computation without access to the session. -/
def ofExcept (x : Except E A) : Op D W F E A := ⟨fun s => (x,s)⟩

theorem ofExcept_ok {x : Except E A} {s t : Session D W F} {a : A} :
    (ofExcept x).run s = (.ok a,t) ↔ x = .ok a ∧ t = s := by
  simp [ofExcept,eq_comm]

theorem ofExcept_bind_ok {x : Except E A} {f : A → Op D W F E B} {s t : Session D W F} {b : B} :
    (ofExcept x >>= f).run s = (.ok b,t) ↔ ∃ a, x = .ok a ∧ (f a).run s = (.ok b,t) := by
  simp only [bind_ok,ofExcept_ok]
  constructor
  · rintro ⟨a,u,⟨hx,rfl⟩,hf⟩
    exact ⟨a,hx,hf⟩
  · rintro ⟨a,hx,hf⟩
    exact ⟨a,s,⟨hx,rfl⟩,hf⟩

/-- A look at the session which cannot fail. -/
def peek : Op D W F E (D × W) := ⟨fun s => (.ok (s.db,s.world),s)⟩

theorem peek_run (s : Session D W F) : (peek : Op D W F E (D × W)).run s = (.ok (s.db,s.world),s) :=
  rfl

/-- Run an operation and hand its outcome on as a value. -/
def attempt (op : Op D W F E A) : Op D W F E (Except E A) :=
  ⟨fun s => (.ok (op.run s).1,(op.run s).2)⟩

theorem attempt_run (op : Op D W F E A) (s : Session D W F) :
    (attempt op).run s = (.ok (op.run s).1,(op.run s).2) := rfl

/-- The same operation with its errors translated. -/
def mapFailure {E' : Type} (translate : E → E') (op : Op D W F E A) : Op D W F E' A :=
  ⟨fun s => ((op.run s).1.mapError translate,(op.run s).2)⟩

theorem mapFailure_run {E' : Type} (translate : E → E') (op : Op D W F E A) (s : Session D W F) :
    (mapFailure translate op).run s = ((op.run s).1.mapError translate,(op.run s).2) := rfl

theorem mapFailure_ok {E' : Type} {translate : E → E'} {op : Op D W F E A} {s t : Session D W F}
    {a : A} : (mapFailure translate op).run s = (.ok a,t) ↔ op.run s = (.ok a,t) := by
  rw [mapFailure_run]
  cases op.run s with
  | mk r u => cases r <;> simp [Except.mapError]

section Statements
variable (inject : F → E)

/-- One statement against the database. -/
def statement (f : D → Except E (A × D)) : Op D W F E A := ⟨fun s =>
  match s.faults 0 with
  | some x => (.error (inject x),s.next)
  | none =>
      match f s.db with
      | .ok (a,db) => (.ok a,{ s.next with db := db })
      | .error e => (.error e,s.next)⟩

/-- One action on the world outside, which may read the database. -/
def external (f : D → W → Except E (A × W)) : Op D W F E A := ⟨fun s =>
  match s.faults 0 with
  | some x => (.error (inject x),s.next)
  | none =>
      match f s.db s.world with
      | .ok (a,w) => (.ok a,{ s.next with world := w })
      | .error e => (.error e,s.next)⟩

/-- A statement which touches no table. -/
def mark : Op D W F E Unit := statement inject fun db => .ok ((),db)

/-- Work is kept only if the body and then the commit succeed. -/
def transaction (body : Op D W F E A) : Op D W F E A := ⟨fun s =>
  match (mark inject).run s with
  | (.error e,t) => (.error e,t)
  | (.ok _,t) =>
      match body.run t with
      | (.error e,u) => (.error e,{ u with db := s.db })
      | (.ok a,u) =>
          match (mark inject).run u with
          | (.ok _,v) => (.ok a,v)
          | (.error e,v) => (.error e,{ v with db := s.db })⟩

end Statements

section Success
variable {inject : F → E}

theorem statement_run (f : D → Except E (A × D)) (s : Session D W F) :
    (statement inject f).run s = match s.faults 0 with
      | some x => (.error (inject x),s.next)
      | none =>
          match f s.db with
          | .ok (a,db) => (.ok a,{ s.next with db := db })
          | .error e => (.error e,s.next) := rfl

theorem external_run (f : D → W → Except E (A × W)) (s : Session D W F) :
    (external inject f).run s = match s.faults 0 with
      | some x => (.error (inject x),s.next)
      | none =>
          match f s.db s.world with
          | .ok (a,w) => (.ok a,{ s.next with world := w })
          | .error e => (.error e,s.next) := rfl

theorem mark_run (s : Session D W F) :
    ((mark inject).run s : Except E Unit × Session D W F) = match s.faults 0 with
      | some x => (.error (inject x),s.next)
      | none => (.ok (),s.next) := rfl

theorem transaction_run (body : Op D W F E A) (s : Session D W F) :
    (transaction inject body).run s = match s.faults 0 with
      | some x => (.error (inject x),s.next)
      | none =>
          match body.run s.next with
          | (.error e,u) => (.error e,{ u with db := s.db })
          | (.ok a,u) =>
              match u.faults 0 with
              | some x => (.error (inject x),{ u.next with db := s.db })
              | none => (.ok a,u.next) := by
  unfold transaction
  dsimp only
  rw [mark_run]
  cases s.faults 0 with
  | some x => rfl
  | none =>
      dsimp only
      cases body.run s.next with
      | mk r u =>
        cases r with
        | error e => rfl
        | ok a =>
            dsimp only
            rw [mark_run]
            cases u.faults 0 <;> rfl

/-- The three ways in which a transaction fails: in front of its body, in it and behind
it. -/
theorem transaction_begin_error {body : Op D W F E A} {s : Session D W F} {x : F}
    (hbegin : s.faults 0 = some x) :
    (transaction inject body).run s = (.error (inject x),s.next) := by
  rw [transaction_run,hbegin]

theorem transaction_body_error {body : Op D W F E A} {s u : Session D W F} {e : E}
    (hbegin : s.faults 0 = none) (hbody : body.run s.next = (.error e,u)) :
    (transaction inject body).run s = (.error e,{ u with db := s.db }) := by
  rw [transaction_run,hbegin]
  dsimp only
  rw [hbody]

theorem transaction_commit_error {body : Op D W F E A} {s u : Session D W F} {a : A} {x : F}
    (hbegin : s.faults 0 = none) (hbody : body.run s.next = (.ok a,u)) (hcommit : u.faults 0 = some x) :
    (transaction inject body).run s = (.error (inject x),{ u.next with db := s.db }) := by
  rw [transaction_run,hbegin]
  dsimp only
  rw [hbody]
  dsimp only
  rw [hcommit]

theorem statement_ok {f : D → Except E (A × D)} {s t : Session D W F} {a : A} :
    (statement inject f).run s = (.ok a,t) ↔
      s.faults 0 = none ∧ ∃ db, f s.db = .ok (a,db) ∧ t = { s.next with db := db } := by
  rw [statement_run]
  cases hfault : s.faults 0 with
  | some x => simp
  | none =>
      cases hf : f s.db with
      | error e => simp
      | ok r => simp [Prod.ext_iff,eq_comm,and_assoc]

theorem external_ok {f : D → W → Except E (A × W)} {s t : Session D W F} {a : A} :
    (external inject f).run s = (.ok a,t) ↔
      s.faults 0 = none ∧ ∃ w, f s.db s.world = .ok (a,w) ∧ t = { s.next with world := w } := by
  rw [external_run]
  cases hfault : s.faults 0 with
  | some x => simp
  | none =>
      cases hf : f s.db s.world with
      | error e => simp
      | ok r => simp [Prod.ext_iff,eq_comm,and_assoc]

theorem external_struck {f : D → W → Except E (A × W)} {s : Session D W F} {x : F}
    (h : s.faults 0 = some x) :
    (external inject f).run s = (.error (inject x),s.next) := by
  rw [external_run,h]

theorem external_calm {f : D → W → Except E (A × W)} {db : D} {w w' : W} {a : A}
    (h : f db w = .ok (a,w')) :
    (external inject f).run (calmAt db w) = (.ok a,calmAt db w') :=
  external_ok.mpr ⟨rfl,w',h,rfl⟩

theorem transaction_ok {body : Op D W F E A} {s t : Session D W F} {a : A} :
    (transaction inject body).run s = (.ok a,t) ↔
      s.faults 0 = none ∧ ∃ u, body.run s.next = (.ok a,u) ∧ u.faults 0 = none ∧ t = u.next := by
  rw [transaction_run]
  cases hbegin : s.faults 0 with
  | some x => simp
  | none =>
      cases hbody : body.run s.next with
      | mk r u =>
        cases r with
        | error e => simp
        | ok b =>
            dsimp only
            cases hcommit : u.faults 0 with
            | some x =>
                simp only [Prod.mk.injEq,reduceCtorEq,false_and,true_and,false_iff,not_exists]
                rintro v ⟨⟨-,rfl⟩,hnone,-⟩
                rw [hnone] at hcommit
                cases hcommit
            | none =>
                simp only [Prod.mk.injEq,Except.ok.injEq,true_and]
                constructor
                · rintro ⟨rfl,rfl⟩
                  exact ⟨u,⟨rfl,rfl⟩,hcommit,rfl⟩
                · rintro ⟨v,⟨rfl,rfl⟩,-,rfl⟩
                  exact ⟨rfl,rfl⟩

theorem transaction_calm {body : Op D W F E A} {db db' : D} {w w' : W} {a : A}
    (h : body.run (calmAt db w) = (.ok a,calmAt db' w')) :
    (transaction inject body).run (calmAt db w) = (.ok a,calmAt db' w') :=
  transaction_ok.mpr ⟨rfl,_,h,rfl,rfl⟩

end Success

/-- An operation which fails leaves the database as it found it. -/
def Atomic (op : Op D W F E A) : Prop := ∀ s e t, op.run s = (.error e,t) → t.db = s.db

section Atomic
variable {inject : F → E}

theorem atomic_statement (f : D → Except E (A × D)) :
    Atomic (statement inject f : Op D W F E A) := by
  intro s e t h
  rw [statement_run] at h
  cases hfault : s.faults 0 with
  | some x =>
      rw [hfault] at h
      cases h
      rfl
  | none =>
      cases hf : f s.db with
      | error e =>
          simp only [hfault,hf] at h
          cases h
          rfl
      | ok r =>
          simp only [hfault,hf] at h
          cases h

theorem atomic_transaction (body : Op D W F E A) : Atomic (transaction inject body) := by
  intro s e t h
  rw [transaction_run] at h
  cases hbegin : s.faults 0 with
  | some x =>
      rw [hbegin] at h
      cases h
      rfl
  | none =>
      rw [hbegin] at h
      cases hbody : body.run s.next with
      | mk r u =>
        rw [hbody] at h
        cases r with
        | error e =>
            cases h
            rfl
        | ok b =>
            dsimp only at h
            cases hcommit : u.faults 0 with
            | some x =>
                rw [hcommit] at h
                cases h
                rfl
            | none =>
                rw [hcommit] at h
                cases h

theorem atomic_mapFailure {E' : Type} {translate : E → E'} {op : Op D W F E A} (hop : Atomic op) :
    Atomic (mapFailure translate op) := by
  intro s e t h
  rw [mapFailure_run] at h
  cases hrun : op.run s with
  | mk r u =>
    rw [hrun] at h
    cases r with
    | error cause =>
        cases h
        exact hop s cause _ hrun
    | ok a => cases h

/-- Checks before an atomic operation do not spoil it. -/
theorem atomic_ofExcept_bind {x : Except E A} {f : A → Op D W F E B} (hf : ∀ a, Atomic (f a)) :
    Atomic (ofExcept x >>= f) := by
  intro s e t h
  rw [bind_run] at h
  cases x with
  | error e =>
      cases h
      rfl
  | ok a => exact hf a s e t h

end Atomic

/-- Whatever the operation achieves under faults it achieves without them. -/
def Steady (op : Op D W F E A) : Prop :=
  ∀ s a t, op.run s = (.ok a,t) →
    op.run (calmAt s.db s.world) = (.ok a,calmAt t.db t.world)

section Steady
variable {inject : F → E}

theorem steady_pure (a : A) : Steady (pure a : Op D W F E A) := by
  intro s b t h
  cases h
  rfl

theorem steady_ofExcept (x : Except E A) : Steady (ofExcept x : Op D W F E A) := by
  intro s a t h
  rw [ofExcept_ok] at h ⊢
  exact ⟨h.1,by rw [h.2]⟩

theorem steady_bind {op : Op D W F E A} {f : A → Op D W F E B} (hop : Steady op)
    (hf : ∀ a, Steady (f a)) : Steady (op >>= f) := by
  intro s b t h
  rw [bind_ok] at h ⊢
  obtain ⟨a,u,hfirst,hrest⟩ := h
  exact ⟨a,calmAt u.db u.world,hop s a u hfirst,hf a u b t hrest⟩

theorem steady_statement (f : D → Except E (A × D)) :
    Steady (statement inject f : Op D W F E A) := by
  intro s a t h
  rw [statement_ok] at h ⊢
  obtain ⟨-,db,hf,rfl⟩ := h
  exact ⟨rfl,db,hf,rfl⟩

theorem steady_transaction {body : Op D W F E A} (hbody : Steady body) :
    Steady (transaction inject body) := by
  intro s a t h
  rw [transaction_ok] at h ⊢
  obtain ⟨-,u,hrun,-,rfl⟩ := h
  exact ⟨rfl,calmAt u.db u.world,hbody s.next a u hrun,rfl,rfl⟩

end Steady

/-- A property of the database which the operation never breaks, failing or not. -/
def Keeps (I : D → Prop) (op : Op D W F E A) : Prop := ∀ s, I s.db → I (op.run s).2.db

section Keeps
variable {I : D → Prop} {inject : F → E}

theorem keeps_pure (a : A) : Keeps I (pure a : Op D W F E A) := fun _ h => h

theorem keeps_ofExcept (x : Except E A) : Keeps I (ofExcept x : Op D W F E A) := fun _ h => h

theorem keeps_peek : Keeps I (peek : Op D W F E (D × W)) := fun _ h => h

/-- What the first half established the second half keeps. -/
theorem keeps_after {op : Op D W F E A} {f : A → Op D W F E B} (hf : ∀ a, Keeps I (f a))
    {s : Session D W F} (h : I (op.run s).2.db) : I ((op >>= f).run s).2.db := by
  rw [bind_run]
  cases hrun : op.run s with
  | mk r t =>
    rw [hrun] at h
    cases r with
    | error e => exact h
    | ok a => exact hf a t h

theorem keeps_bind {op : Op D W F E A} {f : A → Op D W F E B} (hop : Keeps I op)
    (hf : ∀ a, Keeps I (f a)) : Keeps I (op >>= f) := fun s h => keeps_after hf (hop s h)

theorem keeps_attempt {op : Op D W F E A} (hop : Keeps I op) : Keeps I (attempt op) := hop

theorem keeps_mapFailure {E' : Type} {translate : E → E'} {op : Op D W F E A} (hop : Keeps I op) :
    Keeps I (mapFailure translate op) := hop

theorem keeps_statement {f : D → Except E (A × D)}
    (hf : ∀ db a db', I db → f db = .ok (a,db') → I db') :
    Keeps I (statement inject f : Op D W F E A) := by
  intro s h
  rw [statement_run]
  cases s.faults 0 with
  | some x => exact h
  | none =>
      cases hrun : f s.db with
      | error e => exact h
      | ok r => exact hf s.db r.1 r.2 h hrun

theorem keeps_external (f : D → W → Except E (A × W)) :
    Keeps I (external inject f : Op D W F E A) := by
  intro s h
  rw [external_run]
  cases s.faults 0 with
  | some x => exact h
  | none => cases f s.db s.world <;> exact h

/-- Inside a transaction the property may break for a while. -/
theorem keeps_transaction_of_ok {body : Op D W F E A}
    (hbody : ∀ s a t, I s.db → body.run s = (.ok a,t) → I t.db) :
    Keeps I (transaction inject body) := by
  intro s h
  cases hrun : (transaction inject body).run s with
  | mk r t =>
    cases r with
    | error e => exact (atomic_transaction body s e t hrun).symm ▸ h
    | ok a =>
        obtain ⟨-,u,hu,-,rfl⟩ := transaction_ok.mp hrun
        exact hbody s.next a u h hu

theorem keeps_transaction {body : Op D W F E A} (hbody : Keeps I body) :
    Keeps I (transaction inject body) := by
  apply keeps_transaction_of_ok
  intro s a t h hrun
  have hkept := hbody s h
  rw [hrun] at hkept
  exact hkept

end Keeps

/-- What every error of the operation satisfies. -/
def Fails (P : E → Prop) (op : Op D W F E A) : Prop := ∀ s e t, op.run s = (.error e,t) → P e

section Fails
variable {P : E → Prop} {inject : F → E}

theorem fails_pure (a : A) : Fails P (pure a : Op D W F E A) := fun _ _ _ h => by cases h

theorem fails_ofExcept {x : Except E A} (hx : ∀ e, x = .error e → P e) :
    Fails P (ofExcept x : Op D W F E A) := by
  intro s e t h
  cases h
  exact hx e rfl

theorem fails_bind {op : Op D W F E A} {f : A → Op D W F E B} (hop : Fails P op)
    (hf : ∀ a, Fails P (f a)) : Fails P (op >>= f) := by
  intro s e t h
  rw [bind_run] at h
  cases hrun : op.run s with
  | mk r u =>
    rw [hrun] at h
    cases r with
    | error cause =>
        cases h
        exact hop s _ _ hrun
    | ok a => exact hf a u e t h

theorem fails_statement {f : D → Except E (A × D)} (hinject : ∀ x, P (inject x))
    (hf : ∀ db e, f db = .error e → P e) : Fails P (statement inject f : Op D W F E A) := by
  intro s e t h
  rw [statement_run] at h
  cases hfault : s.faults 0 with
  | some x =>
      rw [hfault] at h
      cases h
      exact hinject x
  | none =>
      rw [hfault] at h
      cases hrun : f s.db with
      | error cause =>
          rw [hrun] at h
          cases h
          exact hf s.db _ hrun
      | ok r =>
          rw [hrun] at h
          cases h

end Fails

/-- A change of the database which the operation does not see: it answers as before, and
the change is still there afterwards. -/
def Blind (change : D → D) (op : Op D W F E A) : Prop :=
  ∀ s : Session D W F, op.run { s with db := change s.db } =
    ((op.run s).1,{ (op.run s).2 with db := change (op.run s).2.db })

section Blind
variable {change : D → D} {inject : F → E}

theorem blind_pure (a : A) : Blind change (pure a : Op D W F E A) := fun _ => rfl

theorem blind_ofExcept (x : Except E A) : Blind change (ofExcept x : Op D W F E A) := fun _ => rfl

theorem blind_bind {op : Op D W F E A} {f : A → Op D W F E B} (hop : Blind change op)
    (hf : ∀ a, Blind change (f a)) : Blind change (op >>= f) := by
  intro s
  rw [bind_run,bind_run,hop s]
  cases hrun : op.run s with
  | mk r t =>
    cases r with
    | error e => rfl
    | ok a => exact hf a t

theorem blind_attempt {op : Op D W F E A} (hop : Blind change op) : Blind change (attempt op) := by
  intro s
  rw [attempt_run,attempt_run,hop s]

theorem blind_statement {f : D → Except E (A × D)}
    (hf : ∀ db, f (change db) = (f db).map fun r => (r.1,change r.2)) :
    Blind change (statement inject f : Op D W F E A) := by
  intro s
  rw [statement_run,statement_run]
  dsimp only
  cases s.faults 0 with
  | some x => rfl
  | none =>
      dsimp only
      rw [hf]
      cases f s.db <;> rfl

theorem blind_transaction {body : Op D W F E A} (hbody : Blind change body) :
    Blind change (transaction inject body) := by
  intro s
  rw [transaction_run,transaction_run]
  dsimp only
  cases s.faults 0 with
  | some x => rfl
  | none =>
      have hnext : body.run ({ s with db := change s.db } : Session D W F).next =
          ((body.run s.next).1,
            { (body.run s.next).2 with db := change (body.run s.next).2.db }) := hbody s.next
      dsimp only
      rw [hnext]
      cases body.run s.next with
      | mk r u =>
        cases r with
        | error e => rfl
        | ok a =>
            dsimp only
            cases u.faults 0 <;> rfl

end Blind

end OmegaHarness.FaultyTransactions
