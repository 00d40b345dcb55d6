import OmegaHarness.FallibleSteps

/-!
# Runs which can panic

Reads and slices whose range is checked when they run, and loops which nothing bounds. A run
ends in a value or in a fault: a panic, or a loop that was cut off. Both faults are left
in the results, so that a run which is shown to return a value neither panics nor hangs.
The rule for a loop counts the iterations which remain; every bound at or above that count
gives the same result.
-/
namespace OmegaHarness.CheckedRuns
open FallibleSteps

inductive Fault where
  | panicked
  | unfinished
  deriving DecidableEq, Repr

abbrev Checked (A : Type) := Except Fault A

@[simp] theorem bind_value {A B : Type} (a : A) (f : A → Checked B) :
    (Except.ok a : Checked A) >>= f = f a := rfl

section Reads
variable {A : Type}

/-- `Option::expect`. -/
def expect : Option A → Checked A
  | some a => .ok a
  | none => .error .panicked

/-- `xs[i]`. -/
def index (xs : List A) (i : ℕ) : Checked A := expect xs[i]?

/-- `&xs[..n]`. -/
def sliceTo (xs : List A) (n : ℕ) : Checked (List A) :=
  if n ≤ xs.length then .ok (xs.take n) else .error .panicked

/-- `&xs[n..]`. -/
def sliceFrom (xs : List A) (n : ℕ) : Checked (List A) :=
  if n ≤ xs.length then .ok (xs.drop n) else .error .panicked

/-- `buf[i] = a`. -/
def assign (buf : List A) (i : ℕ) (a : A) : Checked (List A) :=
  if i < buf.length then .ok (buf.set i a) else .error .panicked

/-- `buf[low..high].copy_from_slice(src)`: the range has to lie in the buffer, and the two
lengths have to agree. -/
def copyFromSlice (buf : List A) (low high : ℕ) (src : List A) : Checked (List A) :=
  if low ≤ high ∧ high ≤ buf.length ∧ src.length = high-low then
    .ok (buf.take low++(src++buf.drop high))
  else .error .panicked

@[simp] theorem expect_some (a : A) : expect (some a) = .ok a := rfl

theorem index_ok {xs : List A} {i : ℕ} {a : A} (h : xs[i]? = some a) : index xs i = .ok a := by
  rw [index,h,expect_some]

theorem sliceTo_ok {xs : List A} {n : ℕ} (h : n ≤ xs.length) : sliceTo xs n = .ok (xs.take n) :=
  if_pos h

theorem sliceFrom_ok {xs : List A} {n : ℕ} (h : n ≤ xs.length) : sliceFrom xs n = .ok (xs.drop n) :=
  if_pos h

/-- A buffer of so many equal cells of which the first have been written. -/
def filled (zero : A) (size : ℕ) (done : List A) : List A :=
  done++List.replicate (size-done.length) zero

section Filled
variable {zero : A} {size : ℕ} {done : List A}

theorem filled_all (h : size ≤ done.length) : filled zero size done = done := by
  rw [filled,Nat.sub_eq_zero_of_le h,List.replicate_zero,List.append_nil]

theorem filled_length (h : done.length ≤ size) : (filled zero size done).length = size := by
  rw [filled,List.length_append,List.length_replicate,Nat.add_sub_cancel' h]

/-- The next cell. -/
theorem assign_next (a : A) {i : ℕ} (hi : i = done.length) (h : done.length < size) :
    assign (filled zero size done) i a = .ok (filled zero size (done++[a])) := by
  obtain ⟨rest,hrest⟩ := Nat.exists_eq_add_of_lt h
  have hleft : size-done.length = rest+1 := by omega
  have hleft' : size-(done++[a]).length = rest := by
    rw [List.length_append,List.length_singleton]
    omega
  rw [assign,filled_length h.le,if_pos (by omega),filled,filled,hleft,hleft',hi,
    List.set_append_right _ _ le_rfl,Nat.sub_self,List.replicate_succ,List.set_cons_zero,
    List.append_assoc,List.singleton_append]

/-- The next cells. -/
theorem copy_next {src : List A} {low high : ℕ} (hlow : low = done.length)
    (hhigh : high = low+src.length) (h : done.length+src.length ≤ size) :
    copyFromSlice (filled zero size done) low high src = .ok (filled zero size (done++src)) := by
  have hdrop : (filled zero size done).drop high =
      List.replicate (size-(done++src).length) zero := by
    rw [filled,hhigh,hlow,List.drop_length_add_append,List.drop_replicate,List.length_append]
    congr 1
    omega
  rw [copyFromSlice,filled_length (by omega),if_pos ⟨by omega,by omega,by omega⟩,hdrop,hlow,filled,
    List.take_left,filled,List.append_assoc]

/-- The first cells of a fresh buffer. -/
theorem copy_first {src : List A} {high : ℕ} (hhigh : high = src.length) (h : src.length ≤ size) :
    copyFromSlice (List.replicate size zero) 0 high src = .ok (filled zero size src) :=
  @copy_next A zero size [] src 0 high rfl (by omega) (by rwa [List.length_nil,Nat.zero_add])

end Filled

/-- A range which ends behind the buffer. -/
theorem copy_beyond {buf src : List A} {low high : ℕ} (h : buf.length < high) :
    copyFromSlice buf low high src = .error .panicked := by
  rw [copyFromSlice,if_neg]
  intro hfits
  omega

end Reads

section Loops
variable {S : Type} (test : S → Checked Bool) (body : S → Checked S)

/-- A `while` loop which is cut off after so many iterations. -/
def whileLoop : ℕ → S → Checked S
  | 0,s => (test s).bind fun again => if again then .error .unfinished else .ok s
  | fuel+1,s => (test s).bind fun again => if again then (body s).bind (whileLoop fuel) else .ok s

variable {test body}

theorem whileLoop_done {s : S} (h : test s = .ok false) (fuel : ℕ) :
    whileLoop test body fuel s = .ok s := by
  cases fuel with
  | zero =>
      rw [whileLoop,h]
      rfl
  | succ fuel =>
      rw [whileLoop,h]
      rfl

theorem whileLoop_step {s next : S} (h : test s = .ok true) (hbody : body s = .ok next) (fuel : ℕ) :
    whileLoop test body (fuel+1) s = whileLoop test body fuel next := by
  rw [whileLoop,h]
  simp only [Except.bind,reduceIte,hbody]

/-- The invariant of a state names the iterations which remain. A loop whose body lowers them
by one returns, with none left. -/
theorem whileLoop_ok {inv : ℕ → S → Prop} (hdone : ∀ s, inv 0 s → test s = .ok false)
    (hstep : ∀ n s, inv (n+1) s → test s = .ok true ∧ ∃ next, body s = .ok next ∧ inv n next)
    {n fuel : ℕ} (hfuel : n ≤ fuel) {s : S} (h : inv n s) :
    ∃ last, whileLoop test body fuel s = .ok last ∧ inv 0 last := by
  induction n generalizing fuel s with
  | zero => exact ⟨s,whileLoop_done (hdone s h) fuel,h⟩
  | succ n ih =>
      obtain ⟨htest,next,hbody,hnext⟩ := hstep n s h
      obtain ⟨fuel,rfl⟩ := Nat.exists_eq_add_of_le' (Nat.lt_of_lt_of_le n.succ_pos hfuel)
      obtain ⟨last,hlast,hinv⟩ := ih (Nat.le_of_succ_le_succ hfuel) hnext
      exact ⟨last,by rw [whileLoop_step htest hbody,hlast],hinv⟩

end Loops

/-- A loop over a list each of whose steps returns. -/
theorem mapM_eq_map {A B : Type} {f : A → Checked B} {g : A → B} {xs : List A}
    (h : ∀ x ∈ xs, f x = .ok (g x)) : xs.mapM f = .ok (xs.map g) := by
  rw [mapM_ok,List.forall₂_map_right_iff]
  exact List.forall₂_same.mpr h

end OmegaHarness.CheckedRuns
