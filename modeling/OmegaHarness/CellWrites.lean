import Mathlib.Data.List.GetD
import Mathlib.Tactic

/-!
# Cells written in runs

A row of cells as a function of the position, and runs of consecutive values
written into it one after the other. When no two runs share a cell, in particular
when each one ends before the next begins, no write hides another: a cell inside a
run holds that run's value, and a cell outside every run keeps what it held.
-/
namespace OmegaHarness.CellWrites

variable {V : Type}

/-- A run of values and the position of its first cell. -/
structure Write (V : Type) where
  offset : ℕ
  values : List V

def Write.covers (write : Write V) (c : ℕ) : Prop :=
  write.offset ≤ c ∧ c < write.offset+write.values.length

instance (write : Write V) (c : ℕ) : Decidable (write.covers c) :=
  inferInstanceAs (Decidable (write.offset ≤ c ∧ c < write.offset+write.values.length))

def Write.apply (write : Write V) (row : ℕ → V) (c : ℕ) : V :=
  if write.covers c then write.values.getD (c-write.offset) (row c) else row c

def applyAll (row : ℕ → V) (writes : List (Write V)) : ℕ → V :=
  writes.foldl (fun row write => write.apply row) row

/-- Each run ends before every later run begins. -/
def Ascending (writes : List (Write V)) : Prop :=
  writes.Pairwise fun a b => a.offset+a.values.length ≤ b.offset

/-- It is enough that each run ends before the one after it begins. -/
theorem ascending_of_chain {writes : List (Write V)}
    (h : writes.IsChain fun a b => a.offset+a.values.length ≤ b.offset) : Ascending writes := by
  have htrans : IsTrans (Write V) fun a b => a.offset+a.values.length ≤ b.offset :=
    ⟨fun a b c hab hbc => by omega⟩
  exact List.isChain_iff_pairwise.mp h

/-- A cell outside every run is kept. -/
theorem applyAll_outside (row : ℕ → V) {writes : List (Write V)} {c : ℕ}
    (h : ∀ write ∈ writes, ¬write.covers c) : applyAll row writes c = row c := by
  induction writes generalizing row with
  | nil => rfl
  | cons write rest ih =>
      rw [applyAll,List.foldl_cons]
      change applyAll (write.apply row) rest c = row c
      rw [ih _ fun next hnext => h next (List.mem_cons_of_mem _ hnext),Write.apply,
        if_neg (h write List.mem_cons_self)]

/-- Every run lies between two positions. -/
def Between (low high : ℕ) (writes : List (Write V)) : Prop :=
  ∀ write ∈ writes, low ≤ write.offset ∧ write.offset+write.values.length ≤ high

@[simp] theorem between_nil (low high : ℕ) : Between low high ([] : List (Write V)) := by
  intro write hmem
  cases hmem

@[simp] theorem between_cons {low high : ℕ} {write : Write V} {writes : List (Write V)} :
    Between low high (write::writes) ↔
      (low ≤ write.offset ∧ write.offset+write.values.length ≤ high) ∧ Between low high writes :=
  List.forall_mem_cons

theorem Between.flatMap {A : Type} {low high : ℕ} {f : A → List (Write V)} {as : List A}
    (h : ∀ a ∈ as, Between low high (f a)) : Between low high (as.flatMap f) := by
  intro write hmem
  obtain ⟨a,ha,hwrite⟩ := List.mem_flatMap.mp hmem
  exact h a ha write hwrite

theorem Between.append {low high : ℕ} {first second : List (Write V)}
    (hfirst : Between low high first) (hsecond : Between low high second) :
    Between low high (first++second) := by
  intro write hmem
  rcases List.mem_append.mp hmem with h | h
  · exact hfirst write h
  · exact hsecond write h

theorem Between.mono {low high low' high' : ℕ} {writes : List (Write V)}
    (h : Between low high writes) (hlow : low' ≤ low) (hhigh : high ≤ high') :
    Between low' high' writes := by
  intro write hmem
  have hbounds := h write hmem
  omega

/-- No cell lies in both runs. -/
def Apart (a b : Write V) : Prop := ∀ c, a.covers c → ¬b.covers c

theorem apart_of_le {a b : Write V}
    (h : a.offset+a.values.length ≤ b.offset ∨ b.offset+b.values.length ≤ a.offset) : Apart a b := by
  intro c ha hb
  unfold Write.covers at ha hb
  omega

theorem Ascending.apart {writes : List (Write V)} (h : Ascending writes) : writes.Pairwise Apart :=
  List.Pairwise.imp (fun hle => apart_of_le (Or.inl hle)) h

/-- The runs lie between two positions and share no cell. -/
structure Laid (low high : ℕ) (writes : List (Write V)) : Prop where
  le : low ≤ high
  between : Between low high writes
  apart : writes.Pairwise Apart

theorem Laid.nil (low : ℕ) : Laid low low ([] : List (Write V)) :=
  ⟨le_rfl,between_nil low low,List.Pairwise.nil⟩

/-- Runs laid behind each other. -/
theorem Laid.append {low middle high : ℕ} {first second : List (Write V)}
    (hfirst : Laid low middle first) (hsecond : Laid middle high second) :
    Laid low high (first++second) := by
  refine ⟨hfirst.le.trans hsecond.le,?_,List.pairwise_append.mpr ⟨hfirst.apart,hsecond.apart,?_⟩⟩
  · exact (hfirst.between.mono le_rfl hsecond.le).append (hsecond.between.mono hfirst.le le_rfl)
  · intro a ha b hb
    have hend := (hfirst.between a ha).2
    have hstart := (hsecond.between b hb).1
    exact apart_of_le (Or.inl (by omega))

/-- The cells from `base` on, in equal parts. -/
structure Track where
  base : ℕ
  width : ℕ

/-- The run fills one part of a track. -/
def Track.Holds (track : Track) (i : ℕ) (write : Write V) : Prop :=
  write.offset = track.base+i*track.width ∧ write.values.length = track.width

/-- The first track ends, after `parts` of its parts, before the second begins. -/
def Track.Before (parts : ℕ) (first second : Track) : Prop :=
  first.base+parts*first.width ≤ second.base

/-- Different parts of a track are apart. -/
theorem Track.Holds.apart {track : Track} {i j : ℕ} {a b : Write V} (ha : track.Holds i a)
    (hb : track.Holds j b) (hij : i < j) : Apart a b := by
  apply apart_of_le
  left
  rw [ha.1,ha.2,hb.1,Nat.add_assoc,← Nat.succ_mul]
  exact Nat.add_le_add_left (Nat.mul_le_mul_right _ hij) _

/-- So are any two parts of different tracks. -/
theorem Track.Before.apart {parts i j : ℕ} {first second : Track} (h : Track.Before parts first second)
    {a b : Write V} (ha : first.Holds i a) (hb : second.Holds j b) (hi : i < parts) : Apart a b := by
  have hend : (i+1)*first.width ≤ parts*first.width := Nat.mul_le_mul_right _ hi
  rw [Nat.succ_mul] at hend
  apply apart_of_le
  left
  unfold Track.Before at h
  rw [ha.1,ha.2,hb.1]
  omega

theorem Apart.symm {a b : Write V} (h : Apart a b) : Apart b a := fun c hb ha => h c ha hb

theorem holds_of_mem {i : ℕ} {tracks : List Track} {writes : List (Write V)}
    (h : List.Forall₂ (fun track write => track.Holds i write) tracks writes) {write : Write V}
    (hmem : write ∈ writes) : ∃ track ∈ tracks, track.Holds i write := by
  induction h with
  | nil => cases hmem
  | cons hhead _ ih =>
      rcases List.mem_cons.mp hmem with rfl | hrest
      · exact ⟨_,List.mem_cons_self,hhead⟩
      · obtain ⟨track,htrack,hholds⟩ := ih hrest
        exact ⟨track,List.mem_cons_of_mem _ htrack,hholds⟩

/-- One pass of a loop fills one part of each track, in the order of the tracks. -/
theorem pass_apart {parts i : ℕ} (hi : i < parts) {tracks : List Track} {writes : List (Write V)}
    (htracks : tracks.Pairwise (Track.Before parts))
    (h : List.Forall₂ (fun track write => track.Holds i write) tracks writes) :
    writes.Pairwise Apart := by
  induction h with
  | nil => exact List.Pairwise.nil
  | cons hhead hrest ih =>
      obtain ⟨hfirst,htail⟩ := List.pairwise_cons.mp htracks
      refine List.pairwise_cons.mpr ⟨?_,ih htail⟩
      intro write hmem
      obtain ⟨track,htrack,hholds⟩ := holds_of_mem hrest hmem
      exact (hfirst track htrack).apart hhead hholds hi

/-- A loop whose passes fill part after part of some tracks writes no cell twice. -/
theorem passes_apart {parts : ℕ} {tracks : List Track} {f : Fin parts → List (Write V)}
    (htracks : tracks.Pairwise (Track.Before parts))
    (h : ∀ i, List.Forall₂ (fun track write => track.Holds i.val write) tracks (f i)) :
    ((List.finRange parts).flatMap f).Pairwise Apart := by
  refine List.pairwise_flatMap.mpr ⟨fun i _ => pass_apart i.isLt htracks (h i),?_⟩
  refine List.Pairwise.imp ?_ (List.pairwise_lt_finRange parts)
  intro i j hij a ha b hb
  obtain ⟨track,htrack,hholds⟩ := holds_of_mem (h i) ha
  obtain ⟨track',htrack',hholds'⟩ := holds_of_mem (h j) hb
  by_cases heq : track = track'
  · rw [← heq] at hholds'
    exact hholds.apart hholds' hij
  · have hsymm : Std.Symm fun t u : Track => Track.Before parts t u ∨ Track.Before parts u t :=
      ⟨fun _ _ hone => hone.symm⟩
    have hone : tracks.Pairwise fun t u => Track.Before parts t u ∨ Track.Before parts u t :=
      htracks.imp Or.inl
    rcases hone.forall htrack htrack' heq with hbefore | hbefore
    · exact hbefore.apart hholds hholds' i.isLt
    · exact (hbefore.apart hholds' hholds j.isLt).symm

/-- It stays between the positions which its tracks stay between. -/
theorem passes_laid {low high parts : ℕ} (tracks : List Track) {f : Fin parts → List (Write V)}
    (hle : low ≤ high)
    (hrange : ∀ track ∈ tracks, low ≤ track.base ∧ track.base+parts*track.width ≤ high)
    (htracks : tracks.Pairwise (Track.Before parts))
    (h : ∀ i, List.Forall₂ (fun track write => track.Holds i.val write) tracks (f i)) :
    Laid low high ((List.finRange parts).flatMap f) := by
  refine ⟨hle,Between.flatMap ?_,passes_apart htracks h⟩
  intro i _ write hmem
  obtain ⟨track,htrack,hoffset,hlength⟩ := holds_of_mem (h i) hmem
  have hbounds := hrange track htrack
  have hend : (i.val+1)*track.width ≤ parts*track.width := Nat.mul_le_mul_right _ i.isLt
  rw [Nat.succ_mul] at hend
  rw [hoffset,hlength]
  omega

/-- A cell inside a run holds the run's value when no other run reaches it. -/
theorem applyAll_inside_of_apart (row : ℕ → V) {writes : List (Write V)}
    (hapart : writes.Pairwise Apart) {write : Write V} (hmem : write ∈ writes) {k : ℕ}
    (hk : k < write.values.length) (d : V) :
    applyAll row writes (write.offset+k) = write.values.getD k d := by
  have hcovers : write.covers (write.offset+k) := ⟨by omega,by omega⟩
  induction writes generalizing row with
  | nil => cases hmem
  | cons first rest ih =>
      obtain ⟨hfirst,hrest⟩ := List.pairwise_cons.mp hapart
      rw [applyAll,List.foldl_cons]
      change applyAll (first.apply row) rest (write.offset+k) = _
      rcases List.mem_cons.mp hmem with rfl | hin
      · rw [applyAll_outside _ fun next hnext => hfirst next hnext _ hcovers,Write.apply,
          if_pos hcovers,Nat.add_sub_cancel_left,List.getD_eq_getElem _ _ hk,
          List.getD_eq_getElem _ _ hk]
      · exact ih _ hrest hin

/-- A cell inside a run of an ascending list holds the run's value. -/
theorem applyAll_inside (row : ℕ → V) {writes : List (Write V)} (hasc : Ascending writes)
    {write : Write V} (hmem : write ∈ writes) {k : ℕ} (hk : k < write.values.length) (d : V) :
    applyAll row writes (write.offset+k) = write.values.getD k d :=
  applyAll_inside_of_apart row hasc.apart hmem hk d

end OmegaHarness.CellWrites
