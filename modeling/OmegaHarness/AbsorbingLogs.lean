import Mathlib.Data.List.Infix

/-!
# Logs whose entries are absorbed

A machine applies the entries of a log in order. Its states only grow, and an entry
which a state contains is absorbed: applying it again changes nothing. Such a machine
may resume at any place up to the one it has reached. The entries it meets twice are
absorbed, and it ends where one run over the log ends.
-/
namespace OmegaHarness.AbsorbingLogs
variable {E S : Type}

section Replay
variable (apply : E → S → S)

/-- The state after the entries, applied in order. -/
def replay (entries : List E) (s : S) : S := entries.foldl (fun s e => apply e s) s

theorem replay_append (first second : List E) (s : S) :
    replay apply (first++second) s = replay apply second (replay apply first s) :=
  List.foldl_append

theorem replay_concat (entries : List E) (e : E) (s : S) :
    replay apply (entries++[e]) s = apply e (replay apply entries s) :=
  replay_append apply entries [e] s

end Replay

/-- A state contains what it grew from, and absorbs the entries it contains. -/
structure Absorbing (apply : E → S → S) (below : S → S → Prop) : Prop where
  refl : ∀ s, below s s
  trans : ∀ {a b c}, below a b → below b c → below a c
  grows : ∀ e s, below s (apply e s)
  absorbs : ∀ e s t, below (apply e s) t → apply e t = t

namespace Absorbing
variable {apply : E → S → S} {below : S → S → Prop} (h : Absorbing apply below)
include h

theorem below_replay (entries : List E) (s : S) : below s (replay apply entries s) := by
  induction entries generalizing s with
  | nil => exact h.refl s
  | cons e rest ih => exact h.trans (h.grows e s) (ih (apply e s))

theorem replay_mono {before done : List E} (hextends : before <+: done) (s : S) :
    below (replay apply before s) (replay apply done s) := by
  rcases hextends with ⟨rest,hdone⟩
  rw [← hdone,replay_append]
  exact h.below_replay rest _

theorem absorbed {before done : List E} {e : E} (hextends : before++[e] <+: done) (s : S) :
    apply e (replay apply done s) = replay apply done s := by
  apply h.absorbs e (replay apply before s)
  rw [← replay_concat apply before e s]
  exact h.replay_mono hextends s

/-- Two machines on one log are never apart: one of them contains the other. -/
theorem comparable {log first second : List E} (hfirst : first <+: log) (hsecond : second <+: log)
    (s : S) : below (replay apply first s) (replay apply second s) ∨
      below (replay apply second s) (replay apply first s) := by
  rcases List.prefix_or_prefix_of_prefix hfirst hsecond with hle | hle
  · exact Or.inl (h.replay_mono hle s)
  · exact Or.inr (h.replay_mono hle s)

/-- The next entry behind some place which the machine has passed or stands at. -/
theorem resume {log start done : List E} {e : E} (hnext : start++[e] <+: log) (hdone : done <+: log)
    (hpassed : start <+: done) (s : S) :
    ∃ done', done <+: done' ∧ done' <+: log ∧ start++[e] <+: done' ∧
      apply e (replay apply done s) = replay apply done' s := by
  by_cases hlength : (start++[e]).length ≤ done.length
  · have hextends := List.prefix_of_prefix_length_le hnext hdone hlength
    exact ⟨done,List.prefix_rfl,hdone,hextends,h.absorbed hextends s⟩
  · have hshort : done.length ≤ start.length := by
      rw [List.length_append,List.length_singleton] at hlength
      omega
    rw [← hpassed.eq_of_length_le hshort]
    exact ⟨start++[e],List.prefix_append start [e],hnext,List.prefix_rfl,
      (replay_concat apply start e s).symm⟩

end Absorbing

end OmegaHarness.AbsorbingLogs
