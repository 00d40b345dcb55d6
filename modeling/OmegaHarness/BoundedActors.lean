import Mathlib.Data.List.Infix
import Mathlib.Logic.Function.Basic
import Mathlib.Logic.Relation

/-!
# Actors behind a bounded channel

One thread owns a state and serves commands from a bounded first-in first-out channel. A
caller waits for room in the channel, puts its command into it and waits for the one reply to
it. The caller may give up at any moment; a command which is in the channel is served all the
same, and its reply is dropped. Between two turns the surroundings of the thread may change its
state. The thread may die inside a turn, which leaves the state somewhere in the middle of that
turn, drops the commands behind it and closes the channel.

The history of an actor is a ghost: the turns it has taken, oldest first. Nothing reads it.
-/
namespace OmegaHarness.BoundedActors

/-- How far a caller has come with its call. -/
inductive Phase (R : Type)
  | sending
  | waiting
  | answered (reply : R)
  | closed
  | canceled
  | abandoned
  deriving DecidableEq

/-- The reply reaches a caller which still waits for it. -/
def Phase.receive {R : Type} (reply : R) : Phase R → Phase R
  | .waiting => .answered reply
  | phase => phase

/-- The reply of a caller which still waits is dropped. -/
def Phase.cancel {R : Type} : Phase R → Phase R
  | .waiting => .canceled
  | phase => phase

inductive Turn (C E : Type)
  | serve (call : ℕ) (command : C)
  | outside (event : E)

structure Behaviour (C E R S : Type) where
  capacity : ℕ
  handle : C → S → R × S
  disturb : E → S → S
  /-- The states in which a thread may leave a turn it dies in. -/
  torn : C → S → S → Prop

structure Actor (C E R S : Type) where
  state : S
  channel : List (ℕ × C)
  alive : Bool
  calls : ℕ → Option (C × Phase R)
  history : List (Turn C E)

variable {C E R S : Type}

def start (state : S) : Actor C E R S := ⟨state,[],true,fun _ => none,[]⟩

section Replay
variable (b : Behaviour C E R S)

def Behaviour.turn : Turn C E → S → S
  | .serve _ command,s => (b.handle command s).2
  | .outside event,s => b.disturb event s

/-- The state after some turns, one after the other. -/
def Behaviour.replay (turns : List (Turn C E)) (s : S) : S := turns.foldl (fun s t => b.turn t s) s

theorem replay_append (first second : List (Turn C E)) (s : S) :
    b.replay (first++second) s = b.replay second (b.replay first s) := List.foldl_append

theorem replay_concat (turns : List (Turn C E)) (t : Turn C E) (s : S) :
    b.replay (turns++[t]) s = b.turn t (b.replay turns s) := replay_append b turns [t] s

end Replay

/-- The calls of a history which were served, in order. -/
def served : List (Turn C E) → List (ℕ × C)
  | [] => []
  | .serve call command::rest => (call,command)::served rest
  | .outside _::rest => served rest

theorem served_append (first second : List (Turn C E)) :
    served (first++second) = served first++served second := by
  induction first with
  | nil => rfl
  | cons t rest ih => cases t <;> simp [served,ih]

theorem mem_served {turns : List (Turn C E)} {call : ℕ} {command : C} :
    (call,command) ∈ served turns ↔
      ∃ before after, turns = before++.serve call command::after := by
  induction turns with
  | nil => simp [served]
  | cons t rest ih =>
      constructor
      · intro h
        cases t with
        | outside event =>
            obtain ⟨before,after,heq⟩ := ih.mp h
            exact ⟨.outside event::before,after,by rw [heq,List.cons_append]⟩
        | serve i c =>
            rcases List.mem_cons.mp h with heq | h
            · cases heq
              exact ⟨[],rest,rfl⟩
            · obtain ⟨before,after,heq⟩ := ih.mp h
              exact ⟨.serve i c::before,after,by rw [heq,List.cons_append]⟩
      · rintro ⟨before,after,heq⟩
        rw [heq,served_append]
        exact List.mem_append_right _ List.mem_cons_self

/-- The calls after each of them has changed its phase. -/
def Actor.phases (a : Actor C E R S) (change : ℕ → Phase R → Phase R) : ℕ → Option (C × Phase R) :=
  fun i => (a.calls i).map (Prod.map id (change i))

theorem phases_of {a : Actor C E R S} {i : ℕ} {command : C} {phase : Phase R}
    (h : a.calls i = some (command,phase)) (change : ℕ → Phase R → Phase R) :
    a.phases change i = some (command,change i phase) := by
  rw [Actor.phases,h]
  rfl

theorem phases_eq_some {a : Actor C E R S} {change : ℕ → Phase R → Phase R} {i : ℕ} {command : C}
    {phase : Phase R} (h : a.phases change i = some (command,phase)) :
    ∃ old, a.calls i = some (command,old) ∧ change i old = phase := by
  obtain ⟨⟨c,old⟩,hcall,heq⟩ := Option.map_eq_some_iff.mp h
  cases heq
  exact ⟨old,hcall,rfl⟩

/-- A change of one call. -/
def only (call : ℕ) (change : Phase R → Phase R) : ℕ → Phase R → Phase R :=
  fun i => if i = call then change else id

theorem only_self {a : Actor C E R S} {call : ℕ} {command : C} {phase : Phase R}
    (h : a.calls call = some (command,phase)) (change : Phase R → Phase R) :
    a.phases (only call change) call = some (command,change phase) := by
  rw [phases_of h,only,if_pos rfl]

theorem only_other (a : Actor C E R S) {call i : ℕ} (h : i ≠ call) (change : Phase R → Phase R) :
    a.phases (only call change) i = a.calls i := by
  rw [Actor.phases,only,if_neg h,Prod.map_id,Option.map_id]
  rfl

section Steps
variable (b : Behaviour C E R S)

inductive Step : Actor C E R S → Actor C E R S → Prop
  | invoke {a : Actor C E R S} (call : ℕ) (command : C) (fresh : a.calls call = none) :
      Step a { a with calls := Function.update a.calls call (some (command,.sending)) }
  | send {a : Actor C E R S} (call : ℕ) (command : C) (alive : a.alive = true)
      (phase : a.calls call = some (command,.sending)) (room : a.channel.length < b.capacity) :
      Step a { a with
        channel := a.channel++[(call,command)]
        calls := a.phases (only call fun _ => .waiting) }
  | refuse {a : Actor C E R S} (call : ℕ) (command : C) (dead : a.alive = false)
      (phase : a.calls call = some (command,.sending)) :
      Step a { a with calls := a.phases (only call fun _ => .closed) }
  | abandon {a : Actor C E R S} (call : ℕ) (command : C) (phase : Phase R)
      (pending : phase = .sending ∨ phase = .waiting) (call_phase : a.calls call = some (command,phase)) :
      Step a { a with calls := a.phases (only call fun _ => .abandoned) }
  | serve {a : Actor C E R S} (call : ℕ) (command : C) (rest : List (ℕ × C)) (alive : a.alive = true)
      (next : a.channel = (call,command)::rest) :
      Step a { a with
        state := (b.handle command a.state).2
        channel := rest
        calls := a.phases (only call (.receive (b.handle command a.state).1))
        history := a.history++[.serve call command] }
  | outside {a : Actor C E R S} (event : E) (alive : a.alive = true) :
      Step a { a with
        state := b.disturb event a.state
        history := a.history++[.outside event] }
  | die {a : Actor C E R S} (call : ℕ) (command : C) (rest : List (ℕ × C)) (left : S)
      (alive : a.alive = true) (next : a.channel = (call,command)::rest)
      (torn : b.torn command a.state left) :
      Step a { a with
        state := left
        channel := []
        alive := false
        calls := a.phases fun _ => .cancel }

/-- Any number of steps, in any order. -/
def Runs : Actor C E R S → Actor C E R S → Prop := Relation.ReflTransGen (Step b)

end Steps

section Answers
variable (b : Behaviour C E R S) (s₀ : S)

/-- The reply to a call at its place in the history. -/
def Answers (history : List (Turn C E)) (call : ℕ) (command : C) (reply : R) : Prop :=
  ∃ before after, history = before++.serve call command::after ∧
    reply = (b.handle command (b.replay before s₀)).1

variable {b} {s₀}

theorem answers_mem {history : List (Turn C E)} {call : ℕ} {command : C} {reply : R}
    (h : Answers b s₀ history call command reply) : (call,command) ∈ served history := by
  obtain ⟨before,after,heq,-⟩ := h
  exact mem_served.mpr ⟨before,after,heq⟩

theorem answers_of_mem {history : List (Turn C E)} {call : ℕ} {command : C}
    (h : (call,command) ∈ served history) : ∃ reply, Answers b s₀ history call command reply := by
  obtain ⟨before,after,heq⟩ := mem_served.mp h
  exact ⟨_,before,after,heq,rfl⟩

/-- Later turns do not change an answer. -/
theorem Answers.append {history : List (Turn C E)} {call : ℕ} {command : C} {reply : R}
    (h : Answers b s₀ history call command reply) (later : List (Turn C E)) :
    Answers b s₀ (history++later) call command reply := by
  obtain ⟨before,after,heq,hreply⟩ := h
  refine ⟨before,after++later,?_,hreply⟩
  rw [heq,List.append_assoc,List.cons_append]

theorem answers_concat {history : List (Turn C E)} {t : Turn C E} {call : ℕ} {command : C} {reply : R} :
    Answers b s₀ (history++[t]) call command reply ↔
      Answers b s₀ history call command reply ∨
        t = .serve call command ∧ reply = (b.handle command (b.replay history s₀)).1 := by
  constructor
  · rintro ⟨before,after,heq,hreply⟩
    rcases List.eq_nil_or_concat after with rfl | ⟨rest,last,rfl⟩
    · obtain ⟨rfl,ht⟩ := List.append_inj' heq rfl
      exact Or.inr ⟨(List.cons.inj ht).1,hreply⟩
    · rw [List.concat_eq_append,← List.cons_append,← List.append_assoc] at heq
      obtain ⟨rfl,-⟩ := List.append_inj' heq rfl
      exact Or.inl ⟨before,rest,rfl,hreply⟩
  · rintro (h | ⟨rfl,hreply⟩)
    · exact h.append [t]
    · exact ⟨history,[],rfl,hreply⟩

end Answers

/-- A call which the thread's death has failed. -/
def Lost (call : Option (C × Phase R)) (command : C) : Prop :=
  call = some (command,.closed) ∨ call = some (command,.canceled)

section Invariant
variable (b : Behaviour C E R S) (s₀ : S)

/-- What holds of an actor after any run from a state `s₀`. -/
structure Sound (a : Actor C E R S) : Prop where
  bounded : a.channel.length ≤ b.capacity
  distinct : ((served a.history++a.channel).map Prod.fst).Nodup
  queued : ∀ p ∈ a.channel, a.calls p.1 = some (p.2,.waiting) ∨ a.calls p.1 = some (p.2,.abandoned)
  waiting : ∀ i c, a.calls i = some (c,.waiting) → (i,c) ∈ a.channel
  replied : ∀ i c r, Answers b s₀ a.history i c r →
    a.calls i = some (c,.answered r) ∨ a.calls i = some (c,.abandoned)
  answered : ∀ i c r, a.calls i = some (c,.answered r) → Answers b s₀ a.history i c r
  living : a.alive = true → a.state = b.replay a.history s₀
  reachable : a.alive = true → ∀ i c, ¬Lost (a.calls i) c
  dead : a.alive = false → a.channel = [] ∧ ∃ i c,
    (a.calls i = some (c,.canceled) ∨ a.calls i = some (c,.abandoned)) ∧
      i ∉ (served a.history).map Prod.fst ∧ b.torn c (b.replay a.history s₀) a.state

variable {b} {s₀} {a : Actor C E R S}

theorem sound_start : Sound b s₀ (start s₀ : Actor C E R S) where
  bounded := Nat.zero_le _
  distinct := List.nodup_nil
  queued p hp := (List.not_mem_nil hp).elim
  waiting i c h := by cases h
  replied i c r h := by
    obtain ⟨before,after,heq,-⟩ := h
    simp [start] at heq
  answered i c r h := by cases h
  living _ := rfl
  reachable _ i c h := by rcases h with h | h <;> cases h
  dead h := by cases h

/-- A call which neither waits nor was answered has not reached the channel. -/
theorem Sound.unsent (h : Sound b s₀ a) {call : ℕ}
    (hwaiting : ∀ c, a.calls call ≠ some (c,.waiting))
    (hanswered : ∀ c r, a.calls call ≠ some (c,.answered r))
    (habandoned : ∀ c, a.calls call ≠ some (c,.abandoned)) :
    call ∉ (served a.history++a.channel).map Prod.fst := by
  intro hmem
  obtain ⟨⟨i,c⟩,hp,rfl⟩ := List.mem_map.mp hmem
  rcases List.mem_append.mp hp with hserved | hqueued
  · obtain ⟨reply,hreply⟩ := @answers_of_mem _ _ _ _ b s₀ _ _ _ hserved
    rcases h.replied _ _ _ hreply with hcall | hcall
    · exact hanswered _ _ hcall
    · exact habandoned _ hcall
  · rcases h.queued _ hqueued with hcall | hcall
    · exact hwaiting _ hcall
    · exact habandoned _ hcall

/-- A call which was lost has had no effect and no answer. -/
theorem Sound.lost (h : Sound b s₀ a) {call : ℕ} {command : C} (hlost : Lost (a.calls call) command) :
    a.alive = false ∧ call ∉ (served a.history).map Prod.fst := by
  have hunsent : call ∉ (served a.history++a.channel).map Prod.fst := by
    rcases hlost with hlost | hlost <;> apply h.unsent <;> simp [hlost]
  rw [List.map_append,List.mem_append,not_or] at hunsent
  refine ⟨?_,hunsent.1⟩
  by_contra halive
  exact h.reachable (by simpa using halive) _ _ hlost

/-- The changes of a call in which the thread has no part. -/
inductive Quiet (alive : Bool) : Option (C × Phase R) → Option (C × Phase R) → Prop
  | same (call : Option (C × Phase R)) : Quiet alive call call
  | invoke (c : C) : Quiet alive none (some (c,.sending))
  | refuse (c : C) (dead : alive = false) : Quiet alive (some (c,.sending)) (some (c,.closed))
  | unsent (c : C) : Quiet alive (some (c,.sending)) (some (c,.abandoned))
  | leave (c : C) : Quiet alive (some (c,.waiting)) (some (c,.abandoned))

section Quiet
variable {alive : Bool} {x y : Option (C × Phase R)}

theorem Quiet.abandoned (h : Quiet alive x y) {c : C}
    (hx : x = some (c,.abandoned)) : y = some (c,.abandoned) := by
  cases h <;> first | exact hx | cases hx

theorem Quiet.answered (h : Quiet alive x y) {c : C} {r : R} :
    x = some (c,.answered r) ↔ y = some (c,.answered r) := by
  cases h <;> simp

theorem Quiet.canceled (h : Quiet alive x y) {c : C}
    (hx : x = some (c,.canceled)) : y = some (c,.canceled) := by
  cases h <;> first | exact hx | cases hx

theorem Quiet.waiting (h : Quiet alive x y) {c : C}
    (hy : y = some (c,.waiting)) : x = some (c,.waiting) := by
  cases h <;> first | exact hy | cases hy

theorem Quiet.queued (h : Quiet alive x y) {c : C}
    (hx : x = some (c,.waiting)) : y = some (c,.waiting) ∨ y = some (c,.abandoned) := by
  cases h with
  | same => exact Or.inl hx
  | invoke c' => cases hx
  | refuse c' dead => cases hx
  | unsent c' => cases hx
  | leave c' =>
      cases hx
      exact Or.inr rfl

theorem Quiet.lost (h : Quiet alive x y) (halive : alive = true) {c : C} (hy : Lost y c) :
    Lost x c := by
  cases h with
  | same => exact hy
  | refuse c' dead =>
      rw [halive] at dead
      cases dead
  | _ => rcases hy with hy | hy <;> cases hy

end Quiet

theorem Sound.quiet (h : Sound b s₀ a) {calls : ℕ → Option (C × Phase R)}
    (hquiet : ∀ i, Quiet a.alive (a.calls i) (calls i)) : Sound b s₀ { a with calls := calls } where
  bounded := h.bounded
  distinct := h.distinct
  queued p hp := by
    rcases h.queued p hp with hcall | hcall
    · exact (hquiet p.1).queued hcall
    · exact Or.inr ((hquiet p.1).abandoned hcall)
  waiting i c hcall := h.waiting i c ((hquiet i).waiting hcall)
  replied i c r hreply := by
    rcases h.replied i c r hreply with hcall | hcall
    · exact Or.inl ((hquiet i).answered.mp hcall)
    · exact Or.inr ((hquiet i).abandoned hcall)
  answered i c r hcall := h.answered i c r ((hquiet i).answered.mpr hcall)
  living := h.living
  reachable halive i c hlost := h.reachable halive i c ((hquiet i).lost halive hlost)
  dead halive := by
    obtain ⟨hchannel,i,c,hcall,hserved,htorn⟩ := h.dead halive
    refine ⟨hchannel,i,c,?_,hserved,htorn⟩
    rcases hcall with hcall | hcall
    · exact Or.inl ((hquiet i).canceled hcall)
    · exact Or.inr ((hquiet i).abandoned hcall)

theorem quiet_update {alive : Bool} {calls : ℕ → Option (C × Phase R)} {call : ℕ}
    {y : Option (C × Phase R)} (h : Quiet alive (calls call) y) (i : ℕ) :
    Quiet alive (calls i) (Function.update calls call y i) := by
  by_cases hi : i = call
  · subst hi
    rw [Function.update_self]
    exact h
  · rw [Function.update_of_ne hi]
    exact .same _

theorem quiet_only {call : ℕ} {command : C} {phase : Phase R} {change : Phase R → Phase R}
    (hcall : a.calls call = some (command,phase))
    (h : Quiet a.alive (some (command,phase)) (some (command,change phase))) (i : ℕ) :
    Quiet a.alive (a.calls i) (a.phases (only call change) i) := by
  by_cases hi : i = call
  · subst hi
    rw [only_self hcall,hcall]
    exact h
  · rw [only_other a hi]
    exact .same _

theorem Sound.send (h : Sound b s₀ a) {call : ℕ} {command : C} (halive : a.alive = true)
    (hcall : a.calls call = some (command,.sending)) (hroom : a.channel.length < b.capacity) :
    Sound b s₀ { a with
      channel := a.channel++[(call,command)]
      calls := a.phases (only call fun _ => .waiting) } := by
  have hnew : call ∉ (served a.history++a.channel).map Prod.fst := by
    apply h.unsent <;> simp [hcall]
  have hself := only_self hcall fun _ => Phase.waiting
  have hother {i : ℕ} {c : C} {phase : Phase R} (hi : a.calls i = some (c,phase))
      (hphase : phase ≠ .sending) : a.phases (only call fun _ => .waiting) i = some (c,phase) := by
    rw [only_other,hi]
    rintro rfl
    rw [hi] at hcall
    cases hcall
    exact hphase rfl
  constructor <;> dsimp only
  case bounded =>
    rw [List.length_append]
    exact hroom
  case distinct =>
    rw [← List.append_assoc,List.map_append,List.nodup_append]
    refine ⟨h.distinct,by simp,?_⟩
    rintro x hx y hy rfl
    cases List.mem_singleton.mp hy
    exact hnew hx
  case queued =>
    intro p hp
    rcases List.mem_append.mp hp with hp | hp
    · exact (h.queued p hp).imp (hother · (by simp)) (hother · (by simp))
    · cases List.mem_singleton.mp hp
      exact Or.inl hself
  case waiting =>
    intro i c hi
    by_cases heq : i = call
    · subst heq
      rw [hself] at hi
      cases hi
      exact List.mem_append_right _ (List.mem_singleton.mpr rfl)
    · rw [only_other a heq] at hi
      exact List.mem_append_left _ (h.waiting i c hi)
  case replied =>
    intro i c r hreply
    exact (h.replied i c r hreply).imp (hother · (by simp)) (hother · (by simp))
  case answered =>
    intro i c r hi
    by_cases heq : i = call
    · subst heq
      rw [hself] at hi
      cases hi
    · rw [only_other a heq] at hi
      exact h.answered i c r hi
  case living => exact h.living
  case reachable =>
    intro _ i c hlost
    by_cases heq : i = call
    · subst heq
      rw [hself] at hlost
      rcases hlost with hlost | hlost <;> cases hlost
    · rw [only_other a heq] at hlost
      exact h.reachable halive i c hlost
  case dead => simp [halive]

theorem Sound.serve (h : Sound b s₀ a) {call : ℕ} {command : C} {rest : List (ℕ × C)}
    (halive : a.alive = true) (hnext : a.channel = (call,command)::rest) :
    Sound b s₀ { a with
      state := (b.handle command a.state).2
      channel := rest
      calls := a.phases (only call (.receive (b.handle command a.state).1))
      history := a.history++[.serve call command] } := by
  have hstate := h.living halive
  have hids : (served (a.history++[Turn.serve call command])++rest).map Prod.fst =
      (served a.history++a.channel).map Prod.fst := by
    rw [served_append,hnext,List.append_assoc]
    rfl
  have hbounded := h.bounded
  rw [hnext] at hbounded
  have hhead : (call,command) ∈ a.channel := hnext ▸ List.mem_cons_self
  -- the commands behind this one and the earlier ones belong to other calls
  have hdistinct := h.distinct
  rw [hnext,List.map_append,List.map_cons,List.nodup_append,List.nodup_cons] at hdistinct
  obtain ⟨-,⟨hbehind,-⟩,hbefore⟩ := hdistinct
  constructor <;> dsimp only
  case bounded => exact (Nat.le_succ _).trans hbounded
  case distinct => exact hids ▸ h.distinct
  case queued =>
    intro p hp
    have hne : p.1 ≠ call := fun heq => hbehind (List.mem_map.mpr ⟨p,hp,heq⟩)
    rw [only_other a hne]
    exact h.queued p (hnext ▸ List.mem_cons_of_mem _ hp)
  case waiting =>
    intro i c hi
    by_cases heq : i = call
    · subst heq
      rcases h.queued _ hhead with hcall | hcall <;> rw [only_self hcall] at hi <;> cases hi
    · rw [only_other a heq] at hi
      have hmem := h.waiting i c hi
      rw [hnext] at hmem
      rcases List.mem_cons.mp hmem with hmem | hmem
      · exact (heq (congrArg Prod.fst hmem)).elim
      · exact hmem
  case replied =>
    intro i c r hreply
    rcases answers_concat.mp hreply with hearlier | ⟨hturn,rfl⟩
    · have hne : i ≠ call := by
        rintro rfl
        exact hbefore i (List.mem_map.mpr ⟨_,answers_mem hearlier,rfl⟩) i List.mem_cons_self rfl
      rw [only_other a hne]
      exact h.replied i c r hearlier
    · cases hturn
      rw [← hstate]
      exact (h.queued _ hhead).imp (only_self · _) (only_self · _)
  case answered =>
    intro i c r hi
    by_cases heq : i = call
    · subst heq
      rcases h.queued _ hhead with hcall | hcall <;> rw [only_self hcall] at hi <;> cases hi
      exact answers_concat.mpr (Or.inr ⟨rfl,by rw [hstate]⟩)
    · rw [only_other a heq] at hi
      exact (h.answered i c r hi).append _
  case living =>
    intro _
    rw [replay_concat,← hstate]
    rfl
  case reachable =>
    intro _ i c hlost
    by_cases heq : i = call
    · subst heq
      rcases h.queued _ hhead with hcall | hcall <;> rw [only_self hcall] at hlost <;>
        rcases hlost with hlost | hlost <;> cases hlost
    · rw [only_other a heq] at hlost
      exact h.reachable halive i c hlost
  case dead => simp [halive]

theorem Sound.outside (h : Sound b s₀ a) (halive : a.alive = true) (event : E) :
    Sound b s₀ { a with
      state := b.disturb event a.state
      history := a.history++[.outside event] } := by
  have hserved : served (a.history++[Turn.outside event]) = served a.history := by
    rw [served_append]
    exact List.append_nil _
  constructor <;> dsimp only
  case bounded => exact h.bounded
  case distinct => exact hserved ▸ h.distinct
  case queued => exact h.queued
  case waiting => exact h.waiting
  case replied =>
    intro i c r hreply
    rcases answers_concat.mp hreply with hreply | ⟨hturn,-⟩
    · exact h.replied i c r hreply
    · cases hturn
  case answered => exact fun i c r hi => (h.answered i c r hi).append _
  case living =>
    intro _
    rw [replay_concat,← h.living halive]
    rfl
  case reachable => exact h.reachable
  case dead => simp [halive]

theorem Sound.die (h : Sound b s₀ a) {call : ℕ} {command : C} {rest : List (ℕ × C)} {left : S}
    (halive : a.alive = true) (hnext : a.channel = (call,command)::rest)
    (htorn : b.torn command a.state left) :
    Sound b s₀ { a with
      state := left
      channel := []
      alive := false
      calls := a.phases fun _ => .cancel } := by
  have hids : call ∉ (served a.history).map Prod.fst := by
    have hdistinct := h.distinct
    rw [hnext,List.map_append,List.nodup_append] at hdistinct
    exact fun hmem => hdistinct.2.2 call hmem call List.mem_cons_self rfl
  have hlost := (h.queued (call,command) (hnext ▸ List.mem_cons_self)).imp
    (phases_of · fun _ => Phase.cancel) (phases_of · fun _ => Phase.cancel)
  constructor <;> dsimp only
  case bounded => exact Nat.zero_le _
  case distinct =>
    rw [List.append_nil]
    exact h.distinct.sublist ((List.sublist_append_left _ _).map _)
  case queued => exact fun p hp => (List.not_mem_nil hp).elim
  case waiting =>
    intro i c hi
    obtain ⟨old,-,hphase⟩ := phases_eq_some hi
    cases old <;> cases hphase
  case replied =>
    intro i c r hreply
    exact (h.replied i c r hreply).imp (phases_of · _) (phases_of · _)
  case answered =>
    intro i c r hi
    obtain ⟨old,hold,hphase⟩ := phases_eq_some hi
    cases old <;> cases hphase
    exact h.answered i c r hold
  case living => simp
  case reachable => simp
  case dead =>
    intro _
    rw [← h.living halive]
    exact ⟨rfl,call,command,hlost,hids,htorn⟩

theorem Sound.step {a' : Actor C E R S} (h : Sound b s₀ a) (hstep : Step b a a') : Sound b s₀ a' := by
  cases hstep with
  | invoke call command fresh => exact h.quiet (quiet_update (fresh ▸ .invoke command))
  | send call command alive phase room => exact h.send alive phase room
  | refuse call command dead phase => exact h.quiet (quiet_only phase (.refuse command dead))
  | abandon call command phase pending call_phase =>
      rcases pending with rfl | rfl
      · exact h.quiet (quiet_only call_phase (.unsent command))
      · exact h.quiet (quiet_only call_phase (.leave command))
  | serve call command rest alive next => exact h.serve alive next
  | outside event alive => exact h.outside alive event
  | die call command rest left alive next torn => exact h.die alive next torn

theorem Sound.runs {a' : Actor C E R S} (h : Sound b s₀ a) (hruns : Runs b a a') : Sound b s₀ a' := by
  induction hruns with
  | refl => exact h
  | tail _ hstep ih => exact ih.step hstep

theorem sound_runs (h : Runs b (start s₀) a) : Sound b s₀ a := sound_start.runs h

end Invariant

end OmegaHarness.BoundedActors
