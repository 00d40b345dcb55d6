import OmegaHarness.BoundedActors

/-!
# The order in which an actor serves its callers

The history of a bounded actor only grows, and a living thread serves what was sent first first.
So an answer which was given before another call began stands before it in the history, a command
waits for no more turns than there are commands before it, and no caller is stuck behind a full
channel.
-/
namespace OmegaHarness.BoundedActors
variable {C E R S : Type}

section Order
variable {b : Behaviour C E R S} {s₀ : S} {a a' : Actor C E R S}

theorem Step.history (h : Step b a a') : a.history <+: a'.history := by
  cases h <;> first | exact List.prefix_rfl | exact List.prefix_append _ _

theorem Runs.history (h : Runs b a a') : a.history <+: a'.history := by
  induction h with
  | refl => exact List.prefix_rfl
  | tail _ hstep ih => exact ih.trans hstep.history

/-- A living thread has served the commands in the order in which they were sent. -/
theorem Step.fifo (h : Step b a a') (halive : a'.alive = true) :
    a.alive = true ∧ served a.history++a.channel <+: served a'.history++a'.channel := by
  cases h with
  | invoke call command fresh => exact ⟨halive,List.prefix_rfl⟩
  | send call command alive phase room =>
      refine ⟨alive,?_⟩
      rw [← List.append_assoc]
      exact List.prefix_append _ _
  | refuse call command dead phase => exact ⟨halive,List.prefix_rfl⟩
  | abandon call command phase pending call_phase => exact ⟨halive,List.prefix_rfl⟩
  | serve call command rest alive next =>
      refine ⟨alive,?_⟩
      rw [served_append,next,List.append_assoc]
      exact List.prefix_rfl
  | outside event alive =>
      refine ⟨alive,?_⟩
      rw [served_append,served,served,List.append_nil]
  | die call command rest left alive next torn => cases halive

theorem Runs.fifo (h : Runs b a a') (halive : a'.alive = true) :
    a.alive = true ∧ served a.history++a.channel <+: served a'.history++a'.channel := by
  induction h with
  | refl => exact ⟨halive,List.prefix_rfl⟩
  | tail _ hstep ih =>
      have hlast := hstep.fifo halive
      have hfirst := ih hlast.1
      exact ⟨hfirst.1,hfirst.2.trans hlast.2⟩

theorem Sound.known (h : Sound b s₀ a) {call : ℕ} {command : C}
    (hserved : (call,command) ∈ served a.history) : ∃ phase, a.calls call = some (command,phase) := by
  obtain ⟨reply,hreply⟩ := @answers_of_mem _ _ _ _ b s₀ _ _ _ hserved
  rcases h.replied _ _ _ hreply with hcall | hcall <;> exact ⟨_,hcall⟩

/-- No call is served twice. -/
theorem Sound.once (h : Sound b s₀ a) {call : ℕ} {command : C} {before after : List (Turn C E)}
    (hsplit : a.history = before++.serve call command::after) :
    call ∉ (served before).map Prod.fst ∧ call ∉ (served after).map Prod.fst := by
  have hdistinct := h.distinct
  rw [List.map_append,List.nodup_append,hsplit,served_append,List.map_append,List.nodup_append,
    served,List.map_cons,List.nodup_cons] at hdistinct
  exact ⟨fun hmem => hdistinct.1.2.2 call hmem call List.mem_cons_self rfl,hdistinct.1.2.1.1⟩

/-- A history which lacks a turn of a longer one ends before it. -/
theorem prefix_before {l before after : List (Turn C E)} {t : Turn C E} (h : l <+: before++t::after)
    (ht : t ∉ l) : l <+: before := by
  rcases List.prefix_or_prefix_of_prefix h (List.prefix_append before (t::after)) with hshort | hlong
  · exact hshort
  · obtain ⟨more,rfl⟩ := hlong
    have hmore := (List.prefix_append_right_inj before).mp h
    cases more with
    | nil => simp
    | cons t' more =>
        cases (List.cons_prefix_cons.mp hmore).1
        exact (ht (List.mem_append_right _ List.mem_cons_self)).elim

/-- What was answered before a call began comes before it in the history. -/
theorem real_time (hsound : Sound b s₀ a) (hruns : Runs b a a') {first second : ℕ} {c d : C} {r : R}
    {before after : List (Turn C E)} (hfirst : a.calls first = some (c,.answered r))
    (hsecond : a.calls second = none) (hsplit : a'.history = before++.serve second d::after) :
    (first,c) ∈ served before := by
  have hnew : Turn.serve second d ∉ a.history := by
    intro hmem
    obtain ⟨x,y,hxy⟩ := List.append_of_mem hmem
    obtain ⟨phase,hphase⟩ := hsound.known (mem_served.mpr ⟨x,y,hxy⟩)
    rw [hsecond] at hphase
    cases hphase
  obtain ⟨more,hmore⟩ := prefix_before (hsplit ▸ hruns.history) hnew
  rw [← hmore,served_append]
  exact List.mem_append_left _ (answers_mem (hsound.answered _ _ _ hfirst))

/-- What began after a call was answered does not come before it in the history. -/
theorem later_call (hsound : Sound b s₀ a) (hruns : Runs b a a') {first second : ℕ} {c d : C} {r : R}
    {before after : List (Turn C E)} (hfirst : a.calls first = some (c,.answered r))
    (hsecond : a.calls second = none) (hsplit : a'.history = before++.serve first c::after) :
    (second,d) ∉ served before := by
  intro hmem
  obtain ⟨x,y,rfl⟩ := mem_served.mp hmem
  have hearlier : (first,c) ∈ served x := by
    apply real_time hsound hruns hfirst hsecond
    rw [hsplit,List.append_assoc,List.cons_append]
  have honce := ((hsound.runs hruns).once hsplit).1
  rw [served_append,List.map_append] at honce
  exact honce (List.mem_append_left _ (List.mem_map.mpr ⟨_,hearlier,rfl⟩))

/-- The command with `k` others before it is served by the time `k+1` turns have been taken. -/
theorem served_in_turn (hruns : Runs b a a') (halive : a'.alive = true) {k : ℕ} {p : ℕ × C}
    (hp : a.channel[k]? = some p)
    (hturns : (served a.history).length+k < (served a'.history).length) : p ∈ served a'.history := by
  obtain ⟨later,hlater⟩ := (hruns.fifo halive).2
  have hplace : (served a.history++a.channel)[(served a.history).length+k]? = some p := by
    rw [List.getElem?_append_right (Nat.le_add_right _ _),Nat.add_sub_cancel_left]
    exact hp
  have hlong := (List.getElem?_eq_some_iff.mp hplace).1
  have hfound : (served a'.history++a'.channel)[(served a.history).length+k]? = some p := by
    rw [← hlater,List.getElem?_append_left hlong]
    exact hplace
  rw [List.getElem?_append_left hturns] at hfound
  exact List.mem_of_getElem? hfound

/-- The phases when the channel is emptied and no caller moves. -/
def Settles (a a' : Actor C E R S) : Prop :=
  ∀ i c phase, a.calls i = some (c,phase) → a'.calls i = some (c,phase) ∨
    phase = .waiting ∧ ∃ r, a'.calls i = some (c,.answered r)

theorem Settles.trans {a'' : Actor C E R S} (h : Settles a a') (h' : Settles a' a'') : Settles a a'' := by
  intro i c phase hcall
  rcases h i c phase hcall with hsame | ⟨hphase,r,hanswered⟩
  · exact h' i c phase hsame
  · rcases h' i c _ hanswered with hsame | ⟨hwrong,-⟩
    · exact Or.inr ⟨hphase,r,hsame⟩
    · cases hwrong

theorem drained (hsound : Sound b s₀ a) (halive : a.alive = true) :
    ∃ a', Runs b a a' ∧ a'.alive = true ∧ a'.channel = [] ∧ Settles a a' := by
  generalize hchannel : a.channel = channel
  induction channel generalizing a with
  | nil => exact ⟨a,.refl,halive,hchannel,fun _ _ _ h => Or.inl h⟩
  | cons p rest ih =>
      obtain ⟨call,command⟩ := p
      have hstep := Step.serve (b := b) call command rest halive hchannel
      obtain ⟨a',hruns,halive',hempty,hsettles⟩ := ih (hsound.step hstep) halive rfl
      refine ⟨a',.head hstep hruns,halive',hempty,Settles.trans ?_ hsettles⟩
      intro i c phase hcall
      by_cases hi : i = call
      · subst hi
        dsimp only
        rw [only_self hcall]
        cases phase with
        | waiting => exact Or.inr ⟨rfl,_,rfl⟩
        | _ => exact Or.inl rfl
      · left
        exact (only_other a hi _).trans hcall

/-- No caller is stuck: with room for one command in the channel, a living thread can answer
whoever sends or waits. -/
theorem answerable (hsound : Sound b s₀ a) (halive : a.alive = true) (hroom : 0 < b.capacity)
    {call : ℕ} {c : C} {phase : Phase R} (hcall : a.calls call = some (c,phase))
    (hphase : phase = .sending ∨ phase = .waiting) :
    ∃ a' r, Runs b a a' ∧ a'.calls call = some (c,.answered r) := by
  have hwaiting {x : Actor C E R S} (hx : Sound b s₀ x) (hlive : x.alive = true)
      (hcalls : x.calls call = some (c,.waiting)) :
      ∃ x' r, Runs b x x' ∧ x'.calls call = some (c,.answered r) := by
    obtain ⟨x',hruns,-,hempty,hsettles⟩ := drained hx hlive
    rcases hsettles _ _ _ hcalls with hsame | ⟨-,r,hanswered⟩
    · have hmem := (hx.runs hruns).waiting _ _ hsame
      rw [hempty] at hmem
      cases hmem
    · exact ⟨x',r,hruns,hanswered⟩
  rcases hphase with rfl | rfl
  · obtain ⟨x,hruns,hlive,hempty,hsettles⟩ := drained hsound halive
    have hsending := (hsettles _ _ _ hcall).resolve_right (by simp)
    have hstep := Step.send (b := b) call c hlive hsending (by rw [hempty]; exact hroom)
    obtain ⟨x',r,hruns',hanswered⟩ := hwaiting ((hsound.runs hruns).step hstep) hlive
      (only_self hsending fun _ => .waiting)
    exact ⟨x',r,hruns.trans (.head hstep hruns'),hanswered⟩
  · exact hwaiting hsound halive hcall

/-- A call finds room in the channel of a living thread and waits behind it. -/
theorem sent_next (halive : a.alive = true) (hroom : a.channel.length < b.capacity) (call : ℕ)
    (hfresh : a.calls call = none) (c : C) :
    ∃ a', Runs b a a' ∧ a'.alive = true ∧ a'.channel = a.channel++[(call,c)] ∧ a'.state = a.state ∧
      a'.history = a.history ∧ a'.calls call = some (c,.waiting) ∧
      ∀ i ≠ call, a'.calls i = a.calls i := by
  have hinvoke := Step.invoke (b := b) call c hfresh
  generalize hx : { a with calls := Function.update a.calls call (some (c,.sending)) } = x at hinvoke
  have hsending : x.calls call = some (c,.sending) := by
    rw [← hx]
    exact Function.update_self _ _ _
  have hsend := Step.send (b := b) (a := x) call c (by rw [← hx]; exact halive) hsending
    (by rw [← hx]; exact hroom)
  refine ⟨_,.head hinvoke (.single hsend),?_,?_,?_,?_,?_,?_⟩ <;> dsimp only
  · rw [← hx]
    exact halive
  · rw [← hx]
  · rw [← hx]
  · rw [← hx]
  · exact only_self hsending fun _ => .waiting
  · intro i hi
    rw [only_other x hi,← hx]
    exact Function.update_of_ne hi _ _

/-- The thread answers the caller whose command stands first in the channel. -/
theorem answered_next (halive : a.alive = true) {call : ℕ} {c : C} {rest : List (ℕ × C)}
    (hnext : a.channel = (call,c)::rest) (hwaiting : a.calls call = some (c,.waiting)) :
    ∃ a', Runs b a a' ∧ a'.alive = true ∧ a'.channel = rest ∧ a'.state = (b.handle c a.state).2 ∧
      a'.history = a.history++[.serve call c] ∧
      a'.calls call = some (c,.answered (b.handle c a.state).1) ∧
      ∀ i ≠ call, a'.calls i = a.calls i :=
  ⟨_,.single (Step.serve call c rest halive hnext),halive,rfl,rfl,rfl,only_self hwaiting _,
    fun _ hi => only_other a hi _⟩

/-- One caller at a time: with nothing in the channel, a call is sent, served and answered. -/
theorem served_next (hroom : 0 < b.capacity) (halive : a.alive = true) (hempty : a.channel = [])
    (call : ℕ) (hfresh : a.calls call = none) (c : C) :
    ∃ a', Runs b a a' ∧ a'.alive = true ∧ a'.channel = [] ∧ a'.state = (b.handle c a.state).2 ∧
      a'.history = a.history++[.serve call c] ∧
      a'.calls call = some (c,.answered (b.handle c a.state).1) ∧
      ∀ i ≠ call, a'.calls i = a.calls i := by
  obtain ⟨x,hsent,hlive,hchannel,hstate,hhistory,hwaiting,hothers⟩ :=
    sent_next halive (by rw [hempty]; exact hroom) call hfresh c
  rw [hempty,List.nil_append] at hchannel
  obtain ⟨y,hserved,hlive',hrest,hturn,hhistory',hanswered,hothers'⟩ :=
    answered_next (b := b) hlive hchannel hwaiting
  rw [hstate] at hturn hanswered
  rw [hhistory] at hhistory'
  exact ⟨y,hsent.trans hserved,hlive',hrest,hturn,hhistory',hanswered,
    fun i hi => (hothers' i hi).trans (hothers i hi)⟩

end Order

end OmegaHarness.BoundedActors
