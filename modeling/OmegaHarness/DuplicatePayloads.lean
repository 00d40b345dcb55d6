import OmegaHarness.Blake3Compression
import OmegaHarness.MerkleTreeV1

/-!
# The builder and repeated payloads

The builder sorts its payloads before it looks at them, so the order in which they come
does not matter, and a payload which occurs twice stands next to itself. The scan over
neighbours stops at the smallest payload which is repeated. What it reports is another
search from the front of the list, and that search ends at the first occurrence.
-/
namespace OmegaHarness.DuplicatePayloads
open Blake3Compression DomainHashes MerkleTreeV1

theorem sortPayloads_sorted (payloads : List Bytes) :
    (sortPayloads payloads).Pairwise (· ≤ ·) := List.pairwise_insertionSort _ _

/-- Two sorted lists with the same members are the same list. -/
theorem sortPayloads_of_perm {payloads payloads' : List Bytes} (h : payloads.Perm payloads') :
    sortPayloads payloads = sortPayloads payloads' := by
  have hperm : (sortPayloads payloads).Perm (sortPayloads payloads') :=
    (sortPayloads_perm payloads).trans (h.trans (sortPayloads_perm payloads').symm)
  exact hperm.eq_of_pairwise (fun _ _ _ _ => List.le_antisymm) (sortPayloads_sorted payloads)
    (sortPayloads_sorted payloads')

/-- A payload which the list holds at least twice. -/
def Repeated (payloads : List Bytes) (payload : Bytes) : Prop := 2 ≤ payloads.count payload

instance (payloads : List Bytes) (payload : Bytes) : Decidable (Repeated payloads payload) :=
  inferInstanceAs (Decidable (2 ≤ payloads.count payload))

theorem not_nodup_iff (payloads : List Bytes) :
    ¬payloads.Nodup ↔ ∃ payload, Repeated payloads payload := by
  rw [List.nodup_iff_count_le_one]
  simp only [not_forall,not_le]
  rfl

section Build
variable (blake3 : Bytes → Hash) (subTreeId : UInt8)

/-- The tree is a function of the payloads without their order, and exactly the lists with
a repeated payload are refused. -/
theorem build_of_payload_set {payloads payloads' : List Bytes} (h : payloads.Perm payloads') :
    buildV1 blake3 subTreeId payloads = buildV1 blake3 subTreeId payloads' ∧
      ((∃ e, buildV1 blake3 subTreeId payloads = .error e) ↔
        ∃ payload, Repeated payloads payload) := by
  constructor
  · unfold buildV1
    rw [sortPayloads_of_perm h]
  · rw [← not_nodup_iff]
    constructor
    · rintro ⟨e,he⟩ hnodup
      rw [buildV1_of_nodup blake3 subTreeId hnodup] at he
      cases he
    · intro hrepeated
      cases hbuilt : buildV1 blake3 subTreeId payloads with
      | error e => exact ⟨e,rfl⟩
      | ok t => exact (hrepeated (buildV1_nodup blake3 subTreeId hbuilt)).elim

end Build

theorem build_of_two_payloads :
    List.Perm [[1,2],[1]] [[1],[1,2]] ∧
      buildV1 singleChunkHash 1 [[1,2],[1]] = buildV1 singleChunkHash 1 [[1],[1,2]] ∧
      ((∃ e, buildV1 singleChunkHash 1 [[1,2],[1]] = .error e) ↔
        ∃ payload, Repeated [[1,2],[1]] payload) :=
  ⟨.swap _ _ _,build_of_payload_set singleChunkHash 1 (.swap _ _ _)⟩

section Scan

/-- The scan stops at the first repetition: behind a part without one, the payload stands
twice in a row. -/
theorem firstEqualWindow_some {sorted : List Bytes} (hsorted : sorted.Pairwise (· ≤ ·))
    {duplicate : Bytes} (h : firstEqualWindow sorted = some duplicate) :
    ∃ before after, sorted = before++duplicate::duplicate::after ∧ (before++[duplicate]).Nodup := by
  induction sorted with
  | nil => cases h
  | cons a rest ih =>
      cases rest with
      | nil => cases h
      | cons b rest =>
          rw [firstEqualWindow] at h
          split at h
          · rename_i heq
            cases h
            exact ⟨[],rest,by rw [heq]; rfl,List.nodup_singleton _⟩
          · rename_i hne
            obtain ⟨hhead,htail⟩ := List.pairwise_cons.mp hsorted
            obtain ⟨before,after,hsplit,hnodup⟩ := ih htail h
            refine ⟨a::before,after,by rw [hsplit]; rfl,?_⟩
            rw [List.cons_append]
            refine List.nodup_cons.mpr ⟨?_,hnodup⟩
            intro hmem
            have hlater : a ∈ b::rest := by
              rw [hsplit]
              simp only [List.mem_append,List.mem_cons,List.not_mem_nil,or_false] at hmem ⊢
              obtain hbefore | hdup := hmem
              · exact Or.inl hbefore
              · exact Or.inr (Or.inl hdup)
            -- the head lies below every later payload, so it could only meet its neighbour
            have hba : b ≤ a := by
              obtain heq | hmore := List.mem_cons.mp hlater
              · exact heq ▸ List.le_refl a
              · exact (List.pairwise_cons.mp htail).1 a hmore
            exact hne (List.le_antisymm (hhead b List.mem_cons_self) hba)

/-- The least of the repeated payloads. -/
structure LeastRepeated (payloads : List Bytes) (payload : Bytes) : Prop where
  repeated : Repeated payloads payload
  least : ∀ other, Repeated payloads other → payload ≤ other

theorem leastRepeated_of_split {before after : List Bytes} {duplicate : Bytes}
    (hsorted : (before++duplicate::duplicate::after).Pairwise (· ≤ ·))
    (hnodup : (before++[duplicate]).Nodup) :
    LeastRepeated (before++duplicate::duplicate::after) duplicate := by
  constructor
  · unfold Repeated
    simp only [List.count_append,List.count_cons_self]
    omega
  · intro other hother
    have hrest := (List.pairwise_append.mp hsorted).2.1
    by_cases hmem : other ∈ duplicate::duplicate::after
    · obtain heq | hlater := List.mem_cons.mp hmem
      · exact heq ▸ List.le_refl other
      · exact (List.pairwise_cons.mp hrest).1 other hlater
    · have honce := List.nodup_iff_count_le_one.mp (List.nodup_append.mp hnodup).1 other
      unfold Repeated at hother
      rw [List.count_append,List.count_eq_zero_of_not_mem hmem] at hother
      omega

theorem leastRepeated_of_perm {payloads payloads' : List Bytes} {payload : Bytes}
    (hperm : payloads.Perm payloads') (h : LeastRepeated payloads payload) :
    LeastRepeated payloads' payload := by
  have hcount (other : Bytes) : Repeated payloads' other ↔ Repeated payloads other := by
    rw [Repeated,Repeated,hperm.count_eq]
  exact ⟨(hcount payload).mpr h.repeated,fun other hother => h.least other ((hcount other).mp hother)⟩

end Scan

/-- The position of the second occurrence of the least repeated payload. -/
structure IsSecond (payloads : List Bytes) (index : ℕ) (payload : Bytes) : Prop where
  least : LeastRepeated payloads payload
  positive : 0 < index
  here : (sortPayloads payloads)[index]? = some payload
  before : (sortPayloads payloads)[index-1]? = some payload
  first : payload ∉ (sortPayloads payloads).take (index-1)

section Report
variable (blake3 : Bytes → Hash) (subTreeId : UInt8)

/-- The scan stops at the first of two neighbours, which are the least repeated payload. -/
theorem scan_split {payloads : List Bytes} {duplicate : Bytes}
    (hscan : firstEqualWindow (sortPayloads payloads) = some duplicate) :
    ∃ before after, sortPayloads payloads = before++duplicate::duplicate::after ∧
      duplicate ∉ before ∧ LeastRepeated payloads duplicate := by
  have hsorted := sortPayloads_sorted payloads
  obtain ⟨before,after,hsplit,hnodup⟩ := firstEqualWindow_some hsorted hscan
  refine ⟨before,after,hsplit,?_,?_⟩
  · intro hmem
    exact (List.nodup_append.mp hnodup).2.2 duplicate hmem duplicate List.mem_cons_self rfl
  · rw [hsplit] at hsorted
    have hleastSorted := leastRepeated_of_split hsorted hnodup
    rw [← hsplit] at hleastSorted
    exact leastRepeated_of_perm (sortPayloads_perm payloads) hleastSorted

theorem findIdx?_first {before after : List Bytes} {payload : Bytes} (habsent : payload ∉ before) :
    (before++payload::after).findIdx? (· = payload) = some before.length := by
  have hnone : before.findIdx? (fun x => decide (x = payload)) = none := by
    rw [List.findIdx?_eq_none_iff]
    intro x hx
    rw [decide_eq_false_iff_not]
    rintro rfl
    exact habsent hx
  rw [List.findIdx?_append,hnone,List.findIdx?_cons,decide_eq_true rfl]
  simp only [if_true,Option.map_some,Option.none_or,Nat.zero_add]

/-- The second of the neighbours is the second occurrence. -/
theorem isSecond_of_split {payloads before after : List Bytes} {duplicate : Bytes}
    (hsplit : sortPayloads payloads = before++duplicate::duplicate::after)
    (habsent : duplicate ∉ before) (hleast : LeastRepeated payloads duplicate) :
    IsSecond payloads (before.length+1) duplicate := by
  refine ⟨hleast,Nat.succ_pos _,?_,?_,?_⟩
  · rw [hsplit,List.getElem?_append_right (by omega),Nat.add_sub_cancel_left]
    rfl
  · rw [hsplit,Nat.add_sub_cancel,List.getElem?_append_right (le_refl _),Nat.sub_self]
    rfl
  · rw [hsplit,Nat.add_sub_cancel,List.take_left]
    exact habsent

/-- A repeated payload is reported one place too early: the index is that of the first
occurrence, and the second one follows it. -/
theorem duplicate_report_early {payloads : List Bytes}
    (h : ∃ payload, Repeated payloads payload) :
    ∃ index, buildV1 blake3 subTreeId payloads = .error (.duplicateLeafPayload subTreeId index) ∧
      (∀ payload, ¬IsSecond payloads index payload) ∧
      ∃ payload, IsSecond payloads (index+1) payload := by
  cases hscan : firstEqualWindow (sortPayloads payloads) with
  | none =>
      have hnodup := nodup_of_firstEqualWindow (sortPayloads_sorted payloads) hscan
      exact ((not_nodup_iff payloads).mpr h
        ((sortPayloads_perm payloads).nodup_iff.mp hnodup)).elim
  | some duplicate =>
      obtain ⟨before,after,hsplit,habsent,hleast⟩ := scan_split hscan
      have hfound : (sortPayloads payloads).findIdx? (· = duplicate) = some before.length := by
        rw [hsplit]
        exact findIdx?_first habsent
      refine ⟨before.length,?_,?_,duplicate,isSecond_of_split hsplit habsent hleast⟩
      · unfold buildV1
        dsimp only
        rw [hscan]
        dsimp only
        rw [hfound]
        rfl
      · -- the payload in front of the reported index would be the least repeated one as well
        intro payload hsecond
        have heq : payload = duplicate := List.le_antisymm
          (hsecond.least.least duplicate hleast.repeated)
          (hleast.least payload hsecond.least.repeated)
        have hbefore := hsecond.before
        have hpositive := hsecond.positive
        rw [hsplit,List.getElem?_append_left (by omega)] at hbefore
        exact habsent (heq ▸ List.mem_of_getElem? hbefore)

end Report

theorem twice_reported_early :
    (∃ payload, Repeated [[7],[7]] payload) ∧
      ∃ index, buildV1 singleChunkHash 1 [[7],[7]] =
          .error (.duplicateLeafPayload 1 index) ∧
        (∀ payload, ¬IsSecond [[7],[7]] index payload) ∧
        ∃ payload, IsSecond [[7],[7]] (index+1) payload :=
  ⟨⟨[7],by decide⟩,duplicate_report_early singleChunkHash 1 ⟨[7],by decide⟩⟩

/-- Of the list with the payload 7 twice the builder reports the index 0, and nothing
stands in front of it. -/
theorem twice_reported_at_zero :
    buildV1 singleChunkHash 1 [[7],[7]] = .error (.duplicateLeafPayload 1 0) ∧
      ∀ payload, ¬IsSecond [[7],[7]] 0 payload := by
  constructor
  · decide
  · intro payload h
    exact absurd h.positive (lt_irrefl 0)

end OmegaHarness.DuplicatePayloads
