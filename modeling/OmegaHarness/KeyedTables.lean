import Mathlib.Data.Finmap
import Mathlib.Data.Finset.Sort
import Mathlib.Tactic

/-!
# Tables with a primary key

A table is a finite map from keys to rows. An insert refuses a key which is
taken; a batch of rows goes in one after the other exactly when its keys are
pairwise different and none of them is taken (`Addable`).
-/
namespace OmegaHarness.KeyedTables

variable {K V E : Type}

abbrev Table (K V : Type) : Type := Finmap fun _ : K => V

/-- Every row of the batch finds its key free when its turn comes. -/
structure Addable (t : Table K V) (rows : List (K × V)) : Prop where
  nodup : (rows.map Prod.fst).Nodup
  fresh : ∀ k ∈ rows.map Prod.fst, k ∉ t

theorem addable_nil (t : Table K V) : Addable t [] := ⟨by simp,by simp⟩

theorem addable_empty {rows : List (K × V)} :
    Addable (∅ : Table K V) rows ↔ (rows.map Prod.fst).Nodup :=
  ⟨fun h => h.nodup,fun h => ⟨h,fun _ _ => Finmap.notMem_empty⟩⟩

/-- What can be added to a table can be added to a smaller one. -/
theorem Addable.of_subset {t u : Table K V} {rows : List (K × V)} (h : Addable u rows)
    (hsubset : ∀ k ∈ t, k ∈ u) : Addable t rows :=
  ⟨h.nodup,fun k hk hmem => h.fresh k hk (hsubset k hmem)⟩

theorem addable_empty_one (row : K × V) : Addable (∅ : Table K V) [row] :=
  addable_empty.mpr (by simp)

variable [DecidableEq K]

/-- `INSERT`: the given error when the primary key is taken. -/
def insertRow (conflict : E) (k : K) (v : V) (t : Table K V) : Except E (Table K V) :=
  if k ∈ t then .error conflict else .ok (t.insert k v)

theorem insertRow_ok {conflict : E} {k : K} {v : V} {t u : Table K V} :
    insertRow conflict k v t = .ok u ↔ k ∉ t ∧ u = t.insert k v := by
  unfold insertRow
  by_cases h : k ∈ t
  · simp [h]
  · simp [h,eq_comm]

/-- `or_insert`: a key which is taken keeps its row. -/
def orInsert (k : K) (v : V) (t : Table K V) : Table K V := if k ∈ t then t else t.insert k v

theorem lookup_orInsert (k : K) (v : V) (t : Table K V) (j : K) :
    (orInsert k v t).lookup j = (t.lookup j).or (if k = j then some v else none) := by
  unfold orInsert
  by_cases htaken : k ∈ t
  · rw [if_pos htaken]
    by_cases hj : k = j
    · obtain ⟨row,hrow⟩ := Finmap.mem_iff.mp htaken
      rw [← hj,hrow,Option.some_or]
    · rw [if_neg hj,Option.or_none]
  · rw [if_neg htaken]
    by_cases hj : k = j
    · rw [← hj,Finmap.lookup_insert,Finmap.lookup_eq_none.mpr htaken,if_pos rfl,Option.none_or]
    · rw [Finmap.lookup_insert_of_ne _ (Ne.symm hj),if_neg hj,Option.or_none]

/-- Under each key stands what the first element with it brought. -/
theorem lookup_foldl_orInsert {A : Type} (key : A → K) (value : A → V) (as : List A)
    (t : Table K V) (k : K) :
    (as.foldl (fun t a => orInsert (key a) (value a) t) t).lookup k =
      (t.lookup k).or ((as.find? fun a => key a = k).map value) := by
  induction as generalizing t with
  | nil => simp
  | cons a as ih =>
      rw [List.foldl_cons,ih,lookup_orInsert,Option.or_assoc,List.find?_cons]
      by_cases hkey : key a = k
      · simp [hkey]
      · simp [hkey]

/-- `DELETE`: only the rows whose key satisfies the predicate stay. -/
def keepRows (p : K → Bool) (t : Table K V) : Table K V where
  entries := t.entries.filter fun row => p row.1
  nodupKeys := by
    rw [← Multiset.nodup_keys]
    apply Multiset.nodup_of_le (Multiset.map_le_map (Multiset.filter_le _ _))
    exact Multiset.nodup_keys.mpr t.nodupKeys

theorem lookup_keepRows (p : K → Bool) (t : Table K V) (k : K) :
    (keepRows p t).lookup k = if p k then t.lookup k else none := by
  apply Option.ext
  intro v
  have hkept : (keepRows p t).lookup k = some v ↔ t.lookup k = some v ∧ p k = true := by
    rw [Finmap.lookup_eq_some_iff,Finmap.lookup_eq_some_iff]
    exact Multiset.mem_filter
  rw [hkept]
  by_cases hk : p k = true <;> simp [hk]

/-- The rows in order, each as a new row. -/
def addAll (t : Table K V) : List (K × V) → Table K V
  | [] => t
  | row::rows => addAll (t.insert row.1 row.2) rows

theorem erase_absent {t : Table K V} {k : K} (h : k ∉ t) : t.erase k = t := by
  apply Finmap.ext_lookup
  intro other
  by_cases hother : other = k
  · rw [hother,Finmap.lookup_erase,Finmap.lookup_eq_none.mpr h]
  · exact Finmap.lookup_erase_ne hother

theorem insert_erase (t : Table K V) (k : K) (v : V) : (t.erase k).insert k v = t.insert k v := by
  apply Finmap.ext_lookup
  intro other
  by_cases hother : other = k
  · rw [hother,Finmap.lookup_insert,Finmap.lookup_insert]
  · rw [Finmap.lookup_insert_of_ne _ hother,Finmap.lookup_insert_of_ne _ hother,
      Finmap.lookup_erase_ne hother]

theorem erase_insert (t : Table K V) (k : K) (v : V) : (t.insert k v).erase k = t.erase k := by
  apply Finmap.ext_lookup
  intro other
  by_cases hother : other = k
  · rw [hother,Finmap.lookup_erase,Finmap.lookup_erase]
  · rw [Finmap.lookup_erase_ne hother,Finmap.lookup_erase_ne hother,
      Finmap.lookup_insert_of_ne _ hother]

theorem addable_cons {t : Table K V} {row : K × V} {rows : List (K × V)} :
    Addable t (row::rows) ↔ row.1 ∉ t ∧ Addable (t.insert row.1 row.2) rows := by
  constructor
  · intro h
    have hnodup := List.nodup_cons.mp h.nodup
    refine ⟨h.fresh row.1 List.mem_cons_self,hnodup.2,?_⟩
    intro k hk
    rw [Finmap.mem_insert]
    rintro (rfl | hmem)
    · exact hnodup.1 hk
    · exact h.fresh k (List.mem_cons_of_mem _ hk) hmem
  · rintro ⟨hhead,hrest⟩
    constructor
    · rw [List.map_cons,List.nodup_cons]
      refine ⟨?_,hrest.nodup⟩
      intro hmem
      exact hrest.fresh row.1 hmem (Finmap.mem_insert.mpr (Or.inl rfl))
    · intro k hk hmem
      rcases List.mem_cons.mp hk with rfl | hk
      · exact hhead hmem
      · exact hrest.fresh k hk (Finmap.mem_insert.mpr (Or.inr hmem))

theorem addAll_append (t : Table K V) (xs ys : List (K × V)) :
    addAll t (xs++ys) = addAll (addAll t xs) ys := by
  induction xs generalizing t with
  | nil => rfl
  | cons row xs ih => exact ih _

theorem addable_append {t : Table K V} {xs ys : List (K × V)} :
    Addable t (xs++ys) ↔ Addable t xs ∧ Addable (addAll t xs) ys := by
  induction xs generalizing t with
  | nil => simp [addAll,addable_nil]
  | cons row xs ih => rw [List.cons_append,addable_cons,addable_cons,ih,addAll,and_assoc]

theorem mem_addAll {t : Table K V} {rows : List (K × V)} {k : K} :
    k ∈ addAll t rows ↔ k ∈ t ∨ k ∈ rows.map Prod.fst := by
  induction rows generalizing t with
  | nil => simp [addAll]
  | cons row rows ih =>
      rw [addAll,ih,Finmap.mem_insert,List.map_cons,List.mem_cons]
      tauto

theorem keys_addAll_empty (rows : List (K × V)) :
    (addAll (∅ : Table K V) rows).keys = (rows.map Prod.fst).toFinset := by
  ext k
  rw [Finmap.mem_keys,mem_addAll,List.mem_toFinset]
  simp [Finmap.notMem_empty]

/-- A key outside the batch keeps its row. -/
theorem lookup_addAll_outside {t : Table K V} {rows : List (K × V)} {k : K}
    (h : k ∉ rows.map Prod.fst) : (addAll t rows).lookup k = t.lookup k := by
  induction rows generalizing t with
  | nil => rfl
  | cons row rows ih =>
      rw [List.map_cons,List.mem_cons,not_or] at h
      rw [addAll,ih h.2,Finmap.lookup_insert_of_ne _ h.1]

/-- A key of the batch has the batch's row. -/
theorem lookup_addAll_inside {t : Table K V} {rows : List (K × V)} (h : Addable t rows) {k : K}
    {v : V} (hmem : (k,v) ∈ rows) : (addAll t rows).lookup k = some v := by
  induction rows generalizing t with
  | nil => cases hmem
  | cons row rows ih =>
      have htail := (addable_cons.mp h).2
      rcases List.mem_cons.mp hmem with rfl | hmem
      · have hnot : k ∉ rows.map Prod.fst := (List.nodup_cons.mp h.nodup).1
        rw [addAll,lookup_addAll_outside hnot,Finmap.lookup_insert]
      · exact ih htail hmem

/-- A table keeps its rows when others are added. -/
theorem lookup_addAll_kept {t : Table K V} {rows : List (K × V)} (h : Addable t rows) {k : K} {v : V}
    (hrow : t.lookup k = some v) : (addAll t rows).lookup k = some v := by
  have hnot : k ∉ rows.map Prod.fst := fun hkey =>
    h.fresh k hkey (Finmap.mem_of_lookup_eq_some hrow)
  rw [lookup_addAll_outside hnot,hrow]

/-- Every row of a table filled from nothing is a row of the batch. -/
theorem mem_of_lookup_addAll {rows : List (K × V)} (h : Addable ∅ rows) {k : K} {v : V}
    (hlookup : (addAll (∅ : Table K V) rows).lookup k = some v) : (k,v) ∈ rows := by
  have hkey : k ∈ rows.map Prod.fst := by
    have hmem := Finmap.mem_of_lookup_eq_some hlookup
    rw [mem_addAll] at hmem
    exact hmem.resolve_left Finmap.notMem_empty
  obtain ⟨row,hrow,rfl⟩ := List.mem_map.mp hkey
  rw [lookup_addAll_inside h (v := row.2) hrow,Option.some.injEq] at hlookup
  rw [← hlookup]
  exact hrow

/-- A batch adds as many keys as it has rows. -/
theorem card_keys_addAll {t : Table K V} {rows : List (K × V)} (h : Addable t rows) :
    (addAll t rows).keys.card = t.keys.card+rows.length := by
  induction rows generalizing t with
  | nil => rfl
  | cons row rows ih =>
      have hsplit := addable_cons.mp h
      have hkeys : (t.insert row.1 row.2).keys = insert row.1 t.keys := by
        ext k
        rw [Finmap.mem_keys,Finmap.mem_insert,Finset.mem_insert,Finmap.mem_keys]
      have hnot : row.1 ∉ t.keys := fun hmem => hsplit.1 (Finmap.mem_keys.mp hmem)
      rw [addAll,ih hsplit.2,hkeys,Finset.card_insert_of_notMem hnot,List.length_cons]
      omega

section Order
variable {L : Type} [LinearOrder L]

/-- All rows in the order of their keys. -/
def sortedRows (t : Table L V) : List (L × V) :=
  t.keys.sort.filterMap fun k => (t.lookup k).map fun v => (k,v)

theorem mem_sortedRows {t : Table L V} {k : L} {v : V} :
    (k,v) ∈ sortedRows t ↔ t.lookup k = some v := by
  rw [sortedRows,List.mem_filterMap]
  constructor
  · intro h
    rcases h with ⟨key,-,hrow⟩
    rcases Option.map_eq_some_iff.mp hrow with ⟨value,hlookup,heq⟩
    cases heq
    exact hlookup
  · intro h
    refine ⟨k,?_,by rw [h]; rfl⟩
    rw [Finset.mem_sort,Finmap.mem_keys]
    exact Finmap.mem_of_lookup_eq_some h

theorem sortedRows_ascending (t : Table L V) : (sortedRows t).Pairwise fun a b => a.1 < b.1 := by
  apply List.Pairwise.filterMap _ _ (Finset.sortedLT_sort t.keys).pairwise
  intro a a' hlt b hb b' hb'
  rcases Option.map_eq_some_iff.mp hb with ⟨_,-,rfl⟩
  rcases Option.map_eq_some_iff.mp hb' with ⟨_,-,rfl⟩
  exact hlt

/-- The rows are given by their order and by what can be looked up. -/
theorem sortedRows_eq {t : Table L V} {rows : List (L × V)}
    (hascending : rows.Pairwise fun a b => a.1 < b.1)
    (hmem : ∀ k v, (k,v) ∈ rows ↔ t.lookup k = some v) : sortedRows t = rows := by
  have hnodup {l : List (L × V)} (h : l.Pairwise fun a b => a.1 < b.1) : l.Nodup :=
    h.imp fun hlt heq => hlt.ne (congrArg Prod.fst heq)
  have hperm : (sortedRows t).Perm rows := by
    rw [List.perm_ext_iff_of_nodup (hnodup (sortedRows_ascending t)) (hnodup hascending)]
    exact fun row => mem_sortedRows.trans (hmem row.1 row.2).symm
  exact hperm.eq_of_pairwise (fun a b _ _ hab hba => (lt_asymm hab hba).elim)
    (sortedRows_ascending t) hascending

/-- The last row has the greatest key. -/
theorem sortedRows_getLast {t : Table L V} {row : L × V} (h : (sortedRows t).getLast? = some row) :
    t.lookup row.1 = some row.2 ∧ ∀ k v, t.lookup k = some v → k ≤ row.1 := by
  rcases List.getLast?_eq_some_iff.mp h with ⟨before,hrows⟩
  have hascending := sortedRows_ascending t
  rw [hrows] at hascending
  constructor
  · apply mem_sortedRows.mp
    rw [hrows]
    exact List.mem_append_right before List.mem_cons_self
  · intro k v hlookup
    have hmem := mem_sortedRows.mpr hlookup
    rw [hrows] at hmem
    rcases List.mem_append.mp hmem with hmem | hmem
    · exact ((List.pairwise_append.mp hascending).2.2 _ hmem row List.mem_cons_self).le
    · rw [← List.mem_singleton.mp hmem]

end Order

end OmegaHarness.KeyedTables
