import Mathlib.Data.Nat.Bitwise
import OmegaHarness.FiniteCollisions

/-!
# Layered binary trees over an arbitrary node function

A layer is a list. The next layer pairs neighbours with one supplied binary
function, and the loop stops at the first layer of at most one element. Nothing
here knows what a node is: the function is a parameter, and so is its type.

Three facts carry every use. Walking a position's own siblings rebuilds the root.
A walk that reaches the root with any siblings at all either used the tree's own
leaf and siblings or fed the node function two different pairs with one image. Two
rows of one width with one root are equal, with the same exception. The alternative
names both pairs: each lies in the finite list of inputs of its walk or tree.
-/
namespace OmegaHarness.LayeredTree
open FiniteCollisions

variable {A : Type}

/-- Chunks of two, in order; an odd list ends in a chunk of one. -/
def chunksOfTwo : List A → List (List A)
  | [] => []
  | [a] => [[a]]
  | a::b::rest => [a,b]::chunksOfTwo rest

theorem chunksOfTwo_length : ∀ xs : List A, (chunksOfTwo xs).length = (xs.length+1)/2
  | [] => by simp [chunksOfTwo]
  | [_] => by simp [chunksOfTwo]
  | _::_::rest => by
      simp only [chunksOfTwo,List.length_cons,chunksOfTwo_length rest]
      omega

/-- In an even list every chunk is full, so both reads of a chunk are in range. -/
theorem chunksOfTwo_full : ∀ xs : List A, xs.length % 2 = 0 →
    ∀ chunk ∈ chunksOfTwo xs, chunk.length = 2
  | [],_ => by simp [chunksOfTwo]
  | [_],h => by simp at h
  | a::b::rest,h => by
      have hrest := chunksOfTwo_full rest (by simp only [List.length_cons] at h; omega)
      simp only [chunksOfTwo,List.mem_cons,forall_eq_or_imp]
      exact ⟨rfl,hrest⟩

section Layers
variable [Inhabited A] (node : A → A → A)

def nextLayer (prev : List A) : List A :=
  (chunksOfTwo prev).map fun chunk => node chunk[0]! chunk[1]!

/-- The pairs which `nextLayer` feeds to the node function. -/
def layerPairs (prev : List A) : List (A × A) :=
  (chunksOfTwo prev).map fun chunk => (chunk[0]!,chunk[1]!)

@[simp] theorem nextLayer_length (prev : List A) :
    (nextLayer node prev).length = (prev.length+1)/2 := by
  simp [nextLayer,chunksOfTwo_length]

theorem nextLayer_get : ∀ (prev : List A) (j : ℕ), 2*j+1 < prev.length →
    (nextLayer node prev)[j]! = node prev[2*j]! prev[2*j+1]!
  | [],_,h => by simp at h
  | [_],_,h => by simp only [List.length_singleton] at h; omega
  | _::_::_,0,_ => by simp [nextLayer,chunksOfTwo]
  | a::b::rest,j+1,h => by
      have ih := nextLayer_get rest j (by simp only [List.length_cons] at h; omega)
      have hcons : nextLayer node (a::b::rest) = node a b::nextLayer node rest := by
        simp [nextLayer,chunksOfTwo]
      rw [hcons,show 2*(j+1) = 2*j+1+1 by ring]
      simpa only [List.getElem!_cons_succ] using ih

theorem layerPairs_mem : ∀ (prev : List A) (j : ℕ), 2*j+1 < prev.length →
    (prev[2*j]!,prev[2*j+1]!) ∈ layerPairs prev
  | [],_,h => by simp at h
  | [_],_,h => by simp only [List.length_singleton] at h; omega
  | _::_::_,0,_ => by simp [layerPairs,chunksOfTwo]
  | a::b::rest,j+1,h => by
      have ih := layerPairs_mem rest j (by simp only [List.length_cons] at h; omega)
      have hcons : layerPairs (a::b::rest) = (a,b)::layerPairs rest := by
        simp [layerPairs,chunksOfTwo]
      rw [hcons,show 2*(j+1) = 2*j+1+1 by ring]
      simpa only [List.getElem!_cons_succ] using List.mem_cons_of_mem _ ih

/-- The building loop: push the next layer while the last one has more than
one element. The result starts with the layer it was called on. -/
def growLayers (prev : List A) : List (List A) :=
  if 1 < prev.length then prev::growLayers (nextLayer node prev) else [prev]
termination_by prev.length
decreasing_by
  rw [nextLayer_length]
  omega

/-- The element reached after a fixed number of pairings. -/
def rootAt : ℕ → List A → A
  | 0,leaves => leaves[0]!
  | depth+1,leaves => rootAt depth (nextLayer node leaves)

/-- Every pair fed to the node function in a fixed number of pairings. -/
def treePairs : ℕ → List A → List (A × A)
  | 0,_ => []
  | depth+1,leaves => layerPairs leaves++treePairs depth (nextLayer node leaves)

theorem nextLayer_two_pow {prev : List A} {depth : ℕ} (h : prev.length = 2^(depth+1)) :
    (nextLayer node prev).length = 2^depth := by
  rw [nextLayer_length,h,pow_succ]
  omega

theorem growLayers_succ {prev : List A} {depth : ℕ} (h : prev.length = 2^(depth+1)) :
    growLayers node prev = prev::growLayers node (nextLayer node prev) := by
  have hp := Nat.one_lt_two_pow (Nat.succ_ne_zero depth)
  rw [growLayers,if_pos (by rw [h]; exact hp)]

theorem growLayers_zero {prev : List A} (h : prev.length ≤ 1) :
    growLayers node prev = [prev] := by
  rw [growLayers,if_neg (by omega)]

theorem growLayers_length {leaves : List A} {depth : ℕ} (h : leaves.length = 2^depth) :
    (growLayers node leaves).length = depth+1 := by
  induction depth generalizing leaves with
  | zero => rw [growLayers_zero node (by rw [h]; rfl)]; rfl
  | succ depth ih =>
      rw [growLayers_succ node h,List.length_cons,ih (nextLayer_two_pow node h)]

theorem growLayers_head (prev : List A) : (growLayers node prev)[0]! = prev := by
  rw [growLayers]
  split <;> simp

theorem growLayers_root {leaves : List A} {depth : ℕ} (h : leaves.length = 2^depth) :
    ((growLayers node leaves).getLast!)[0]! = rootAt node depth leaves := by
  induction depth generalizing leaves with
  | zero => rw [growLayers_zero node (by rw [h]; rfl)]; rfl
  | succ depth ih =>
      have hne : growLayers node (nextLayer node leaves) ≠ [] := by
        intro hnil
        have hlen := growLayers_length node (nextLayer_two_pow node h)
        simp [hnil] at hlen
      rw [growLayers_succ node h,rootAt,← ih (nextLayer_two_pow node h)]
      congr 1
      rw [List.getLast!_eq_getLast?_getD,List.getLast!_eq_getLast?_getD,List.getLast?_cons]
      cases hlast : (growLayers node (nextLayer node leaves)).getLast? with
      | none => exact (hne (List.getLast?_eq_none_iff.mp hlast)).elim
      | some last => rfl

/-- Above a row of more than one element the root is a node of one of the tree's pairs. -/
theorem rootAt_pair {leaves : List A} {depth : ℕ} (h : leaves.length = 2^(depth+1)) :
    ∃ p ∈ treePairs node (depth+1) leaves, rootAt node (depth+1) leaves = node p.1 p.2 := by
  induction depth generalizing leaves with
  | zero =>
      have htwo : 2*0+1 < leaves.length := by rw [h]; decide
      refine ⟨_,List.mem_append_left _ (layerPairs_mem leaves 0 htwo),?_⟩
      exact nextLayer_get node leaves 0 htwo
  | succ depth ih =>
      obtain ⟨p,hp,hroot⟩ := ih (nextLayer_two_pow node h)
      exact ⟨p,List.mem_append_right _ hp,hroot⟩

end Layers

/-- The pair which one climbing step combines: bit zero of the index keeps the
current element on the left. -/
def orderedPair (idx : ℕ) (current sibling : A) : A × A :=
  if idx % 2 = 0 then (current,sibling) else (sibling,current)

theorem orderedPair_inj {idx : ℕ} {a b c d : A} (h : orderedPair idx a b = orderedPair idx c d) :
    a = c ∧ b = d := by
  unfold orderedPair at h
  split at h
  · exact Prod.mk.inj h
  · exact (Prod.mk.inj h).symm

section Walk
variable (node : A → A → A)

/-- Climb from one element along the low bits of an index. -/
def walk : A → ℕ → List A → A
  | current,_,[] => current
  | current,idx,sibling::rest =>
      let pair := orderedPair idx current sibling
      walk (node pair.1 pair.2) (idx/2) rest

/-- The pairs which the climb feeds to the node function. -/
def walkPairs : A → ℕ → List A → List (A × A)
  | _,_,[] => []
  | current,idx,sibling::rest =>
      let pair := orderedPair idx current sibling
      pair::walkPairs (node pair.1 pair.2) (idx/2) rest

/-- One more sibling is one more node, ordered by the next bit of the index. -/
theorem walk_concat (current : A) (idx : ℕ) (siblings : List A) (sibling : A) :
    walk node current idx (siblings++[sibling]) =
      let pair := orderedPair (idx/2^siblings.length) (walk node current idx siblings) sibling
      node pair.1 pair.2 := by
  induction siblings generalizing current idx with
  | nil => simp [walk]
  | cons first rest ih =>
      simp only [List.cons_append,walk,List.length_cons]
      rw [ih,Nat.div_div_eq_div_mul,← pow_succ']

variable [Inhabited A]

/-- The other element of a position's pair. -/
def siblingOf (layer : List A) (pos : ℕ) : A :=
  layer[if pos % 2 = 0 then pos+1 else pos-1]!

/-- The tree's own siblings along the low bits of an index. -/
def siblingsAt : ℕ → List A → ℕ → List A
  | 0,_,_ => []
  | depth+1,leaves,idx =>
      siblingOf leaves (idx % 2^(depth+1))::siblingsAt depth (nextLayer node leaves) (idx/2)

@[simp] theorem siblingsAt_length (depth : ℕ) (leaves : List A) (idx : ℕ) :
    (siblingsAt node depth leaves idx).length = depth := by
  induction depth generalizing leaves idx with
  | zero => rfl
  | succ depth ih => simp [siblingsAt,ih]

/-- Dropping the lowest bit commutes with reducing to the tree's width. -/
theorem half_mod (idx depth : ℕ) : idx/2 % 2^depth = (idx % 2^(depth+1))/2 := by
  rw [pow_succ,Nat.mul_comm,Nat.mod_mul_right_div_self]

theorem mod_lt_width (idx depth : ℕ) : idx % 2^depth < 2^depth :=
  Nat.mod_lt _ (Nat.two_pow_pos depth)

/-- The all-ones index addresses the last position of every layer it covers. -/
theorem ones_mod_width {width depth : ℕ} (h : depth ≤ width) : (2^width-1) % 2^depth = 2^depth-1 := by
  obtain ⟨k,rfl⟩ := Nat.exists_eq_add_of_le h
  have hpos := Nat.two_pow_pos k
  have hsplit : 2^(depth+k)-1 = 2^depth-1+2^depth*(2^k-1) := by
    rw [pow_add,Nat.mul_sub,Nat.mul_one]
    have hle : 2^depth ≤ 2^depth*2^k := Nat.le_mul_of_pos_right _ hpos
    have hone := Nat.two_pow_pos depth
    omega
  rw [hsplit,Nat.add_mul_mod_self_left,Nat.mod_eq_of_lt (by have := Nat.two_pow_pos depth; omega)]

theorem mod_two_of_width (idx depth : ℕ) : idx % 2^(depth+1) % 2 = idx % 2 :=
  Nat.mod_mod_of_dvd _ ⟨2^depth,by rw [pow_succ,Nat.mul_comm]⟩

/-- An addressed pair of a layer is one of the pairs the next layer is built
from, and the parent is the image of exactly that pair. -/
theorem parent_pair {leaves : List A} {depth : ℕ} (h : leaves.length = 2^(depth+1)) (idx : ℕ) :
    let pos := idx % 2^(depth+1)
    let pair := orderedPair idx leaves[pos]! (siblingOf leaves pos)
    pair ∈ layerPairs leaves ∧ (nextLayer node leaves)[idx/2 % 2^depth]! = node pair.1 pair.2 := by
  have hpos := mod_lt_width idx (depth+1)
  have hparity := mod_two_of_width idx depth
  have hwidth : 2^(depth+1) = 2*2^depth := by rw [pow_succ,Nat.mul_comm]
  have hrange : 2*(idx % 2^(depth+1)/2)+1 < leaves.length := by rw [h]; omega
  have hmem := layerPairs_mem leaves _ hrange
  have hget := nextLayer_get node leaves _ hrange
  dsimp only
  rw [half_mod,hget]
  unfold orderedPair siblingOf
  rw [hparity]
  generalize idx % 2^(depth+1) = pos at *
  by_cases heven : idx % 2 = 0
  · simp only [heven,if_true]
    rw [show 2*(pos/2) = pos by omega] at hmem ⊢
    exact ⟨hmem,rfl⟩
  · simp only [heven,if_false]
    rw [show 2*(pos/2)+1 = pos by omega,show 2*(pos/2) = pos-1 by omega] at hmem ⊢
    exact ⟨hmem,rfl⟩

/-- An honest climb: the element at the index's low bits and the tree's own
siblings rebuild the root. -/
theorem walk_siblingsAt {leaves : List A} {depth : ℕ} (h : leaves.length = 2^depth) (idx : ℕ) :
    walk node leaves[idx % 2^depth]! idx (siblingsAt node depth leaves idx) =
      rootAt node depth leaves := by
  induction depth generalizing leaves idx with
  | zero => simp [siblingsAt,walk,rootAt,Nat.mod_one]
  | succ depth ih =>
      simp only [siblingsAt,walk,rootAt]
      rw [← (parent_pair node h idx).2]
      exact ih (nextLayer_two_pow node h) (idx/2)

/-- The honest climb computes no pair that the tree did not. -/
theorem walkPairs_siblingsAt {leaves : List A} {depth : ℕ} (h : leaves.length = 2^depth)
    (idx : ℕ) :
    ∀ p ∈ walkPairs node leaves[idx % 2^depth]! idx (siblingsAt node depth leaves idx),
      p ∈ treePairs node depth leaves := by
  induction depth generalizing leaves idx with
  | zero => simp [siblingsAt,walkPairs]
  | succ depth ih =>
      obtain ⟨hpair,hparent⟩ := parent_pair node h idx
      simp only [siblingsAt,walkPairs,treePairs]
      rw [← hparent]
      intro p hp
      rcases List.mem_cons.mp hp with rfl | hp
      · exact List.mem_append_left _ hpair
      · exact List.mem_append_right _ (ih (nextLayer_two_pow node h) (idx/2) p hp)

/-- The node function on one pair, as the collision statements read it. -/
def nodeOf (p : A × A) : A := node p.1 p.2

theorem layerPairs_map (prev : List A) : (layerPairs prev).map (nodeOf node) = nextLayer node prev := by
  simp only [layerPairs,nextLayer,List.map_map]
  rfl

/-- Position binding against arbitrary siblings. The induction is on the depth:
the walk's upper part is pinned first, so its first node equals the parent of
the addressed position, and that node's two inputs are compared as a pair. -/
theorem walk_binding {leaves : List A} {depth : ℕ} (h : leaves.length = 2^depth)
    (leaf : A) (idx : ℕ) (siblings : List A) (hs : siblings.length = depth)
    (hroot : walk node leaf idx siblings = rootAt node depth leaves) :
    (leaf = leaves[idx % 2^depth]! ∧ siblings = siblingsAt node depth leaves idx) ∨
      Collision (nodeOf node) (walkPairs node leaf idx siblings) (treePairs node depth leaves) := by
  induction depth generalizing leaves leaf idx siblings with
  | zero =>
      rw [List.length_eq_zero_iff.mp hs] at hroot ⊢
      left
      simpa [walk,rootAt,siblingsAt,Nat.mod_one] using hroot
  | succ depth ih =>
      obtain ⟨sibling,rest,rfl⟩ := List.exists_cons_of_length_eq_add_one hs
      simp only [walk,rootAt] at hroot
      have hrest : rest.length = depth := by simpa using hs
      obtain ⟨hpair,hparent⟩ := parent_pair node h idx
      rcases ih (nextLayer_two_pow node h) _ (idx/2) rest hrest hroot with ⟨hhead,htail⟩ | hcol
      · rw [hparent] at hhead
        by_cases heq : orderedPair idx leaf sibling =
            orderedPair idx leaves[idx % 2^(depth+1)]! (siblingOf leaves (idx % 2^(depth+1)))
        · obtain ⟨hleaf,hsib⟩ := orderedPair_inj heq
          exact Or.inl ⟨hleaf,by rw [siblingsAt,← hsib,← htail]⟩
        · exact Or.inr ⟨_,List.mem_cons_self,_,List.mem_append_left _ hpair,heq,hhead⟩
      · obtain ⟨p,hp,q,hq,hne,himage⟩ := hcol
        exact Or.inr ⟨p,List.mem_cons_of_mem _ hp,q,List.mem_append_right _ hq,hne,himage⟩

end Walk

section Levels
variable [Inhabited A] (node : A → A → A)

/-- The layer at a height above the leaves. -/
def layerAt : ℕ → List A → List A
  | 0,leaves => leaves
  | height+1,leaves => layerAt height (nextLayer node leaves)

theorem layerAt_length {height depth : ℕ} {leaves : List A} (h : leaves.length = 2^(height+depth)) :
    (layerAt node height leaves).length = 2^depth := by
  induction height generalizing leaves with
  | zero => rw [layerAt,h,Nat.zero_add]
  | succ height ih =>
      rw [Nat.succ_add] at h
      exact ih (nextLayer_two_pow node h)

/-- The upper part of a tree is the tree over one of its layers. -/
theorem rootAt_layerAt (height depth : ℕ) (leaves : List A) :
    rootAt node (height+depth) leaves = rootAt node depth (layerAt node height leaves) := by
  induction height generalizing leaves with
  | zero => rw [Nat.zero_add,layerAt]
  | succ height ih =>
      rw [Nat.succ_add,rootAt,layerAt]
      exact ih (nextLayer node leaves)

theorem treePairs_layerAt (height depth : ℕ) (leaves : List A) :
    treePairs node depth (layerAt node height leaves) ⊆ treePairs node (height+depth) leaves := by
  induction height generalizing leaves with
  | zero =>
      rw [Nat.zero_add,layerAt]
      exact List.Subset.refl _
  | succ height ih =>
      rw [Nat.succ_add,treePairs,layerAt]
      exact List.subset_append_of_subset_right _ (ih (nextLayer node leaves))

/-- Above the leaves every element is the image of a pair of the tree. -/
theorem mem_layerAt_succ {height : ℕ} (depth : ℕ) {leaves : List A} {x : A}
    (h : x ∈ layerAt node (height+1) leaves) :
    ∃ p ∈ treePairs node (height+1+depth) leaves, nodeOf node p = x := by
  induction height generalizing leaves with
  | zero =>
      rw [layerAt,layerAt,← layerPairs_map,List.mem_map] at h
      rcases h with ⟨p,hp,himage⟩
      refine ⟨p,?_,himage⟩
      rw [Nat.zero_add,Nat.add_comm,treePairs]
      exact List.mem_append_left _ hp
  | succ height ih =>
      rcases ih h with ⟨p,hp,himage⟩
      refine ⟨p,?_,himage⟩
      rw [Nat.succ_add,treePairs]
      exact List.mem_append_right _ hp

/-- The building loop pushes these layers. -/
theorem growLayers_get {leaves : List A} {depth k : ℕ} (h : leaves.length = 2^depth)
    (hk : k ≤ depth) : (growLayers node leaves)[k]! = layerAt node k leaves := by
  induction k generalizing leaves depth with
  | zero => exact growLayers_head node leaves
  | succ k ih =>
      cases depth with
      | zero => exact (Nat.not_succ_le_zero k hk).elim
      | succ depth =>
          rw [growLayers_succ node h,List.getElem!_cons_succ,layerAt]
          exact ih (nextLayer_two_pow node h) (Nat.le_of_succ_le_succ hk)

theorem layerAt_succ (height : ℕ) (leaves : List A) :
    layerAt node (height+1) leaves = nextLayer node (layerAt node height leaves) := by
  induction height generalizing leaves with
  | zero => rfl
  | succ height ih => rw [layerAt,ih,layerAt]

theorem getElem?_in_range {B : Type} [Inhabited B] {xs : List B} {i : ℕ} (h : i < xs.length) :
    xs[i]? = some xs[i]! := by
  rw [getElem!_pos xs i h,List.getElem?_eq_getElem h]

/-- The loop over a row of a power of two stops at the layer of one element. -/
theorem growLayers_some_iff {leaves layer : List A} {depth k : ℕ} (h : leaves.length = 2^depth) :
    (growLayers node leaves)[k]? = some layer ↔ k ≤ depth ∧ layer = layerAt node k leaves := by
  have hlength := growLayers_length node h
  constructor
  · intro hlayer
    have hk : k ≤ depth := by
      have hlt := (List.getElem?_eq_some_iff.mp hlayer).1
      omega
    rw [← growLayers_get node h hk,List.getElem!_eq_getElem?_getD,hlayer]
    exact ⟨hk,rfl⟩
  · intro hlayer
    have hlt : k < (growLayers node leaves).length := by omega
    rw [hlayer.2,← growLayers_get node h hlayer.1]
    exact getElem?_in_range hlt

/-- Every element above the leaves is the node of the two below it. -/
theorem layerAt_node {leaves : List A} {height depth j : ℕ} (h : leaves.length = 2^(height+1+depth))
    (hj : j < 2^depth) :
    ∃ left right, (layerAt node height leaves)[2*j]? = some left ∧
      (layerAt node height leaves)[2*j+1]? = some right ∧
      (layerAt node (height+1) leaves)[j]? = some (node left right) := by
  have hbelow : (layerAt node height leaves).length = 2*2^depth := by
    rw [layerAt_length node (show leaves.length = 2^(height+(depth+1)) by rw [h]; congr 1; omega),
      pow_succ,Nat.mul_comm]
  have habove := layerAt_length node h
  have hget := nextLayer_get node (layerAt node height leaves) j (by omega)
  rw [← layerAt_succ] at hget
  refine ⟨_,_,getElem?_in_range (by omega),getElem?_in_range (by omega),?_⟩
  rw [← hget]
  exact getElem?_in_range (by omega)

theorem siblingOf_eq_xor (layer : List A) (pos : ℕ) : siblingOf layer pos = layer[pos ^^^ 1]! := by
  unfold siblingOf
  by_cases h : pos % 2 = 0
  · rw [if_pos h,Nat.xor_one_of_even (Nat.even_iff.mpr h)]
  · rw [if_neg h,Nat.xor_one_of_odd (Nat.odd_iff.mpr (by omega))]

/-- The sibling at a height is the neighbour of the shifted index in that layer. -/
theorem siblingsAt_get {depth k idx : ℕ} (leaves : List A) (hk : k < depth) (hidx : idx < 2^depth) :
    (siblingsAt node depth leaves idx)[k]! = (layerAt node k leaves)[(idx >>> k) ^^^ 1]! := by
  induction k generalizing depth leaves idx with
  | zero =>
      cases depth with
      | zero => exact (Nat.not_lt_zero 0 hk).elim
      | succ depth =>
          rw [siblingsAt,Nat.mod_eq_of_lt hidx,siblingOf_eq_xor]
          rfl
  | succ k ih =>
      cases depth with
      | zero => exact (Nat.not_lt_zero _ hk).elim
      | succ depth =>
          have hhalf : idx/2 < 2^depth := by
            rw [pow_succ] at hidx
            omega
          rw [siblingsAt,List.getElem!_cons_succ,ih _ (Nat.lt_of_succ_lt_succ hk) hhalf,layerAt,
            Nat.shiftRight_succ_inside]

/-- An even row is determined by its pairs. -/
theorem layerPairs_inj : ∀ {xs ys : List A}, xs.length % 2 = 0 → ys.length % 2 = 0 →
    layerPairs xs = layerPairs ys → xs = ys
  | [],[],_,_,_ => rfl
  | [],_::_::_,_,_,h => by simp [layerPairs,chunksOfTwo] at h
  | _::_::_,[],_,_,h => by simp [layerPairs,chunksOfTwo] at h
  | [_],_,hx,_,_ => by simp at hx
  | _,[_],_,hy,_ => by simp at hy
  | a::b::xs,c::d::ys,hx,hy,h => by
      have hcons : (a,b) = (c,d) ∧ layerPairs xs = layerPairs ys := by
        simpa [layerPairs,chunksOfTwo] using h
      rw [List.length_cons,List.length_cons] at hx hy
      have hrest := layerPairs_inj (by omega) (by omega) hcons.2
      rw [(Prod.mk.inj hcons.1).1,(Prod.mk.inj hcons.1).2,hrest]

/-- Two rows of one width with one root are equal, or two of the pairs below the root
collide. The induction is on the depth: the layers above the rows are compared first. -/
theorem rows_eq_or_collision {depth : ℕ} {xs ys : List A} (hx : xs.length = 2^depth)
    (hy : ys.length = 2^depth) (h : rootAt node depth xs = rootAt node depth ys) :
    xs = ys ∨ Collision (nodeOf node) (treePairs node depth xs) (treePairs node depth ys) := by
  induction depth generalizing xs ys with
  | zero =>
      rcases List.length_eq_one_iff.mp hx with ⟨x,rfl⟩
      rcases List.length_eq_one_iff.mp hy with ⟨y,rfl⟩
      exact Or.inl (congrArg (fun a => [a]) h)
  | succ depth ih =>
      have heven : 2^(depth+1) % 2 = 0 := by
        rw [pow_succ]
        exact Nat.mul_mod_left _ _
      rcases ih (nextLayer_two_pow node hx) (nextLayer_two_pow node hy) h with hnext | hcol
      · rw [← layerPairs_map,← layerPairs_map] at hnext
        rcases map_eq_or_collision hnext with hpairs | hcol
        · exact Or.inl (layerPairs_inj (by rw [hx,heven]) (by rw [hy,heven]) hpairs)
        · exact Or.inr (hcol.mono (List.subset_append_left _ _) (List.subset_append_left _ _))
      · exact Or.inr (hcol.mono (List.subset_append_right _ _) (List.subset_append_right _ _))

end Levels

end OmegaHarness.LayeredTree
