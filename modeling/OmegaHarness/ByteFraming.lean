import OmegaHarness.FixedWidthBytes

/-!
# Encodings which can be split off the front

An encoding is read from the front of a longer string when the string determines both
the value and the rest. The property is stated for two given values, so that a bound on
their lengths is a hypothesis of the rule and not a part of the notion. A fixed width
gives it, a length in front gives it, and counted items inherit it.
-/
namespace OmegaHarness.ByteFraming
open FixedWidthBytes

section Splits
variable {A B : Type}

/-- In front of any two strings the encodings of the two values differ, or the values
and the strings are equal. -/
def SplitsAt (encode : A → List B) (a b : A) : Prop :=
  ∀ x y, encode a++x = encode b++y → a = b ∧ x = y

theorem SplitsAt.inj {encode : A → List B} {a b : A} (h : SplitsAt encode a b)
    (heq : encode a = encode b) : a = b :=
  (h [] [] (by rw [heq])).1

theorem splitsAt_width {encode : A → List B} {a b : A}
    (hlength : (encode a).length = (encode b).length) (hinj : encode a = encode b → a = b) :
    SplitsAt encode a b := by
  intro x y h
  have hparts := List.append_inj h hlength
  exact ⟨hinj hparts.1,hparts.2⟩

/-- As many items on both sides: they are split off one after the other. -/
theorem splitsAt_flatMap {encode : A → List B} {xs ys : List A} (hlength : xs.length = ys.length)
    (h : ∀ a ∈ xs, ∀ b ∈ ys, SplitsAt encode a b) : SplitsAt (List.flatMap encode) xs ys := by
  intro x y heq
  induction xs generalizing ys with
  | nil =>
      rw [List.length_nil,eq_comm,List.length_eq_zero_iff] at hlength
      subst hlength
      exact ⟨rfl,heq⟩
  | cons a xs ih =>
      cases ys with
      | nil => cases hlength
      | cons b ys =>
          rw [List.flatMap_cons,List.flatMap_cons,List.append_assoc,List.append_assoc] at heq
          have hhead := h a List.mem_cons_self b List.mem_cons_self _ _ heq
          have htail := ih (Nat.succ.inj hlength)
            (fun c hc d hd => h c (List.mem_cons_of_mem a hc) d (List.mem_cons_of_mem b hd)) hhead.2
          exact ⟨by rw [hhead.1,htail.1],htail.2⟩

theorem vector_splits {n : ℕ} (a b : Vector B n) : SplitsAt Vector.toList a b :=
  splitsAt_width (by rw [Vector.length_toList,Vector.length_toList]) Vector.toList_inj.mp

/-- An array whose elements are written one after the other. -/
theorem array_splits {n : ℕ} {encode : A → List B} (h : ∀ a b, SplitsAt encode a b)
    (u v : Vector A n) : SplitsAt (fun w : Vector A n => w.toList.flatMap encode) u v := by
  intro x y heq
  have hlength : u.toList.length = v.toList.length := by
    rw [Vector.length_toList,Vector.length_toList]
  obtain ⟨hitems,hrest⟩ := splitsAt_flatMap hlength (fun a _ b _ => h a b) x y heq
  exact ⟨Vector.toList_inj.mp hitems,hrest⟩

end Splits

/-- Bytes behind their length, in big-endian order. -/
def framed (width : ℕ) (bytes : List UInt8) : List UInt8 := beBytes width bytes.length++bytes

theorem splitsAt_framed {width : ℕ} {a b : List UInt8} (ha : a.length < 256^width)
    (hb : b.length < 256^width) : SplitsAt (framed width) a b := by
  intro x y h
  unfold framed at h
  rw [List.append_assoc,List.append_assoc] at h
  have hlength := List.append_inj h (by rw [beBytes_length,beBytes_length])
  exact List.append_inj hlength.2 (beBytes_inj ha hb hlength.1)

end OmegaHarness.ByteFraming
