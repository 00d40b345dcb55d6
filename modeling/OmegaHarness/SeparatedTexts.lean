import Mathlib

/-!
# Fields and numbers in a line of text

A line is cut at a separator, from the left: after a given number of fields the rest is
kept as it is, with its separators. Numbers are unsigned decimals below a bound. They are
read from the left too, and the first digit which is none or one too many is the error.
-/
namespace OmegaHarness.SeparatedTexts

section Fields
variable {A : Type} [DecidableEq A] {sep : A} {cs front rest : List A}

/-- What stands before and behind the first separator. -/
def splitOnce (sep : A) : List A → Option (List A × List A)
  | [] => none
  | c::cs => if c = sep then some ([],cs) else (splitOnce sep cs).map fun p => (c::p.1,p.2)

/-- What stands before and behind the last separator. -/
def rsplitOnce (sep : A) (cs : List A) : Option (List A × List A) :=
  (splitOnce sep cs.reverse).map fun p => (p.2.reverse,p.1.reverse)

/-- At most so many fields, the last of them with the separators it has. -/
def splitn (sep : A) : ℕ → List A → List (List A)
  | 0,_ => []
  | 1,cs => [cs]
  | n+2,cs => match splitOnce sep cs with
    | none => [cs]
    | some (field,rest) => field::splitn sep (n+1) rest

def joined (sep : A) (fields : List (List A)) (last : List A) : List A :=
  fields.foldr (fun field rest => field++sep::rest) last

theorem splitOnce_some :
    splitOnce sep cs = some (front,rest) ↔ cs = front++sep::rest ∧ sep ∉ front := by
  induction cs generalizing front with
  | nil => simp [splitOnce]
  | cons c cs ih =>
      rw [splitOnce]
      by_cases hc : c = sep
      · rw [if_pos hc]
        cases front with
        | nil => simp [hc]
        | cons d front =>
            simp only [Option.some.injEq,Prod.mk.injEq,List.cons_append,List.cons.injEq,
              List.mem_cons,reduceCtorEq,false_and,false_iff]
            rintro ⟨⟨hd,-⟩,hmem⟩
            exact hmem (Or.inl (hc.symm.trans hd))
      · rw [if_neg hc]
        cases front with
        | nil => simp [hc]
        | cons d front =>
            have hrest := @ih front
            simp only [Option.map_eq_some_iff,Prod.mk.injEq,List.cons.injEq,Prod.exists,
              List.cons_append,List.mem_cons,not_or]
            constructor
            · rintro ⟨a,b,hsplit,⟨rfl,rfl⟩,rfl⟩
              have hspec := hrest.mp hsplit
              exact ⟨⟨rfl,hspec.1⟩,fun h => hc h.symm,hspec.2⟩
            · rintro ⟨⟨rfl,hcs⟩,-,hfree⟩
              exact ⟨front,rest,hrest.mpr ⟨hcs,hfree⟩,⟨rfl,rfl⟩,rfl⟩

theorem splitOnce_none : splitOnce sep cs = none ↔ sep ∉ cs := by
  induction cs with
  | nil => simp [splitOnce]
  | cons c cs ih =>
      rw [splitOnce]
      by_cases hc : c = sep
      · simp [hc]
      · have hother : sep ≠ c := fun h => hc h.symm
        simp [hc,hother,ih]

theorem rsplitOnce_some :
    rsplitOnce sep cs = some (front,rest) ↔ cs = front++sep::rest ∧ sep ∉ rest := by
  rw [rsplitOnce,Option.map_eq_some_iff]
  constructor
  · rintro ⟨⟨a,b⟩,hsplit,hparts⟩
    cases hparts
    obtain ⟨hcs,hfree⟩ := splitOnce_some.mp hsplit
    refine ⟨?_,fun h => hfree (List.mem_reverse.mp h)⟩
    rw [← List.reverse_inj,hcs]
    simp
  · rintro ⟨rfl,hfree⟩
    refine ⟨(rest.reverse,front.reverse),splitOnce_some.mpr ⟨by simp,?_⟩,by simp⟩
    exact fun h => hfree (List.mem_reverse.mp h)

theorem rsplitOnce_none : rsplitOnce sep cs = none ↔ sep ∉ cs := by
  rw [rsplitOnce,Option.map_eq_none_iff,splitOnce_none,List.mem_reverse]

theorem splitn_length (n : ℕ) (cs : List A) :
    (splitn sep (n+1) cs).length = min (n+1) (cs.count sep+1) := by
  induction n generalizing cs with
  | zero => simp [splitn]
  | succ n ih =>
      rw [splitn]
      cases hsplit : splitOnce sep cs with
      | none => simp [List.count_eq_zero.mpr (splitOnce_none.mp hsplit)]
      | some p =>
          obtain ⟨rfl,hfree⟩ := splitOnce_some.mp hsplit
          simp only [List.length_cons,ih,List.count_append,List.count_eq_zero.mpr hfree,
            List.count_cons_self]
          omega

/-- All the fields are there exactly when the line is made of them. -/
theorem splitn_fields {fields : List (List A)} {last : List A} :
    splitn sep (fields.length+1) cs = fields++[last] ↔
      (∀ field ∈ fields, sep ∉ field) ∧ cs = joined sep fields last := by
  induction fields generalizing cs with
  | nil => simp [splitn,joined]
  | cons field fields ih =>
      rw [List.length_cons,splitn]
      cases hsplit : splitOnce sep cs with
      | none =>
          have hfree := splitOnce_none.mp hsplit
          simp only [List.cons_append,List.cons.injEq,joined,List.foldr_cons]
          constructor
          · rintro ⟨-,h⟩
            cases fields <;> cases h
          · rintro ⟨-,rfl⟩
            exact (hfree (by simp)).elim
      | some p =>
          have hp := splitOnce_some.mp hsplit
          simp only [List.cons_append,List.cons.injEq,List.forall_mem_cons,joined,List.foldr_cons]
          rw [ih,joined]
          constructor
          · rintro ⟨rfl,hfields,hrest⟩
            rw [← hrest]
            exact ⟨⟨hp.2,hfields⟩,hp.1⟩
          · rintro ⟨⟨hfield,hfields⟩,hcs⟩
            have hsame := hsplit.symm.trans (splitOnce_some.mpr ⟨hcs,hfield⟩)
            cases hsame
            exact ⟨rfl,hfields,rfl⟩

end Fields

section Decimals

inductive ParseIntError where
  | empty
  | invalidDigit
  | posOverflow
  deriving DecidableEq, Repr

def ParseIntError.display : ParseIntError → String
  | .empty => "cannot parse integer from empty string"
  | .invalidDigit => "invalid digit found in string"
  | .posOverflow => "number too large to fit in target type"

def digitOf (c : Char) : ℕ := c.toNat - '0'.toNat

/-- Go on from the number read so far. -/
def parseDigits (bound : ℕ) : ℕ → List Char → Except ParseIntError ℕ
  | n,[] => .ok n
  | n,c::cs =>
      if c.isDigit then
        if 10*n+digitOf c < bound then parseDigits bound (10*n+digitOf c) cs else .error .posOverflow
      else .error .invalidDigit

/-- An unsigned number below the bound. A plus sign may stand in front, a minus sign is no digit. -/
def parseUnsigned (bound : ℕ) : List Char → Except ParseIntError ℕ
  | [] => .error .empty
  | '+'::[] => .error .invalidDigit
  | '+'::cs => parseDigits bound 0 cs
  | cs => parseDigits bound 0 cs

/-- The texts of a number: its digits, perhaps with zeros in front, perhaps with a plus sign. -/
def NumberText (text : List Char) (n : ℕ) : Prop :=
  ∃ digits, digits ≠ [] ∧ (∀ c ∈ digits, c.isDigit) ∧ Nat.ofDigitChars 10 digits 0 = n ∧
    (text = digits ∨ text = '+'::digits)

theorem le_ofDigitChars (n : ℕ) (cs : List Char) : n ≤ Nat.ofDigitChars 10 cs n := by
  induction cs generalizing n with
  | nil => exact le_rfl
  | cons c cs ih =>
      rw [Nat.ofDigitChars_cons]
      exact le_trans (by omega) (ih _)

/-- A number only grows with its digits, so no digit before the last is too much. -/
theorem parseDigits_ok {bound n m : ℕ} {cs : List Char} (hn : n < bound) :
    parseDigits bound n cs = .ok m ↔
      (∀ c ∈ cs, c.isDigit) ∧ Nat.ofDigitChars 10 cs n = m ∧ m < bound := by
  induction cs generalizing n with
  | nil =>
      rw [parseDigits,Except.ok.injEq,Nat.ofDigitChars_nil]
      constructor
      · rintro rfl
        exact ⟨nofun,rfl,hn⟩
      · intro h
        exact h.2.1
  | cons c cs ih =>
      rw [parseDigits,Nat.ofDigitChars_cons,List.forall_mem_cons]
      by_cases hdigit : c.isDigit
      · rw [if_pos hdigit]
        by_cases hfits : 10*n+digitOf c < bound
        · rw [if_pos hfits,ih hfits]
          simp [hdigit,digitOf]
        · rw [if_neg hfits]
          constructor
          · nofun
          · rintro ⟨-,hvalue,hbound⟩
            have hle := le_ofDigitChars (10*n+(c.toNat - '0'.toNat)) cs
            rw [hvalue] at hle
            exact (hfits (lt_of_le_of_lt hle hbound)).elim
      · rw [if_neg hdigit]
        simp [hdigit]

theorem plus_isDigit : ('+' : Char).isDigit = false := rfl

theorem parseUnsigned_ok {bound n : ℕ} {cs : List Char} (hbound : 0 < bound) :
    parseUnsigned bound cs = .ok n ↔ NumberText cs n ∧ n < bound := by
  fun_cases parseUnsigned bound cs with
  | case1 => simp [NumberText]
  | case2 =>
      constructor
      · nofun
      · rintro ⟨⟨digits,hne,hdigits,-,rfl | htext⟩,-⟩
        · exact absurd (hdigits '+' List.mem_cons_self) (by simp [plus_isDigit])
        · exact (hne (List.cons.inj htext).2.symm).elim
  | case3 cs hne =>
      rw [parseDigits_ok hbound]
      constructor
      · rintro ⟨hdigits,hvalue,hlt⟩
        exact ⟨⟨cs,hne,hdigits,hvalue,Or.inr rfl⟩,hlt⟩
      · rintro ⟨⟨digits,-,hdigits,hvalue,rfl | htext⟩,hlt⟩
        · exact absurd (hdigits '+' List.mem_cons_self) (by simp [plus_isDigit])
        · cases htext
          exact ⟨hdigits,hvalue,hlt⟩
  | case4 cs hempty hplus hsigned =>
      rw [parseDigits_ok hbound]
      constructor
      · rintro ⟨hdigits,hvalue,hlt⟩
        exact ⟨⟨cs,hempty,hdigits,hvalue,Or.inl rfl⟩,hlt⟩
      · rintro ⟨⟨digits,-,hdigits,hvalue,rfl | htext⟩,hlt⟩
        · exact ⟨hdigits,hvalue,hlt⟩
        · exact (hsigned digits htext).elim

/-- The usual text of a number is one of its texts. -/
theorem numberText_repr (n : ℕ) : NumberText n.repr.toList n := by
  refine ⟨Nat.toDigits 10 n,Nat.toDigits_ne_nil,?_,Nat.ofDigitChars_ten_toDigits,Or.inl ?_⟩
  · intro c hc
    exact Nat.isDigit_of_mem_toDigits (by decide) (by decide) hc
  · exact String.toList_ofList

theorem NumberText.free {text : List Char} {n : ℕ} (h : NumberText text n) {c : Char}
    (hdigit : c.isDigit = false) (hplus : c ≠ '+') : c ∉ text := by
  obtain ⟨digits,-,hdigits,-,htext⟩ := h
  have hfree : c ∉ digits := by
    intro hc
    rw [hdigits c hc] at hdigit
    cases hdigit
  rcases htext with rfl | rfl
  · exact hfree
  · simp [hplus,hfree]

def parseU64 (text : List Char) : Except ParseIntError UInt64 :=
  (parseUnsigned (2^64) text).map UInt64.ofNat

theorem parseU64_ok {text : List Char} {n : UInt64} :
    parseU64 text = .ok n ↔ NumberText text n.toNat := by
  have hbound : 0 < 2^64 := by decide
  rw [parseU64]
  cases hparse : parseUnsigned (2^64) text with
  | error e =>
      constructor
      · nofun
      · intro h
        cases hparse.symm.trans ((parseUnsigned_ok hbound).mpr ⟨h,n.toNat_lt⟩)
  | ok m =>
      have hm := (parseUnsigned_ok hbound).mp hparse
      rw [Except.map,Except.ok.injEq]
      constructor
      · rintro rfl
        rw [UInt64.toNat_ofNat_of_lt' hm.2]
        exact hm.1
      · intro h
        have hsame := hparse.symm.trans ((parseUnsigned_ok hbound).mpr ⟨h,n.toNat_lt⟩)
        cases hsame
        exact UInt64.ofNat_toNat

end Decimals

end OmegaHarness.SeparatedTexts
