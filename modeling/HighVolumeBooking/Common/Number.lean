import Mathlib.Data.List.Basic

namespace HighVolumeBooking

/-! Decimal texts of integers, as the number methods write and read them. -/

/-- No digit is left at the front. -/
def Stops (rest : List Char) : Prop := ∀ c ∈ rest.head?, c.isDigit = false

def takeDigits (cs : List Char) : List Char := cs.takeWhile Char.isDigit

def dropDigits (cs : List Char) : List Char := cs.dropWhile Char.isDigit

/-- The number at the front of a text and what follows it. -/
def readNatural (cs : List Char) : Option (Nat × List Char) :=
  match takeDigits cs with
  | [] => none
  | ds => some (Nat.ofDigitChars 10 ds 0, dropDigits cs)

def readInteger : List Char → Option (Int × List Char)
  | '-' :: cs => (readNatural cs).map fun (n, rest) => (-(n : Int), rest)
  | cs => (readNatural cs).map fun (n, rest) => ((n : Int), rest)

/-- parseInt of a decimal text: what follows the number is ignored, and none
stands for NaN. -/
def parseInt (s : String) : Option Int :=
  match s.toList.dropWhile Char.isWhitespace with
  | '+' :: cs => (readNatural cs).map fun (n, _) => (n : Int)
  | cs => (readInteger cs).map (·.1)

theorem isDigit_of_mem_digits {n : Nat} {c : Char} (h : c ∈ Nat.toDigits 10 n) :
    c.isDigit = true := Nat.isDigit_of_mem_toDigits (by decide) (by decide) h

theorem takeDigits_append {ds rest : List Char} (hds : ∀ c ∈ ds, c.isDigit = true)
    (hrest : Stops rest) : takeDigits (ds ++ rest) = ds := by
  rw [takeDigits, List.takeWhile_append_of_pos hds]
  cases rest with
  | nil => simp
  | cons c cs => simp [hrest c (by simp)]

theorem dropDigits_append {ds rest : List Char} (hds : ∀ c ∈ ds, c.isDigit = true)
    (hrest : Stops rest) : dropDigits (ds ++ rest) = rest := by
  rw [dropDigits, List.dropWhile_append_of_pos hds]
  cases rest with
  | nil => simp
  | cons c cs => simp [hrest c (by simp)]

theorem readNatural_digits (n : Nat) {rest : List Char} (h : Stops rest) :
    readNatural (Nat.toDigits 10 n ++ rest) = some (n, rest) := by
  have hds : ∀ c ∈ Nat.toDigits 10 n, c.isDigit = true := fun c => isDigit_of_mem_digits
  unfold readNatural
  rw [takeDigits_append hds h, dropDigits_append hds h]
  split
  · rename_i hnil
    exact absurd hnil Nat.toDigits_ne_nil
  · simp

/-- The text of an integer. -/
theorem toList_toString_ofNat (n : Nat) : (toString (n : Int)).toList = Nat.toDigits 10 n := by
  simp [toString, Int.repr]

theorem toList_toString_negSucc (n : Nat) :
    (toString (Int.negSucc n)).toList = '-' :: Nat.toDigits 10 (n + 1) := by
  simp [toString, Int.repr]

theorem readInteger_toString (n : Int) {rest : List Char} (h : Stops rest) :
    readInteger ((toString n).toList ++ rest) = some (n, rest) := by
  cases n with
  | ofNat n =>
    have hread := readNatural_digits n h
    rw [Int.ofNat_eq_natCast, toList_toString_ofNat]
    cases hd : Nat.toDigits 10 n with
    | nil => exact absurd hd Nat.toDigits_ne_nil
    | cons c cs =>
      have hc : c.isDigit = true := isDigit_of_mem_digits (hd ▸ List.mem_cons_self)
      have hne : c ≠ '-' := by
        rintro rfl
        contradiction
      rw [hd] at hread
      simp only [List.cons_append] at hread ⊢
      unfold readInteger
      split
      · rename_i heq
        exact absurd (List.cons.inj heq).1 hne
      · rw [hread]
        rfl
  | negSucc n =>
    rw [toList_toString_negSucc]
    simp only [List.cons_append, readInteger, readNatural_digits (n + 1) h]
    rfl

/-- The text of an integer begins with a digit or a sign. -/
theorem toString_head (n : Int) : ∃ c cs, (toString n).toList = c :: cs ∧
    (c.isDigit = true ∨ c = '-') := by
  cases n with
  | ofNat n =>
    cases hd : Nat.toDigits 10 n with
    | nil => exact absurd hd Nat.toDigits_ne_nil
    | cons c cs =>
      refine ⟨c, cs, (toList_toString_ofNat n).trans hd, Or.inl ?_⟩
      exact isDigit_of_mem_digits (hd ▸ List.mem_cons_self)
  | negSucc n => exact ⟨'-', _, toList_toString_negSucc n, Or.inr rfl⟩

theorem parseInt_toString (n : Int) : parseInt (toString n) = some n := by
  obtain ⟨c, cs, hcs, hc⟩ := toString_head n
  have hws : c.isWhitespace = false := by
    rcases hc with hc | rfl
    · simp only [Char.isDigit, Char.isWhitespace, Bool.and_eq_true, decide_eq_true_eq] at hc ⊢
      simp only [Bool.or_eq_false_iff, decide_eq_false_iff_not]
      refine ⟨⟨⟨?_, ?_⟩, ?_⟩, ?_⟩ <;> rintro rfl <;> revert hc <;> decide
    · decide
  have hplus : c ≠ '+' := by
    rintro rfl
    rcases hc with hc | hc <;> contradiction
  have hread := @readInteger_toString n [] (by simp [Stops])
  rw [List.append_nil, hcs] at hread
  unfold parseInt
  rw [hcs, List.dropWhile_cons_of_neg (by simp [hws])]
  split
  · rename_i heq
    exact absurd (List.cons.inj heq).1 hplus
  · rw [hread]
    rfl

theorem toString_injective {m n : Int} (h : toString m = toString n) : m = n := by
  have hp := congrArg parseInt h
  rw [parseInt_toString, parseInt_toString] at hp
  exact Option.some.inj hp

end HighVolumeBooking
