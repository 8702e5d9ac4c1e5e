import SqliteAccess.Decimal.Reader

/-!
Whole numbers written in decimals are read back, as long as they are not refused for their length.
-/

namespace SqliteAccess.Decimal

open Text

theorem isDigit_iff (c : Char) : c.isDigit = true ↔ 48 ≤ c.toNat ∧ c.toNat ≤ 57 := by
  rw [Char.isDigit, Bool.and_eq_true, decide_eq_true_eq, decide_eq_true_eq]
  rfl

theorem digitValue?_of_isDigit {c : Char} (h : c.isDigit = true) : digitValue? c = some (c.toNat - '0'.toNat) := by
  obtain ⟨hlow, hhigh⟩ := (isDigit_iff c).mp h
  rw [digitValue?, zeros, digitIn, if_pos ⟨hlow, by omega⟩]
  rfl

theorem not_blank_of_isDigit {c : Char} (h : c.isDigit = true) : isNumeralBlank c = false := by
  obtain ⟨hlow, hhigh⟩ := (isDigit_iff c).mp h
  have hascii : isAsciiBlank c = false := by
    simp only [isAsciiBlank, Bool.or_eq_false_iff, Bool.and_eq_false_iff, decide_eq_false_iff_not]
    omega
  have hbeyond : decide (127 ≤ c.toNat) = false := decide_eq_false (by omega)
  rw [isNumeralBlank, hascii, hbeyond]
  rfl

theorem digitRun?_of_isDigit {cs : List Char} (h : ∀ c ∈ cs, c.isDigit = true) (hne : cs ≠ []) (afterDigit : Bool) :
    digitRun? afterDigit cs = some (cs.map fun c => c.toNat - '0'.toNat) := by
  induction cs generalizing afterDigit with
  | nil => exact absurd rfl hne
  | cons c cs ih =>
    rw [List.forall_mem_cons] at h
    have hc : c ≠ '_' := by
      rintro rfl
      exact absurd h.1 (by decide)
    rw [digitRun?, if_neg hc, digitValue?_of_isDigit h.1]
    cases cs with
    | nil => rfl
    | cons d cs =>
      have hrest := ih h.2 (List.cons_ne_nil d cs) true
      simp only [hrest, Option.map_some]
      rfl

theorem splitSign_of_isDigit {cs : List Char} (h : ∀ c ∈ cs, c.isDigit = true) : splitSign cs = (false, cs) := by
  unfold splitSign
  split
  next r => exact absurd (h '-' List.mem_cons_self) (by decide)
  next r => exact absurd (h '+' List.mem_cons_self) (by decide)
  next => rfl

theorem ofDigits_toDigits (n : Nat) : ofDigits ((Nat.toDigits 10 n).map fun c => c.toNat - '0'.toNat) = n := by
  rw [ofDigits, List.foldl_map, ← Nat.ofDigitChars_eq_foldl]
  exact Nat.ofDigitChars_ten_toDigits

theorem readInteger?_of_toList {s : String} {negative : Bool} {n : Nat}
    (hs : s.toList = (if negative then ['-'] else []) ++ Nat.toDigits 10 n)
    (hn : (Nat.toDigits 10 n).length ≤ longestInteger) :
    readInteger? s = some (if negative then -(n : Int) else n) := by
  have hdigits : ∀ c ∈ Nat.toDigits 10 n, c.isDigit = true := fun c hc =>
    Nat.isDigit_of_mem_toDigits (by decide) (by decide) hc
  have htrim : trimWith isNumeralBlank s.toList = s.toList := by
    refine trimWith_eq_self fun c hc => ?_
    rw [hs, List.mem_append] at hc
    rcases hc with hc | hc
    · cases negative with
      | false => cases hc
      | true =>
        rw [List.mem_singleton.mp hc]
        decide
    · exact not_blank_of_isDigit (hdigits c hc)
  have hsplit : splitSign s.toList = (negative, Nat.toDigits 10 n) := by
    rw [hs]
    cases negative with
    | false => exact splitSign_of_isDigit hdigits
    | true => rfl
  rw [readInteger?, htrim, hsplit]
  simp only [digitRun?_of_isDigit hdigits Nat.toDigits_ne_nil, List.length_map, if_neg (Nat.not_lt.mpr hn),
    ofDigits_toDigits]

theorem readInteger?_toString {n : Int} (hn : (Nat.toDigits 10 n.natAbs).length ≤ longestInteger) :
    readInteger? (toString n) = some n := by
  rw [Int.toString_eq_repr, Int.repr_eq_if]
  split
  next h =>
    obtain ⟨m, rfl⟩ := Int.eq_ofNat_of_zero_le h
    have hs : (m : Int).toNat.repr.toList = (if false then ['-'] else []) ++ Nat.toDigits 10 m := by
      rw [Int.toNat_natCast, Nat.repr_eq_ofList_toDigits, String.toList_ofList]
      rfl
    exact readInteger?_of_toList hs hn
  next h =>
    have hm : (-n).toNat = n.natAbs := by omega
    have hs : ("-" ++ (-n).toNat.repr).toList = (if true then ['-'] else []) ++ Nat.toDigits 10 n.natAbs := by
      simp only [String.toList_append, Nat.repr_eq_ofList_toDigits, String.toList_ofList, hm]
      rfl
    rw [readInteger?_of_toList hs hn]
    simp only [if_true, Option.some.injEq]
    omega

end SqliteAccess.Decimal
