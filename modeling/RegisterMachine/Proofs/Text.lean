import Std.Data.String.ToInt
import RegisterMachine.Text

/-!
# Texts

The number formats and the encoding are those of the standard library, and a text can be taken apart
again: a numeral ends where the digits end.

* **`Text.utf8_eq_toUTF8`**, **`Text.signedDecimal_eq_toString`** — the formats of the standard library.
* **`Text.Numeral`**, **`Text.IsDecimal`** — the canonical decimal of a number, said apart from how it is
  computed: digits without a leading zero, after a minus sign if the number is negative.
* **`Text.numeral_toDigits`**, **`Text.isDecimal_signedDecimal`** — the format writes nothing else.
* **`Text.append_inj_of_forall`**, **`Text.decimal_append_inj`** — where one part of a text ends and the next
  begins.
-/

namespace RegisterMachine.Text

/-! ## The formats of the standard library -/

theorem utf8_eq_toUTF8 (s : String) : utf8 s = s.toUTF8.data.toList := by
  rw [show s.toUTF8 = s.toByteArray from rfl, ← String.utf8Encode_toList, List.utf8Encode,
    List.toList_data_toByteArray]
  rfl

theorem signedDecimal_eq_toString (n : Int) : signedDecimal n = toString n := by
  cases n <;> rfl

/-! ## Decimal numerals -/

/-- The characters are the canonical decimal numeral of a natural number. -/
structure Numeral (n : Nat) (cs : List Char) : Prop where
  digits : ∀ c ∈ cs, c.isDigit = true
  nonempty : cs ≠ []
  noLeadingZero : cs.head? = some '0' → cs = ['0']
  value : Nat.ofDigitChars 10 cs 0 = n

/-- The text is the canonical decimal of an integer. -/
structure IsDecimal (n : Int) (s : String) : Prop where
  numeral : ∃ cs, s.toList = (if n < 0 then ['-'] else []) ++ cs ∧ Numeral n.natAbs cs
  readsBack : s.toInt? = some n

/-- Only the numeral of zero begins with a zero. -/
theorem eq_zero_of_head?_toDigits {n : Nat} (h : (Nat.toDigits 10 n).head? = some '0') : n = 0 := by
  -- the front of a numeral of several digits is the numeral of the tenth part
  induction n using Nat.strongRecOn with
  | ind n ih =>
    by_cases hn : n < 10
    · rw [Nat.toDigits_of_lt_base hn, List.head?_cons, Option.some.injEq] at h
      have hvalue := Nat.ofDigitChars_ten_toDigits (n := n)
      rw [Nat.toDigits_of_lt_base hn, h] at hvalue
      exact hvalue.symm
    · obtain ⟨c, cs, hfront⟩ :=
        List.exists_cons_of_ne_nil (Nat.toDigits_ne_nil (n := n / 10) (b := 10))
      rw [Nat.toDigits_of_base_le (by omega) (by omega), hfront] at h
      have := ih (n / 10) (by omega) (by rw [hfront]; exact h)
      omega

theorem numeral_toDigits (n : Nat) : Numeral n (Nat.toDigits 10 n) := by
  refine ⟨fun c hc => ?_, Nat.toDigits_ne_nil, fun hzero => ?_, Nat.ofDigitChars_ten_toDigits⟩
  · exact Nat.isDigit_of_mem_toDigits (by omega) (by omega) hc
  · rw [eq_zero_of_head?_toDigits hzero, Nat.toDigits_zero]

theorem toList_decimal (n : Nat) : (decimal n).toList = Nat.toDigits 10 n :=
  String.toList_ofList

theorem isDecimal_signedDecimal (n : Int) : IsDecimal n (signedDecimal n) := by
  refine ⟨?_, ?_⟩
  · cases n with
    | ofNat k =>
      refine ⟨_, ?_, numeral_toDigits k⟩
      have hsign : ¬ Int.ofNat k < 0 := Int.not_lt.mpr (Int.natCast_nonneg k)
      rw [if_neg hsign, List.nil_append]
      exact toList_decimal k
    | negSucc k =>
      refine ⟨_, ?_, numeral_toDigits (k + 1)⟩
      rw [if_pos (Int.negSucc_lt_zero k), signedDecimal, String.toList_append, toList_decimal]
      rfl
  · rw [signedDecimal_eq_toString]
    exact Int.toInt?_repr n

/-! ## Texts that can be taken apart -/

theorem decimal_injective {m n : Nat} (h : decimal m = decimal n) : m = n := by
  have hdigits : Nat.toDigits 10 m = Nat.toDigits 10 n := by
    rw [← toList_decimal, h, toList_decimal]
  rw [← Nat.ofDigitChars_ten_toDigits (n := m), hdigits, Nat.ofDigitChars_ten_toDigits]

theorem signedDecimal_injective {m n : Int} (h : signedDecimal m = signedDecimal n) : m = n := by
  have hm := (isDecimal_signedDecimal m).readsBack
  rw [h, (isDecimal_signedDecimal n).readsBack] at hm
  exact (Option.some.inj hm).symm

/-- A front part ends where the characters of its kind end. -/
theorem append_inj_of_forall {p : Char → Bool} {as bs cs ds : List Char}
    (has : ∀ c ∈ as, p c = true) (hbs : ∀ c ∈ bs, p c = true)
    (hcs : ∀ c ∈ cs.head?, p c = false) (hds : ∀ c ∈ ds.head?, p c = false)
    (h : as ++ cs = bs ++ ds) : as = bs ∧ cs = ds := by
  have hstop {xs : List Char} (hxs : ∀ c ∈ xs.head?, p c = false) : xs.takeWhile p = [] := by
    cases xs with
    | nil => rfl
    | cons x xs => rw [List.takeWhile_cons_of_neg (by simp [hxs x rfl])]
  have hfront : as = bs := by
    have hwhile := congrArg (List.takeWhile p) h
    rwa [List.takeWhile_append_of_pos has, List.takeWhile_append_of_pos hbs, hstop hcs, hstop hds,
      List.append_nil, List.append_nil] at hwhile
  subst hfront
  exact ⟨rfl, List.append_cancel_left h⟩

/-- A number ends where the digits end. -/
theorem decimal_append_inj {m n : Nat} {cs ds : List Char} (hcs : ∀ c ∈ cs.head?, c.isDigit = false)
    (hds : ∀ c ∈ ds.head?, c.isDigit = false)
    (h : (decimal m).toList ++ cs = (decimal n).toList ++ ds) : m = n ∧ cs = ds := by
  rw [toList_decimal, toList_decimal] at h
  obtain ⟨hdigits, hrest⟩ :=
    append_inj_of_forall (numeral_toDigits m).digits (numeral_toDigits n).digits hcs hds h
  refine ⟨?_, hrest⟩
  rw [← (numeral_toDigits m).value, hdigits, (numeral_toDigits n).value]

end RegisterMachine.Text
