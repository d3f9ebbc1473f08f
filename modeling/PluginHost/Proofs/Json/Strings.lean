import Mathlib.Tactic.IntervalCases
import Mathlib.Tactic.SplitIfs
import PluginHost.Json.Printer
import PluginHost.Json.Reader

/-!
Strings of canonical texts. Reading undoes writing, one character after the other, and stops behind
the closing quote, so a written string shows which string it is and where it ends.
-/
namespace PluginHost.Json

theorem hexDigit?_digitChar {n : Nat} (hn : n < 16) : hexDigit? n.digitChar = some n := by
  interval_cases n <;> decide

/-- The four digits of a unit. -/
theorem hex_four {n : Nat} (hn : n < 0x10000) :
    Text.hex 4 n = [(n / 4096).digitChar, (n / 256 % 16).digitChar, (n / 16 % 16).digitChar,
      (n % 16).digitChar] := by
  have next {m : Nat} (hm : 16 ≤ m) :
      Nat.toDigits 16 m = Nat.toDigits 16 (m / 16) ++ [(m % 16).digitChar] := by
    rw [Nat.toDigits_eq_if (by decide), if_neg (by omega)]
  have last {m : Nat} (hm : m < 16) : Nat.toDigits 16 m = [m.digitChar] := by
    rw [Nat.toDigits_eq_if (by decide), if_pos hm]
  have second : n / 16 / 16 = n / 256 := by omega
  have third : n / 256 / 16 = n / 4096 := by omega
  have zero {m : Nat} (hm : m = 0) : m.digitChar = '0' := by rw [hm]; rfl
  -- As many digits are written as the number has, and zeros before them.
  unfold Text.hex
  by_cases one : n < 16
  · rw [last one, zero (show n / 4096 = 0 by omega), zero (show n / 256 % 16 = 0 by omega),
      zero (show n / 16 % 16 = 0 by omega), Nat.mod_eq_of_lt one]
    rfl
  · rw [next (by omega)]
    by_cases two : n < 256
    · rw [last (by omega), zero (show n / 4096 = 0 by omega), zero (show n / 256 % 16 = 0 by omega),
        Nat.mod_eq_of_lt (show n / 16 < 16 by omega)]
      rfl
    · rw [next (by omega), second]
      by_cases three : n < 4096
      · rw [last (by omega), zero (show n / 4096 = 0 by omega),
          Nat.mod_eq_of_lt (show n / 256 < 16 by omega)]
        rfl
      · rw [next (by omega), third, last (by omega)]
        rfl

theorem unit?_digits {n : Nat} (hn : n < 0x10000) :
    unit? (n / 4096).digitChar (n / 256 % 16).digitChar (n / 16 % 16).digitChar
      (n % 16).digitChar = some n := by
  have whole : (((n / 4096 * 16 + n / 256 % 16) * 16 + n / 16 % 16) * 16 + n % 16) = n := by omega
  simp only [unit?, hexDigit?_digitChar (show n / 4096 < 16 by omega),
    hexDigit?_digitChar (Nat.mod_lt _ (show 16 > 0 by decide)), bind, Option.bind, pure, whole]

variable {opening : Nat} {t : List Char}

theorem stringBody_simple {c d : Char} (hd : simpleEscape? d = some c) (hu : d ≠ 'u') :
    stringBody opening ('\\' :: d :: t) = prepend c (stringBody opening t) := by
  rw [stringBody, hd]
  all_goals simp [hu]

/-- A unit is read as the character that it stands for, unless it is the first of two. -/
theorem stringBody_unit {n : Nat} (hn : n < 0x10000) (single : isHigh n = false) (ht : t ≠ []) :
    stringBody opening (unit16 n ++ t) = prepend (Text.scalar n) (stringBody opening t) := by
  obtain ⟨e, left, rfl⟩ := List.exists_cons_of_ne_nil ht
  rw [unit16, hex_four hn]
  simp only [List.cons_append, List.nil_append]
  rw [stringBody, unit?_digits hn]
  simp [single]

/-- Two units are read as one character. -/
theorem stringBody_units {n m : Nat} (hn : isHigh n = true) (hm : isLow m = true) (ht : t ≠ []) :
    stringBody opening (unit16 n ++ (unit16 m ++ t)) =
      prepend (Text.scalar (0x10000 + (n - 0xD800) * 0x400 + (m - 0xDC00)))
        (stringBody opening t) := by
  obtain ⟨e, left, rfl⟩ := List.exists_cons_of_ne_nil ht
  have high : n < 0x10000 := by
    simp only [isHigh, Bool.and_eq_true, decide_eq_true_eq] at hn
    omega
  have low : m < 0x10000 := by
    simp only [isLow, Bool.and_eq_true, decide_eq_true_eq] at hm
    omega
  rw [unit16, unit16, hex_four high, hex_four low]
  simp only [List.cons_append, List.nil_append]
  rw [stringBody, unit?_digits high]
  simp [hn, hm, nextUnit?, unit?_digits low]

theorem scalar_toNat (c : Char) : Text.scalar c.toNat = c := by
  have valid : c.toNat.isValidChar := c.valid
  rw [Text.scalar, if_pos valid, Char.ofNat_toNat]

theorem isHigh_toNat (c : Char) : isHigh c.toNat = false := by
  have valid : c.toNat.isValidChar := c.valid
  unfold Nat.isValidChar at valid
  simp only [isHigh, Bool.and_eq_false_iff, decide_eq_false_iff_not]
  omega

/-- A written character is read back, and the reader goes on behind it. -/
theorem stringBody_escape (c : Char) (ht : t ≠ []) :
    stringBody opening (escape c ++ t) = prepend c (stringBody opening t) := by
  unfold escape
  split_ifs with quote backslash newline ret tab back feed plain small
  · subst quote
    exact stringBody_simple rfl (by decide)
  · subst backslash
    exact stringBody_simple rfl (by decide)
  · subst newline
    exact stringBody_simple rfl (by decide)
  · subst ret
    exact stringBody_simple rfl (by decide)
  · subst tab
    exact stringBody_simple rfl (by decide)
  · obtain rfl : c = '\x08' := Char.toNat_inj.1 back
    exact stringBody_simple rfl (by decide)
  · obtain rfl : c = '\x0C' := Char.toNat_inj.1 feed
    exact stringBody_simple rfl (by decide)
  · simp only [List.cons_append, List.nil_append]
    rw [stringBody]
    · rw [if_neg (by omega)]
    all_goals simp [quote, backslash]
  · rw [stringBody_unit small (isHigh_toNat c) ht, scalar_toNat]
  · have valid : c.toNat.isValidChar := c.valid
    unfold Nat.isValidChar at valid
    have high : isHigh (0xD800 + (c.toNat - 0x10000) / 0x400) = true := by
      simp only [isHigh, Bool.and_eq_true, decide_eq_true_eq]
      omega
    have low : isLow (0xDC00 + (c.toNat - 0x10000) % 0x400) = true := by
      simp only [isLow, Bool.and_eq_true, decide_eq_true_eq]
      omega
    have both : 0x10000 + (0xD800 + (c.toNat - 0x10000) / 0x400 - 0xD800) * 0x400 +
        (0xDC00 + (c.toNat - 0x10000) % 0x400 - 0xDC00) = c.toNat := by omega
    dsimp only
    rw [List.append_assoc, stringBody_units high low ht, both, scalar_toNat]

/-- A written string is read back. -/
theorem stringBody_string (s : String) (t : List Char) :
    stringBody opening (s.toList.flatMap escape ++ '"' :: t) = .ok (s.toList, t) := by
  induction s.toList with
  | nil => simp [stringBody]
  | cons c cs ih =>
    rw [List.flatMap_cons, List.append_assoc, stringBody_escape c (by simp), ih]
    rfl

/-- A written string shows where it ends. -/
theorem string_append_inj {s s' : String} {t t' : List Char}
    (h : string s ++ t = string s' ++ t') : s = s' ∧ t = t' := by
  simp only [string, List.cons_append, List.append_assoc, List.nil_append, List.cons.injEq,
    true_and] at h
  have read : stringBody 0 (s.toList.flatMap escape ++ '"' :: t) = .ok (s.toList, t) :=
    stringBody_string s t
  rw [h, stringBody_string] at read
  obtain ⟨same, rest⟩ := Prod.mk.inj (Except.ok.inj read)
  exact ⟨(String.toList_injective same).symm, rest.symm⟩

end PluginHost.Json
