/-!
Character classes beyond ASCII. A class is given by the ascending code points at which it switches
on and off.
-/
namespace PluginHost.Text

/-- A code point lies in a class when an odd number of switches stand at or below it. -/
def inClass (switches : List Nat) (n : Nat) : Bool :=
  (switches.takeWhile (· ≤ n)).length % 2 = 1

/-- White space together with the four information separators. -/
def blankSwitches : List Nat :=
  [0x09, 0x0E, 0x1C, 0x21, 0x85, 0x86, 0xA0, 0xA1, 0x1680, 0x1681, 0x2000, 0x200B, 0x2028, 0x202A,
   0x202F, 0x2030, 0x205F, 0x2060, 0x3000, 0x3001]

def isBlank (c : Char) : Bool := inClass blankSwitches c.toNat

/-- Code points of the digits zero of every script, in Unicode 14. -/
def zeroDigits : List Nat :=
  [0x30, 0x0660, 0x06F0, 0x07C0, 0x0966, 0x09E6, 0x0A66, 0x0AE6, 0x0B66, 0x0BE6, 0x0C66, 0x0CE6,
   0x0D66, 0x0DE6, 0x0E50, 0x0ED0, 0x0F20, 0x1040, 0x1090, 0x17E0, 0x1810, 0x1946, 0x19D0, 0x1A80,
   0x1A90, 0x1B50, 0x1BB0, 0x1C40, 0x1C50, 0xA620, 0xA8D0, 0xA900, 0xA9D0, 0xA9F0, 0xAA50, 0xABF0,
   0xFF10, 0x104A0, 0x10D30, 0x11066, 0x110F0, 0x11136, 0x111D0, 0x112F0, 0x11450, 0x114D0, 0x11650,
   0x116C0, 0x11730, 0x118E0, 0x11950, 0x11C50, 0x11D50, 0x11DA0, 0x16A60, 0x16AC0, 0x16B50,
   0x1D7CE, 0x1D7D8, 0x1D7E2, 0x1D7EC, 0x1D7F6, 0x1E140, 0x1E2F0, 0x1E950, 0x1FBF0]

/-- The value of a decimal digit of any script. -/
def digit? (c : Char) : Option Nat :=
  (zeroDigits.find? fun z => z ≤ c.toNat && c.toNat < z + 10).map (c.toNat - ·)

/-- The number that a run of digits stands for, whatever scripts they are from. -/
def number (ds : List Nat) : Nat := ds.foldl (fun n d => 10 * n + d) 0

/-- A text without the white space at its end. -/
def trimEnd (s : List Char) : List Char := (s.reverse.dropWhile isBlank).reverse

/-- A text without the white space at both ends. -/
def trim (s : List Char) : List Char := trimEnd (s.dropWhile isBlank)

/-- Lower case of ASCII letters. -/
def lower (s : String) : String := String.ofList (s.toList.map Char.toLower)

theorem isBlank_of_isWhitespace {c : Char} (h : c.isWhitespace = true) : isBlank c = true := by
  simp only [Char.isWhitespace, Bool.or_eq_true, decide_eq_true_eq] at h
  rcases h with ((h | h) | h) | h <;> subst h <;> decide

end PluginHost.Text
