import PluginHost.Text.Printable

/-!
Quoted texts. The quote is single unless the text holds single quotes and no double one; characters
that cannot be shown are written by their code point.
-/
namespace PluginHost.Text

/-- Lower-case hexadecimal digits, at least `width` of them. -/
def hex (width n : Nat) : List Char :=
  let ds := Nat.toDigits 16 n
  List.replicate (width - ds.length) '0' ++ ds

def quoteOf (s : List Char) : Char :=
  if '\'' ∈ s ∧ '"' ∉ s then '"' else '\''

/-- How one character stands between the given quotes. -/
def escaped (quote c : Char) : List Char :=
  if c = quote ∨ c = '\\' then ['\\', c]
  else if c = '\n' then ['\\', 'n']
  else if c = '\r' then ['\\', 'r']
  else if c = '\t' then ['\\', 't']
  else if isPrintable c then [c]
  else if c.toNat < 0x100 then '\\' :: 'x' :: hex 2 c.toNat
  else if c.toNat < 0x10000 then '\\' :: 'u' :: hex 4 c.toNat
  else '\\' :: 'U' :: hex 8 c.toNat

def quoted (s : String) : String :=
  let q := quoteOf s.toList
  String.ofList (q :: s.toList.flatMap (escaped q) ++ [q])

end PluginHost.Text
