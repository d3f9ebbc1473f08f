import PluginHost.Text.Quoted

/-!
Bytes as text. Bytes that follow no form are refused with the place and the reason; where surrogates
are let through they stand as the replacement character.
-/
namespace PluginHost.Text

/-- The bytes from `start` to before `stop` are no text of the encoding. -/
structure Malformed where
  encoding : String
  start : Nat
  stop : Nat
  first : UInt8
  reason : String

def Malformed.message (m : Malformed) : String :=
  let place :=
    if m.stop = m.start + 1 then
      "byte 0x" ++ String.ofList (hex 2 m.first.toNat) ++ " in position " ++ toString m.start
    else "bytes in position " ++ toString m.start ++ "-" ++ toString (m.stop - 1)
  "'" ++ m.encoding ++ "' codec can't decode " ++ place ++ ": " ++ m.reason

/-- A scalar value as a character; surrogates become the replacement character. -/
def scalar (n : Nat) : Char :=
  if n.isValidChar then Char.ofNat n else '\uFFFD'

/-- How many bytes follow a lead byte, and the bounds of the first of them. -/
def following? (surrogates : Bool) (lead : UInt8) : Option (Nat × UInt8 × UInt8) :=
  if lead < 0xC2 then none
  else if lead < 0xE0 then some (1, 0x80, 0xBF)
  else if lead = 0xE0 then some (2, 0xA0, 0xBF)
  else if lead = 0xED then some (2, 0x80, if surrogates then 0xBF else 0x9F)
  else if lead < 0xF0 then some (2, 0x80, 0xBF)
  else if lead = 0xF0 then some (3, 0x90, 0xBF)
  else if lead < 0xF4 then some (3, 0x80, 0xBF)
  else if lead = 0xF4 then some (3, 0x80, 0x8F)
  else none

/-- The significant bits of the bytes that follow a lead byte, or the number of good bytes and the
reason why the next is not. -/
def follow (count : Nat) (low high : UInt8) (value good : Nat) :
    List UInt8 → Except (Nat × String) (Nat × List UInt8)
  | [] => if count = 0 then .ok (value, []) else .error (good, "unexpected end of data")
  | b :: bs =>
    match count with
    | 0 => .ok (value, b :: bs)
    | count + 1 =>
      if low ≤ b ∧ b ≤ high then
        follow count 0x80 0xBF (value * 64 + (b &&& 0x3F).toNat) (good + 1) bs
      else .error (good, "invalid continuation byte")

/-- The bits of a lead byte that belong to the value. -/
def leadBits (count : Nat) (lead : UInt8) : Nat := lead.toNat % Nat.pow 2 (6 - count)

def utf8From (surrogates : Bool) : Nat → Nat → List UInt8 → Except Malformed (List Char)
  | 0, _, _ => .ok []
  | _ + 1, _, [] => .ok []
  | fuel + 1, place, b :: bs =>
    if b < 0x80 then do
      let rest ← utf8From surrogates fuel (place + 1) bs
      pure (Char.ofNat b.toNat :: rest)
    else
      match following? surrogates b with
      | none => .error ⟨"utf-8", place, place + 1, b, "invalid start byte"⟩
      | some (count, low, high) =>
        match follow count low high (leadBits count b) 1 bs with
        | .error (good, reason) => .error ⟨"utf-8", place, place + good, b, reason⟩
        | .ok (value, bs) => do
          let rest ← utf8From surrogates fuel (place + count + 1) bs
          pure (scalar value :: rest)

/-- Bytes in the encoding of one to four bytes for a character. -/
def utf8 (surrogates : Bool) (bs : List UInt8) : Except Malformed (List Char) :=
  utf8From surrogates bs.length 0 bs

/-- Bytes taken in groups of equal size, each as a number, and the length of what is left over. -/
def groups (size : Nat) (bigEndian : Bool) : Nat → List UInt8 → List Nat × List UInt8
  | 0, bs => ([], bs)
  | fuel + 1, bs =>
    if bs.length < size ∨ size = 0 then ([], bs)
    else
      let g := bs.take size
      let ordered := if bigEndian then g else g.reverse
      let r := groups size bigEndian fuel (bs.drop size)
      (ordered.foldl (fun n b => n * 256 + b.toNat) 0 :: r.1, r.2)

/-- Units of sixteen bits; a high unit and the low unit after it make one character. -/
def joinUnits : List Nat → List Char
  | [] => []
  | [u] => [scalar u]
  | u :: v :: rest =>
    if 0xD800 ≤ u ∧ u < 0xDC00 ∧ 0xDC00 ≤ v ∧ v < 0xE000 then
      scalar (0x10000 + (u - 0xD800) * 0x400 + (v - 0xDC00)) :: joinUnits rest
    else scalar u :: joinUnits (v :: rest)

def truncated (encoding : String) (size : Nat) (left : List UInt8) : Except Malformed Unit :=
  match left with
  | [] => .ok ()
  | b :: _ => .error ⟨encoding, size - left.length, size, b, "truncated data"⟩

def utf16 (bigEndian : Bool) (bs : List UInt8) : Except Malformed (List Char) := do
  let r := groups 2 bigEndian bs.length bs
  truncated (if bigEndian then "utf-16-be" else "utf-16-le") bs.length r.2
  pure (joinUnits r.1)

/-- Place of the first value beyond the last code point. -/
def beyond? (values : List Nat) : Option Nat := values.findIdx? (fun n => decide (0x110000 ≤ n))

def utf32 (bigEndian : Bool) (bs : List UInt8) : Except Malformed (List Char) := do
  let r := groups 4 bigEndian bs.length bs
  let encoding := if bigEndian then "utf-32-be" else "utf-32-le"
  match beyond? r.1 with
  | some i =>
    .error ⟨encoding, 4 * i, 4 * i + 4, bs.getD (4 * i) 0, "code point not in range(0x110000)"⟩
  | none =>
    truncated encoding bs.length r.2
    pure (r.1.map scalar)

end PluginHost.Text
