/-
Domain names in URLs.

A domain is brought to its ASCII form before it is judged: escapes are decoded, capitals
and full-width forms are folded, characters without meaning are dropped, and the
ideographic full stops become dots.  What is left must be free of the characters that
have a meaning elsewhere in a URL, and a label in the `xn--` form must be the encoding of
a label that needs one.
-/
import ApiNotes.Text.Search
import ApiNotes.Url.Address

namespace ApiNotes.Url

/-- Text with its percent escapes decoded, unless that gives no text. -/
def percentDecode? (s : List Char) : Option (List Char) :=
  if s.all (· != '%') then some s
  else (String.fromUTF8? ⟨(decodeBytes (String.ofList s).toUTF8.toList).toArray⟩).map String.toList
where
  /-- Decodes escapes byte by byte; a percent sign that starts none stands for itself. -/
  decodeBytes : List UInt8 → List UInt8
    | 0x25 :: a :: b :: rest =>
      match Text.digits? 16 [Char.ofNat a.toNat, Char.ofNat b.toNat] with
      | some n => UInt8.ofNat n :: decodeBytes rest
      | none => 0x25 :: decodeBytes (a :: b :: rest)
    | b :: rest => b :: decodeBytes rest
    | [] => []

/-- Ranges of code points that have no meaning in a domain and are dropped. -/
def ignoredRanges : List (Nat × Nat) :=
  [(0xAD, 0xAD), (0x34F, 0x34F), (0x180B, 0x180D), (0x180F, 0x180F), (0x200B, 0x200B),
    (0x2060, 0x2060), (0x2064, 0x2064), (0xFE00, 0xFE0F), (0xFEFF, 0xFEFF),
    (0xE0100, 0xE01EF)]

/-- Ranges of code points that no domain may hold: controls, blanks, joiners and directional marks,
private use and specials. -/
def refusedRanges : List (Nat × Nat) :=
  [(0x80, 0xA0), (0x61C, 0x61C), (0x1680, 0x1680), (0x180E, 0x180E), (0x2000, 0x200A),
    (0x200C, 0x200F), (0x2028, 0x202F), (0x205F, 0x205F), (0x2061, 0x2063), (0x2065, 0x206F),
    (0x3000, 0x3000), (0xE000, 0xF8FF), (0xFFF0, 0xFFFF), (0xE0000, 0xE00FF),
    (0xE01F0, 0x10FFFF)]

/-- Ranges of characters that stand for a sequence with a blank, or with another character that no
domain may hold: spacing accents, the account and care-of signs, doubled and small punctuation. -/
def compoundRanges : List (Nat × Nat) :=
  [(0xA8, 0xA8), (0xAF, 0xAF), (0xB4, 0xB4), (0xB8, 0xB8), (0x2D8, 0x2DD), (0x37A, 0x37A),
    (0x384, 0x385), (0x1FBD, 0x1FBD), (0x1FBF, 0x1FC1), (0x1FCD, 0x1FCF), (0x1FDD, 0x1FDF),
    (0x1FED, 0x1FEE), (0x1FFD, 0x1FFE), (0x2017, 0x2017), (0x203E, 0x203E), (0x2047, 0x2049),
    (0x2100, 0x2101), (0x2105, 0x2106), (0x2A74, 0x2A74), (0x309B, 0x309C), (0xFC5E, 0xFC63),
    (0xFDFA, 0xFDFB), (0xFE13, 0xFE13), (0xFE16, 0xFE16), (0xFE47, 0xFE4C), (0xFE55, 0xFE56),
    (0xFE5F, 0xFE5F), (0xFE64, 0xFE65), (0xFE68, 0xFE68), (0xFE6A, 0xFE6B), (0xFE70, 0xFE70),
    (0xFE72, 0xFE72), (0xFE74, 0xFE74), (0xFE76, 0xFE76), (0xFE78, 0xFE78), (0xFE7A, 0xFE7A),
    (0xFE7C, 0xFE7C), (0xFE7E, 0xFE7E), (0xFFE3, 0xFFE3)]

/-- Ranges of marks that combine with the character before them and cannot start a label. -/
def markRanges : List (Nat × Nat) :=
  [(0x300, 0x36F), (0x483, 0x489), (0x591, 0x5BD), (0x64B, 0x65F), (0x1AB0, 0x1AFF),
    (0x1DC0, 0x1DFF), (0x20D0, 0x20FF), (0x302A, 0x302F), (0x3099, 0x309A), (0xFE20, 0xFE2F)]

/-- Whether a character lies in one of some ranges. -/
def inRanges (ranges : List (Nat × Nat)) (c : Char) : Bool :=
  ranges.any fun r => r.1 ≤ c.toNat && c.toNat ≤ r.2

/-- A character in the form that domains are compared in; nothing for one that is dropped. -/
def foldChar (c : Char) : List Char :=
  let n := c.toNat
  if inRanges ignoredRanges c then []
  else if n = 0x3002 || n = 0xFF61 then ['.']
  else if 0xFF01 ≤ n && n ≤ 0xFF5E then [(Char.ofNat (n - 0xFEE0)).toLower]
  else [c.toLower]

/-- The characters that no domain may hold because they have a meaning in a URL. -/
def isRefusedAscii (c : Char) : Bool :=
  c.toNat ≤ 0x20 || c.toNat = 0x7F || "#/:<>?@[\\]^|%".toList.contains c

/-- The characters of a label that is written in the `xn--` form, if it is an encoding: each step
inserts one character at a place found by a variable-length number. -/
def decodeLabel? (encoded : List Char) : Option (List Char) :=
  let reversed := encoded.reverse
  let tail := (reversed.takeWhile (· != '-')).reverse
  let base := ((reversed.dropWhile (· != '-')).drop 1).reverse
  insertAll tail.length base 128 0 72 tail
where
  /-- The value of a digit of the encoding. -/
  digit? (c : Char) : Option Nat :=
    if 'a' ≤ c && c ≤ 'z' then some (c.toNat - 'a'.toNat)
    else if c.isDigit then some (c.toNat - '0'.toNat + 26)
    else none
  /-- Reads one number: its value and the digits behind it. -/
  number? (bias : Nat) : Nat → Nat → Nat → List Char → Option (Nat × List Char)
    | _, _, _, [] => none
    | k, weight, value, c :: rest => do
      let d ← digit? c
      let threshold := if k ≤ bias then 1 else if k ≥ bias + 26 then 26 else k - bias
      let value := value + d * weight
      if d < threshold then some (value, rest)
      else number? bias (k + 36) (weight * (36 - threshold)) value rest
  /-- The bias for the next number. -/
  adapt (delta points : Nat) (first : Bool) : Nat :=
    let delta := if first then delta / 700 else delta / 2
    let delta := delta + delta / points
    let k := if delta > 16380 then 3 else if delta > 15932 then 2 else if delta > 455 then 1 else 0
    let delta := if k = 0 then delta else delta / Nat.pow 35 k
    36 * k + 36 * delta / (delta + 38)
  /-- Inserts characters as long as there are digits. -/
  insertAll : Nat → List Char → Nat → Nat → Nat → List Char → Option (List Char)
    | _, decoded, _, _, _, [] => some decoded
    | 0, _, _, _, _, _ :: _ => none
    | fuel + 1, decoded, code, index, bias, digits => do
      let (value, rest) ← number? bias 36 1 index digits
      let points := decoded.length + 1
      let code := code + value / points
      let place := value % points
      if code > 0x10FFFF || (0xD800 ≤ code && code ≤ 0xDFFF) then none
      else
        let decoded := decoded.take place ++ Char.ofNat code :: decoded.drop place
        insertAll fuel decoded code (place + 1) (adapt (value - index) points (index = 0)) rest

/-- Whether a folded label may stand in a domain. -/
def isLabel (label : List Char) : Bool :=
  let fine := fun (text : List Char) =>
    text.all (fun c =>
        !inRanges refusedRanges c && !inRanges compoundRanges c && !isRefusedAscii c) &&
      !(text.head?.any (inRanges markRanges))
  match Text.stripPrefix? "xn--".toList label with
  | some encoded =>
    if label.all fun c => c.toNat < 0x80 then
      match decodeLabel? encoded with
      | some text =>
        fine text && text.any (fun c => c.toNat ≥ 0x80) && text.flatMap foldChar == text
      | none => false
    else false
  | none => fine label

/-- The folded form of a host that can be a domain. -/
def domain? (host : List Char) : Option (List Char) := do
  let folded := (← percentDecode? host).flatMap foldChar
  if (folded.splitOn '.').all isLabel then some folded else none

end ApiNotes.Url
