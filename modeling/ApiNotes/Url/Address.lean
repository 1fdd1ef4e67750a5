/-
Numeric hosts: IPv4 and IPv6 addresses as URLs write them.

A host whose last label looks like a number has to be an IPv4 address.  Such an
address has up to four numbers, decimal, octal behind `0` or hexadecimal behind `0x`;
the last number fills all the bytes that the others leave.  An IPv6 address, written
between brackets, has eight groups, of which one run may be left out as `::`, and its
last two groups may be written as an IPv4 address.
-/
import ApiNotes.Text.Digits

namespace ApiNotes.Url

/-- Whether a character is a hexadecimal digit. -/
def isHexDigit (c : Char) : Bool := (Text.digitValue? 16 c).isSome

/-- A number of an IPv4 address. -/
def ipv4Number? : List Char → Option Nat
  | [] => none
  | '0' :: 'x' :: digits | '0' :: 'X' :: digits =>
    if digits.isEmpty then some 0 else Text.digits? 16 digits
  | ['0'] => some 0
  | '0' :: digits => Text.digits? 8 digits
  | digits => Text.digits? 10 digits

/-- The labels of a host, without the empty one behind a closing dot. -/
def labels (host : List Char) : List (List Char) :=
  let parts := host.splitOn '.'
  if parts.getLast? = some [] then parts.dropLast else parts

/-- Whether the last label of a host looks like a number. -/
def endsInNumber (host : List Char) : Bool :=
  match (labels host).getLast? with
  | none => false
  | some label => (!label.isEmpty && label.all Char.isDigit) || (ipv4Number? label).isSome

/-- Whether a host is an IPv4 address. -/
def isIpv4 (host : List Char) : Bool :=
  match (labels host).mapM ipv4Number? with
  | none => false
  | some numbers =>
    let front := numbers.dropLast
    numbers.length ≤ 4 && front.all (· ≤ 255) &&
      numbers.getLastD 0 < Nat.pow 256 (4 - front.length)

/-- Whether a text is a decimal number up to 255 without leading zeros. -/
def isOctet (s : List Char) : Bool :=
  (Text.digits? 10 s).any (· ≤ 255) && (s.length == 1 || s.head? != some '0')

/-- Whether a text is four octets between dots. -/
def isDottedQuad (s : List Char) : Bool :=
  let parts := s.splitOn '.'
  parts.length == 4 && parts.all isOctet

/-- Whether the groups of an IPv6 address can go on as given, after `count` groups and with a gap
or without one. -/
def ipv6Rest (count : Nat) (gap : Bool) (s : List Char) : Bool :=
  match s with
  | [] => gap || count == 8
  | ':' :: rest => count != 8 && !gap && ipv6Rest (count + 1) true rest
  | c :: cs =>
    let digits := ((c :: cs).take 4).takeWhile isHexDigit
    match h : (c :: cs).drop digits.length with
    | [] => count != 8 && (gap || count + 1 == 8)
    | '.' :: _ =>
      !digits.isEmpty && count ≤ 6 && isDottedQuad (c :: cs) && (gap || count + 2 == 8)
    | ':' :: rest => count != 8 && !rest.isEmpty && ipv6Rest (count + 1) gap rest
    | _ => false
termination_by s.length
decreasing_by
  · simp
  · have := congrArg List.length h
    simp only [List.length_drop, List.length_cons] at this ⊢
    omega

/-- Whether a text is an IPv6 address, without its brackets. -/
def isIpv6 : List Char → Bool
  | ':' :: ':' :: rest => ipv6Rest 1 true rest
  | ':' :: _ => false
  | s => s.length ≥ 2 && ipv6Rest 0 false s

end ApiNotes.Url
