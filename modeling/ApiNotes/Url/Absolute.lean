/-
Absolute URLs.

A URL starts with its scheme.  The web's own schemes need a host, behind any number of
slashes of either direction; a file URL may have one; any other scheme has one exactly
when two slashes follow, and then the host may be empty.  Behind the host nothing is
refused.  Outer controls and blanks are not part of a URL, and line breaks and tabs
inside it are passed over.
-/
import ApiNotes.Text.Case
import ApiNotes.Url.Domain

namespace ApiNotes.Url

/-- How the URLs of a scheme are read. -/
inductive SchemeKind
  /-- One of the web's schemes, with a host. -/
  | web
  | file
  | other
deriving DecidableEq, Repr

/-- The kind of a scheme in small letters. -/
def SchemeKind.ofScheme (scheme : String) : SchemeKind :=
  if ["http", "https", "ws", "wss", "ftp"].contains scheme then .web
  else if scheme = "file" then .file
  else .other

/-- The text that counts: without outer controls and blanks, tabs and line breaks. -/
def significant (s : List Char) : List Char :=
  let outer := fun (c : Char) => decide (c.toNat ≤ 0x20)
  let inner := (((s.dropWhile outer).reverse).dropWhile outer).reverse
  inner.filter fun c => c != '\t' && c != '\n' && c != '\r'

/-- The scheme of a URL in small letters, and what follows its colon. -/
def scheme? (s : List Char) : Option (String × List Char) :=
  let name := s.takeWhile fun c => c.isAlphanum || c == '+' || c == '-' || c == '.'
  match name.head?, s.drop name.length with
  | some first, ':' :: rest =>
    if first.isAlpha then some (Text.lower (String.ofList name), rest) else none
  | _, _ => none

/-- Whether a character ends the authority of a URL. -/
def endsAuthority (kind : SchemeKind) (c : Char) : Bool :=
  c == '/' || c == '?' || c == '#' || (c == '\\' && kind != .other)

/-- The host of an authority and what follows it; a colon between brackets belongs to the host. -/
def splitHost : Bool → List Char → List Char × List Char
  | _, [] => ([], [])
  | bracketed, c :: rest =>
    if c == ':' && !bracketed then ([], c :: rest)
    else
      let bracketed := if c == '[' then true else if c == ']' then false else bracketed
      let (host, after) := splitHost bracketed rest
      (c :: host, after)

/-- Whether a host between brackets is an IPv6 address; no answer for other hosts. -/
def bracketedHost? : List Char → Option Bool
  | '[' :: rest => some (rest.getLast? == some ']' && isIpv6 rest.dropLast)
  | _ => none

/-- Whether a text is a host of the web. -/
def isWebHost (host : List Char) : Bool :=
  (bracketedHost? host).getD <|
    match domain? host with
    | none => false
    | some domain => !domain.isEmpty && (!endsInNumber domain || isIpv4 domain)

/-- Whether a text is a host of a scheme that gives hosts no form. -/
def isOpaqueHost (host : List Char) : Bool :=
  (bracketedHost? host).getD <|
    host.all fun c => c.toNat != 0 && !" #/:<>?@[\\]^|".toList.contains c

/-- Whether what follows a host is a port, or nothing. -/
def isPortPart : List Char → Bool
  | ':' :: port =>
    let digits := port.takeWhile Char.isDigit
    let rest := port.drop digits.length
    Text.decimalValue digits ≤ 65535 && (rest.isEmpty || rest.head? == some '\\')
  | _ => true

/-- Whether a text that starts with an authority is right up to the end of that authority. -/
def isAuthority (kind : SchemeKind) (s : List Char) : Bool :=
  let authority := s.takeWhile fun c => !endsAuthority kind c
  let reversed := authority.reverse
  let hostPort := (reversed.takeWhile (· != '@')).reverse
  let user := ((reversed.dropWhile (· != '@')).drop 1).reverse
  let hasAt := authority.contains '@'
  let (host, after) := splitHost false hostPort
  let hostFine := if kind == .other then isOpaqueHost host else isWebHost host
  -- A host may be missing only where it is neither required nor announced by a user or a port.
  let missing := host.isEmpty &&
    (kind == .web || !after.isEmpty || (hasAt && user.isEmpty && authority.length < s.length) ||
      user.any (· != ':') || user.length > 1)
  !missing && hostFine && isPortPart after

/-- Whether a text is a letter and a colon or bar, as drives are named. -/
def isDriveLetter : List Char → Bool
  | [letter, mark] => letter.isAlpha && (mark == ':' || mark == '|')
  | _ => false

/-- Whether what follows `file:` is right. -/
def isFileRest : List Char → Bool
  | a :: b :: rest =>
    if (a == '/' || a == '\\') && (b == '/' || b == '\\') then
      let host := rest.takeWhile fun c => !endsAuthority .file c
      host.isEmpty || isDriveLetter host || isWebHost host
    else true
  | _ => true

/-- Whether a text is an absolute URL. -/
def isAbsolute (url : String) : Bool :=
  match scheme? (significant url.toList) with
  | none => false
  | some (scheme, rest) =>
    match SchemeKind.ofScheme scheme with
    | .web => isAuthority .web (rest.dropWhile fun c => c == '/' || c == '\\')
    | .file => isFileRest rest
    | .other =>
      match Text.stripPrefix? ['/', '/'] rest with
      | some authority => isAuthority .other authority
      | none => true

/-- Whether a text can be followed as a link: an absolute URL, or a path on the host that serves
the document. -/
def isLink (url : String) : Bool :=
  url.toList.head? == some '/' || isAbsolute url

end ApiNotes.Url
