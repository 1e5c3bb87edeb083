import ReplicatedStore.Text
import ReplicatedStore.Url.Percent

/-!
# Hosts

The host of a URL is a domain, an IPv4 number or an IPv6 address. Schemes that are made for the web
read their hosts strictly: percent signs are undone, a domain has no forbidden character, and a
domain that ends in a number has to be an IPv4 address, in as many as four parts, each decimal, octal
or hexadecimal. Other schemes take a host as it is.
-/

namespace ReplicatedStore

/-- Why a text is no URL. -/
inductive UrlError
  | relativeWithoutBase
  | emptyHost
  | invalidPort
  | invalidIpv4
  | invalidIpv6
  | invalidDomain
  | invalidDomainCharacter
  deriving DecidableEq, Repr

def UrlError.message : UrlError → String
  | relativeWithoutBase => "relative URL without a base"
  | emptyHost => "empty host"
  | invalidPort => "invalid port number"
  | invalidIpv4 => "invalid IPv4 address"
  | invalidIpv6 => "invalid IPv6 address"
  | invalidDomain => "invalid international domain name"
  | invalidDomainCharacter => "invalid domain character"

/-- Where a URL points to. -/
inductive Host
  /-- a name; it may be empty where the scheme allows it -/
  | domain (name : String)
  | ipv4 (number : Nat)
  /-- eight pieces of 16 bits -/
  | ipv6 (pieces : List Nat)
  deriving DecidableEq, Repr

namespace Host

/-! ## Numbers -/

/-- Digits of a radix read as a number. -/
def number? (radix : Nat) (digits : List Char) : Option Nat :=
  digits.foldlM (fun n c => do
    let d ← Percent.digitValue? c
    if d < radix then some (n * radix + d) else none) 0

/-- A part of an IPv4 address; `0x` marks a hexadecimal and a further `0` an octal number, and a mark
with nothing behind it is zero. -/
def ipv4Part? : List Char → Option Nat
  | [] => none
  | '0' :: 'x' :: rest | '0' :: 'X' :: rest => number? 16 rest
  | '0' :: c :: rest => number? 8 (c :: rest)
  | digits => number? 10 digits

/-- The parts of a domain between dots; a dot at the end begins no part. -/
def labels (name : List Char) : List (List Char) :=
  let parts := Text.pieces '.' name
  if 1 < parts.length && parts.getLast? = some [] then parts.dropLast else parts

/-- Whether the last label of a domain is a number, so that the whole has to be an address. -/
def endsInNumber (name : List Char) : Bool :=
  match (labels name).getLast? with
  | none => false
  | some last => last ≠ [] && (last.all Char.isDigit || (ipv4Part? last).isSome)

/-- The address that parts make up: the last part fills all octets that the others leave. -/
def ipv4OfParts? (parts : List Nat) : Option Nat :=
  match parts.reverse with
  | [] => none
  | last :: before =>
    -- all parts but the last are octets, and the last fits into those that are left
    if 4 < parts.length || before.any (255 < ·) || 1 <<< (8 * (4 - before.length)) ≤ last then none
    else
      let high := before.reverse.foldl (fun n part => n * 256 + part) 0
      some (high <<< (8 * (4 - before.length)) + last)

/-- A domain that ends in a number, read as an address. -/
def ipv4? (name : List Char) : Option Nat := do ipv4OfParts? (← (labels name).mapM ipv4Part?)

/-! ## IPv6 addresses -/

/-- A piece of up to four hexadecimal digits. -/
def ipv6Piece? (digits : List Char) : Option Nat :=
  if digits = [] || 4 < digits.length then none else number? 16 digits

/-- An octet in decimal without leading zeros. -/
def octet? (digits : List Char) : Option Nat :=
  match digits with
  | [] => none
  | '0' :: _ :: _ => none
  | digits => (number? 10 digits).filter (· < 256)

/-- The last part of an IPv6 address as one piece, or as two in the form of four octets. -/
def ipv6Last? (part : List Char) : Option (List Nat) :=
  match (Text.pieces '.' part).mapM octet? with
  | some [a, b, c, d] => some [a * 256 + b, c * 256 + d]
  | _ => (ipv6Piece? part).map ([·])

/-- Pieces between colons; only the last may be in the form of octets, and only where `final`. -/
def ipv6Pieces? (final : Bool) (part : List Char) : Option (List Nat) :=
  if part = [] then some []
  else
    match (Text.pieces ':' part).reverse with
    | [] => none
    | last :: before => do
      let head ← before.reverse.mapM ipv6Piece?
      let tail ← if final then ipv6Last? last else (ipv6Piece? last).map ([·])
      return head ++ tail

/-- What stands before and behind the first pair of colons. -/
def cutAtPair : List Char → Option (List Char × List Char)
  | ':' :: ':' :: rest => some ([], rest)
  | c :: rest => (cutAtPair rest).map fun (before, after) => (c :: before, after)
  | [] => none

/-- An address in eight pieces; one pair of colons stands for all pieces of zero that are missing, of
which there is at least one. -/
def ipv6? (text : List Char) : Option (List Nat) :=
  match cutAtPair text with
  | none => (ipv6Pieces? true text).filter (·.length = 8)
  | some (before, after) => do
    let head ← ipv6Pieces? false before
    -- a second pair of colons leaves an empty piece here, which is none
    let tail ← ipv6Pieces? true after
    if 7 < head.length + tail.length then none
    else some (head ++ List.replicate (8 - head.length - tail.length) 0 ++ tail)

/-! ## Reading -/

/-- Whether a character may not stand in the domain of a web scheme. -/
def isForbiddenInDomain (c : Char) : Bool :=
  c.toNat ≤ 32 || c.toNat = 127 || "%#/:<>?@[\\]^|".toList.contains c

/-- Whether a character may not stand in the host of any other scheme. -/
def isForbiddenInOther (c : Char) : Bool := "\x00\t\n\r #/:<>?@[\\]^|".toList.contains c

/-- A host in brackets. -/
def bracketed (rest : List Char) : Except UrlError Host :=
  if rest.getLast? = some ']' then
    match ipv6? rest.dropLast with
    | some pieces => .ok (.ipv6 pieces)
    | none => .error .invalidIpv6
  else .error .invalidIpv6

/-- The host of a web scheme. Domains are written in lower case. -/
def parse : List Char → Except UrlError Host
  | '[' :: rest => bracketed rest
  | text =>
    match Bytes.toText? (Percent.decode text) with
    | none => .error .invalidDomain
    | some decoded =>
      -- checked once percent signs are undone, so that they hide nothing
      let name := decoded.toList.map Char.toLower
      if name.any isForbiddenInDomain then .error .invalidDomain
      else if name = [] then .error .emptyHost
      else if endsInNumber name then
        match ipv4? name with
        | some n => .ok (.ipv4 n)
        | none => .error .invalidIpv4
      else .ok (.domain (String.ofList name))

/-- The host of any other scheme. -/
def parseOther : List Char → Except UrlError Host
  | '[' :: rest => bracketed rest
  | text =>
    if text.any isForbiddenInOther then .error .invalidDomainCharacter
    else .ok (.domain (Percent.encode Percent.isPrintable (String.ofList text)))

/-! ## Writing -/

/-- The digits of a number in hexadecimal, in lower case. -/
def hexText (n : Nat) : String := String.ofList (Nat.toDigits 16 n)

/-- How many pieces of zero a list starts with. -/
def zeros (pieces : List Nat) : Nat := (pieces.takeWhile (· = 0)).length

/-- Where the first of the longest runs of zeros starts, and its length. -/
def longestRun (pieces : List Nat) : Nat × Nat :=
  (List.range pieces.length).foldl (fun best i =>
    let n := zeros (pieces.drop i)
    -- of two runs of one length the first is kept
    if best.2 < n then (i, n) else best) (0, 0)

/-- The text of an address; its longest run of at least two pieces of zero is left out. -/
def ipv6Text (pieces : List Nat) : String :=
  let write (ps : List Nat) : String := ":".intercalate (ps.map hexText)
  let (start, length) := longestRun pieces
  if length < 2 then write pieces
  else write (pieces.take start) ++ "::" ++ write (pieces.drop (start + length))

def text : Host → String
  | domain name => name
  | ipv4 n =>
    ".".intercalate ([n / 16777216, n / 65536 % 256, n / 256 % 256, n % 256].map fun k => toString k)
  | ipv6 pieces => "[" ++ ipv6Text pieces ++ "]"

end Host

end ReplicatedStore
