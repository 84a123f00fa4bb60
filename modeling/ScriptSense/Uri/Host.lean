import ScriptSense.Text.Line
import ScriptSense.Text.Utf8

/-!
# Percent encoding and hosts

A character that a part of a URI may not hold is written as its UTF-8 bytes, each as a percent sign
and two hexadecimal digits. Which characters these are depends on the part; control characters and
all characters beyond ASCII are always among them.

The host of a URI is a name, an IPv4 address or an IPv6 address in brackets. Addresses have one
written form each. The names here are ASCII names, in lower case.
-/

namespace ScriptSense.Uri

def isControl (c : Char) : Bool :=
  c.toNat < 0x20 || c.toNat == 0x7F

/-- The characters that a fragment cannot hold, besides the control characters. -/
def fragmentSet : List Char := [' ', '"', '<', '>', '\x60']

def pathSet : List Char := fragmentSet ++ ['#', '?', '\x7b', '\x7d']

def userSet : List Char := pathSet ++ ['/', ':', ';', '=', '@', '[', '\\', ']', '^', '|']

def querySet : List Char := [' ', '"', '#', '<', '>']

def specialQuerySet : List Char := querySet ++ ['\'']

/-- The characters that the name of a file cannot hold in a path. -/
def nameSet : List Char := pathSet ++ ['/', '%', '\\']

def hexDigit (n : Nat) : Char :=
  (Nat.digitChar n).toUpper

def encodeByte (b : UInt8) : List Char :=
  ['%', hexDigit (b.toNat / 16), hexDigit (b.toNat % 16)]

def mustEncode (set : List Char) (c : Char) : Bool :=
  isControl c || 0x7F < c.toNat || set.contains c

def encodeChar (set : List Char) (c : Char) : List Char :=
  if mustEncode set c then (String.utf8EncodeChar c).flatMap encodeByte else [c]

def encode (set text : List Char) : List Char :=
  text.flatMap (encodeChar set)

def hexValue? (c : Char) : Option UInt8 :=
  if c.isDigit then some (c.toNat - '0'.toNat).toUInt8
  else if 'a' ≤ c ∧ c ≤ 'f' then some (c.toNat - 'a'.toNat + 10).toUInt8
  else if 'A' ≤ c ∧ c ≤ 'F' then some (c.toNat - 'A'.toNat + 10).toUInt8
  else none

/-- The bytes of a text in which a percent sign and two hexadecimal digits stand for a byte. -/
def decode : List Char → List UInt8
  | [] => []
  | '%' :: a :: b :: rest =>
    match hexValue? a, hexValue? b with
    | some high, some low => (high * 16 + low) :: decode rest
    | _, _ => '%'.toNat.toUInt8 :: decode (a :: b :: rest)
  | c :: rest => String.utf8EncodeChar c ++ decode rest

/-- Why a text is not a URI. -/
inductive Invalid
  | relative
  | emptyHost
  | invalidService
  | invalidIpv4
  | invalidIpv6
  | invalidDomain
  | invalidInternationalDomain
  deriving DecidableEq, Repr, Inhabited

def Invalid.message : Invalid → String
  | .relative => "relative URL without a base"
  | .emptyHost => "empty host"
  | .invalidService => "invalid port number"
  | .invalidIpv4 => "invalid IPv4 address"
  | .invalidIpv6 => "invalid IPv6 address"
  | .invalidDomain => "invalid domain character"
  | .invalidInternationalDomain => "invalid international domain name"

/-- The value of digits in a base, if all of them are digits of that base. -/
def digits? (base : Nat) (text : List Char) : Option Nat :=
  text.foldlM (fun value c ↦
    match hexValue? c with
    | some digit => if digit.toNat < base then some (value * base + digit.toNat) else none
    | none => none) 0

/-- A part of an IPv4 address: hexadecimal after `0x`, octal after `0`, and otherwise decimal. -/
def ipv4Part? (part : List Char) : Option Nat :=
  match part with
  | [] => none
  | '0' :: 'x' :: rest | '0' :: 'X' :: rest => digits? 16 rest
  | '0' :: c :: rest => digits? 8 (c :: rest)
  | _ => digits? 10 part

def withoutLastEmpty (parts : List (List Char)) : List (List Char) :=
  if parts.getLast? = some [] then parts.dropLast else parts

/-- Whether a name is meant as an IPv4 address: whether its last part is a number. -/
def endsInNumber (name : List Char) : Bool :=
  match (withoutLastEmpty (Text.splitAt (· == '.') name)).getLast? with
  | none => false
  | some last => (!last.isEmpty && last.all Char.isDigit) || (ipv4Part? last).isSome

/-- The last part of an IPv4 address fills all the bytes that the other parts leave. -/
def parseIpv4 (name : List Char) : Except Invalid Nat :=
  let parts := withoutLastEmpty (Text.splitAt (· == '.') name)
  match parts.mapM ipv4Part? with
  | none => .error .invalidIpv4
  | some numbers =>
    let leading := numbers.dropLast
    let last := numbers.getLast?.getD 0
    let room := Nat.pow 256 (4 - leading.length)
    if 4 < parts.length ∨ leading.any (255 < ·) ∨ room ≤ last then .error .invalidIpv4
    else .ok (leading.zipIdx.foldl (fun value (n, i) ↦ value + n * Nat.pow 256 (3 - i)) last)

def ipv4Text (address : Nat) : List Char :=
  List.intercalate ['.'] ([3, 2, 1, 0].map fun i ↦
    Nat.toDigits 10 (address / Nat.pow 256 i % 256))

/-- A part of an IPv4 address inside an IPv6 address: a decimal byte without leading zeros. -/
def byte? (part : List Char) : Option Nat :=
  if part.isEmpty ∨ (1 < part.length ∧ part.head? = some '0') then none
  else (digits? 10 part).filter (· < 256)

def hextet? (part : List Char) : Option Nat :=
  if part.isEmpty ∨ 4 < part.length then none else digits? 16 part

/-- The sixteen-bit groups of one side of an IPv6 address; `final` allows an IPv4 address as the
last two. -/
def hextets? (final : Bool) : List (List Char) → Option (List Nat)
  | [] => some []
  | [last] =>
    if final && last.contains '.' then
      match (Text.splitAt (· == '.') last).mapM byte? with
      | some [a, b, c, d] => some [a * 256 + b, c * 256 + d]
      | _ => none
    else (hextet? last).map ([·])
  | part :: rest => do
    let first ← hextet? part
    let others ← hextets? final rest
    return first :: others

/-- The text before the first `::` and the text after it. -/
def splitDoubleColon : List Char → List Char × Option (List Char)
  | [] => ([], none)
  | ':' :: ':' :: rest => ([], some rest)
  | c :: rest =>
    let (before, after) := splitDoubleColon rest
    (c :: before, after)

def side? (final : Bool) (text : List Char) : Option (List Nat) :=
  if text.isEmpty then some [] else hextets? final (Text.splitAt (· == ':') text)

def parseIpv6 (text : List Char) : Except Invalid (List Nat) :=
  match splitDoubleColon text with
  | (all, none) =>
    match hextets? true (Text.splitAt (· == ':') all) with
    | some groups => if groups.length = 8 then .ok groups else .error .invalidIpv6
    | none => .error .invalidIpv6
  | (before, some after) =>
    match side? false before, side? true after with
    | some left, some right =>
      if left.length + right.length < 8 then
        .ok (left ++ List.replicate (8 - left.length - right.length) 0 ++ right)
      else .error .invalidIpv6
    | _, _ => .error .invalidIpv6

/-- The length of the zeros that a list starts with. -/
def zeroRun (groups : List Nat) : Nat :=
  (groups.takeWhile (· == 0)).length

/-- Where the longest run of at least two zero groups starts, and its length. -/
def longestZeroRun (groups : List Nat) : Option (Nat × Nat) :=
  ((List.range 8).map fun i ↦ (i, zeroRun (groups.drop i))).foldl (fun best candidate ↦
    if 1 < candidate.2 ∧ (best.map Prod.snd).getD 0 < candidate.2 then some candidate else best)
    none

def hextetsText (groups : List Nat) : List Char :=
  List.intercalate [':'] (groups.map (Nat.toDigits 16))

def ipv6Text (groups : List Nat) : List Char :=
  let body :=
    match longestZeroRun groups with
    | none => hextetsText groups
    | some (start, length) =>
      hextetsText (groups.take start) ++ [':', ':'] ++ hextetsText (groups.drop (start + length))
  '[' :: body ++ [']']

def bracketed (text : List Char) : Except Invalid (List Char) :=
  if text.getLast? = some ']' then (parseIpv6 text.tail.dropLast).map ipv6Text
  else .error .invalidIpv6

/-- The characters that no name of a host may hold. -/
def forbiddenInHost : List Char :=
  ['\x00', '\t', '\n', '\r', ' ', '#', '/', ':', '<', '>', '?', '@', '[', '\\', ']', '^', '|']

def isForbiddenInName (c : Char) : Bool :=
  isControl c || 0x7F < c.toNat || c == '%' || forbiddenInHost.contains c

/-- The written form of the host of a scheme that names hosts on a network. -/
def parseNetworkHost (text : List Char) : Except Invalid (List Char) :=
  if text.head? = some '[' then bracketed text
  else
    let name := (Text.decodeLossy (decode text)).map Char.toLower
    if name.any isForbiddenInName then .error .invalidInternationalDomain
    else if name.isEmpty then .error .emptyHost
    else if endsInNumber name then (parseIpv4 name).map ipv4Text
    else .ok name

/-- The written form of the host of any other scheme. -/
def parsePlainHost (text : List Char) : Except Invalid (List Char) :=
  if text.head? = some '[' then bracketed text
  else if text.any forbiddenInHost.contains then .error .invalidDomain
  else .ok (encode [] text)

end ScriptSense.Uri
