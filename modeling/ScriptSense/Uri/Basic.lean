import ScriptSense.Uri.Host

/-!
# URIs

A URI in its normal form: the scheme in lower case, the host without what goes without saying, the
path without dot segments, and all that a part cannot hold percent-encoded.

A path is built segment by segment. A segment of one dot adds nothing, and one of two dots takes
away the segment before it, however the dots are encoded. A drive letter at the start of the path of
a file is never taken away.
-/

namespace ScriptSense

namespace Uri

/-- What a scheme says about the form of its URIs. -/
inductive SchemeKind
  | file
  | network
  | other
  deriving DecidableEq, Repr, Inhabited

/-- The schemes of the web have a host, and take a backslash for a slash. -/
def SchemeKind.isSpecial : SchemeKind → Bool
  | .file | .network => true
  | .other => false

def schemeKind (scheme : String) : SchemeKind :=
  if scheme = "file" then .file
  else if ["http", "https", "ws", "wss", "ftp"].contains scheme then .network
  else .other

def isSlash (kind : SchemeKind) (c : Char) : Bool :=
  c == '/' || (kind.isSpecial && c == '\\')

def dot : List (List Char) := [['.'], ['%', '2', 'e']]

def lowerCase (segment : List Char) : List Char :=
  segment.map Char.toLower

def isSingleDot (segment : List Char) : Bool :=
  dot.contains (lowerCase segment)

def isDoubleDot (segment : List Char) : Bool :=
  dot.any fun a ↦ dot.any fun b ↦ lowerCase segment == a ++ b

def isDriveMark (c : Char) : Bool :=
  c == ':' || c == '|'

/-- A letter and a colon, or a bar in its place. -/
def isDrive : List Char → Bool
  | [letter, mark] => letter.isAlpha && isDriveMark mark
  | _ => false

/-- A drive letter that is followed by the end of the segment or of the path. -/
def startsWithDrive : List Char → Bool
  | letter :: mark :: rest =>
    letter.isAlpha && isDriveMark mark && rest.head?.all ['/', '\\', '?', '#'].contains
  | _ => false

def isNormalDrive : List Char → Bool
  | [letter, ':'] => letter.isAlpha
  | _ => false

/-- What precedes the last slash of a path, with that slash. -/
def throughLastSlash (path : List Char) : List Char :=
  (path.reverse.dropWhile (· != '/')).reverse

/-- What follows the last slash of a path. -/
def afterLastSlash (path : List Char) : List Char :=
  (path.reverse.takeWhile (· != '/')).reverse

/-- Takes away the last segment of a path. -/
def dropSegment (kind : SchemeKind) (path : List Char) : List Char :=
  if kind = .file ∧ (isNormalDrive path ∨ isNormalDrive (afterLastSlash path)) then path
  else throughLastSlash path

/-- A path without its last slash, unless that slash is the first one or belongs to a drive. -/
def withoutLastSlash (path : List Char) : List Char :=
  if path.getLast? = some '/' ∧ path.dropLast.contains '/' ∧
      !startsWithDrive (afterLastSlash path.dropLast ++ ['/']) then
    path.dropLast
  else path

def endWithSlash (path : List Char) : List Char :=
  if path.getLast? = some '/' then path else path ++ ['/']

/-- Appends an encoded segment, which a slash follows or does not. -/
def addSegment (kind : SchemeKind) (path segment : List Char) (slash : Bool) : List Char :=
  let tail := if slash then ['/'] else []
  if isDoubleDot segment then
    let shorter := dropSegment kind (withoutLastSlash path)
    if slash then endWithSlash shorter else shorter
  else if isSingleDot segment then endWithSlash path
  else if kind = .file ∧ path = ['/'] ∧ isDrive segment then
    path ++ segment.take 1 ++ ':' :: tail
  else path ++ segment ++ tail

def addSegments (kind : SchemeKind) (path : List Char) : List (List Char) → List Char
  | [] => path
  | [last] => addSegment kind path (encode pathSet last) false
  | segment :: rest => addSegments kind (addSegment kind path (encode pathSet segment) true) rest

/-- The path that `text` adds to `path`. -/
def buildPath (kind : SchemeKind) (path text : List Char) : List Char :=
  let built := addSegments kind path (Text.splitAt (isSlash kind) text)
  if kind = .file then '/' :: built.dropWhile (· == '/') else built

/-- A path that begins with a drive letter, which leaves no room for a host. -/
def beginsWithDrive (path : List Char) : Bool :=
  match path with
  | '/' :: rest => isNormalDrive (rest.takeWhile (· != '/'))
  | _ => false

end Uri

/-- Who is asked for a resource: user and host in their written form, and the number of the service
if it is not the usual one of the scheme. -/
structure Uri.Authority where
  user : List Char
  host : List Char
  service : Option Nat
  deriving DecidableEq, Repr, Inhabited

structure Uri where
  scheme : String
  authority : Option Uri.Authority
  path : List Char
  query : Option (List Char)
  fragment : Option (List Char)
  deriving DecidableEq, Repr, Inhabited

namespace Uri

def Authority.text (authority : Authority) : List Char :=
  let service :=
    match authority.service with
    | some number => ':' :: Nat.toDigits 10 number
    | none => []
  authority.user ++ authority.host ++ service

/-- A part with the mark that comes before it, or nothing. -/
def marked (mark : Char) (part : Option (List Char)) : List Char :=
  match part with
  | some text => mark :: text
  | none => []

/-- The written form. Without an authority, a path that starts with two slashes is set off by a
dot. -/
def text (uri : Uri) : String :=
  let hierarchy :=
    match uri.authority with
    | some authority => '/' :: '/' :: authority.text ++ uri.path
    | none => if ['/', '/'].isPrefixOf uri.path then '/' :: '.' :: uri.path else uri.path
  uri.scheme ++
    String.ofList (':' :: hierarchy ++ marked '?' uri.query ++ marked '#' uri.fragment)

end Uri

end ScriptSense
