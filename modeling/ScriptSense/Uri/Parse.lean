import ScriptSense.Uri.Basic

/-!
# Parsing URIs

A text is read as an absolute URI. Space around it and tabs and line ends inside it do not count.
After the scheme, the form depends on the kind of the scheme: the path of a file, the host of a
network scheme after any number of slashes, or for any other scheme a host after two slashes, a path
after one, and free text otherwise.
-/

namespace ScriptSense.Uri

def isSchemeChar (c : Char) : Bool :=
  c.isAlphanum || c == '+' || c == '-' || c == '.'

/-- The scheme in lower case, and what follows the colon after it. -/
def splitScheme (text : List Char) : Option (String × List Char) :=
  let scheme := text.takeWhile isSchemeChar
  match text.dropWhile isSchemeChar with
  | ':' :: rest =>
    if scheme.head?.any Char.isAlpha then some (String.ofList (lowerCase scheme), rest) else none
  | _ => none

/-- The text without the characters at its ends that do not count. -/
def stripped (text : List Char) : List Char :=
  let isOuter := fun c : Char ↦ decide (c.toNat ≤ 0x20)
  let inner := ((text.dropWhile isOuter).reverse.dropWhile isOuter).reverse
  inner.filter fun c ↦ c != '\t' && c != '\n' && c != '\r'

/-- What comes before a query or fragment, the query, and the fragment. -/
structure Parts where
  body : List Char
  query : Option (List Char)
  fragment : Option (List Char)

def splitParts (kind : SchemeKind) (text : List Char) : Parts :=
  let beforeFragment := text.takeWhile (· != '#')
  let fragment := (text.dropWhile (· != '#')).tail?
  let body := beforeFragment.takeWhile (· != '?')
  let query := (beforeFragment.dropWhile (· != '?')).tail?
  { body := body
    query := query.map (encode (if kind.isSpecial then specialQuerySet else querySet))
    fragment := fragment.map (encode fragmentSet) }

def usualService (scheme : String) : Option Nat :=
  if scheme = "http" ∨ scheme = "ws" then some 80
  else if scheme = "https" ∨ scheme = "wss" then some 443
  else if scheme = "ftp" then some 21
  else none

/-- What comes before the first slash, and the rest with that slash. -/
def splitAuthority (kind : SchemeKind) (text : List Char) : List Char × List Char :=
  (text.takeWhile (!isSlash kind ·), text.dropWhile (!isSlash kind ·))

/-- The user and the host of an authority, which the last at sign separates. -/
def splitUser (authority : List Char) : Option (List Char) × List Char :=
  if authority.contains '@' then
    (some (authority.reverse.dropWhile (· != '@')).tail.reverse,
      (authority.reverse.takeWhile (· != '@')).reverse)
  else (none, authority)

/-- The written form of the user, up to the at sign; a password may follow the first colon. -/
def userText (user : List Char) : List Char :=
  let name := encode userSet (user.takeWhile (· != ':'))
  let password := encode userSet (user.dropWhile (· != ':')).tail
  let both := if password.isEmpty then name else name ++ ':' :: password
  if both.isEmpty then [] else both ++ ['@']

/-- The host of an authority and what follows the colon after it; a colon in brackets does not
count. -/
def splitHost (inside : Bool) : List Char → List Char × Option (List Char)
  | [] => ([], none)
  | c :: rest =>
    if c = ':' ∧ !inside then ([], some rest)
    else
      let (host, service) := splitHost (c == '[' || (inside && c != ']')) rest
      (c :: host, service)

/-- The number of a service, if there is one; the usual one of the scheme is left out. -/
def parseService (scheme : String) (text : Option (List Char)) : Except Invalid (Option Nat) :=
  match text with
  | none | some [] => .ok none
  | some run =>
    if run.all Char.isDigit then
      let number := (digits? 10 run).getD 0
      if 65535 < number then .error .invalidService
      else .ok (if usualService scheme = some number then none else some number)
    else .error .invalidService

/-- Reads an authority; `followed` says whether anything comes after it. -/
def parseAuthority (scheme : String) (kind : SchemeKind) (followed : Bool) (text : List Char) :
    Except Invalid Authority := do
  let (user, hostAndService) := splitUser text
  let (host, service) := splitHost false hostAndService
  if user = some [] ∧ hostAndService.isEmpty ∧ followed then throw .emptyHost
  if host.isEmpty ∧ kind = .network then throw .emptyHost
  let host ← if kind = .network then parseNetworkHost host else parsePlainHost host
  if host.isEmpty ∧ service.isSome then throw .emptyHost
  let service ← parseService scheme service
  let user := (user.map userText).getD []
  if host.isEmpty ∧ !user.isEmpty then throw .emptyHost
  return ⟨user, host, service⟩

/-- A URI with a host, out of what follows the two slashes. -/
def parseWithHost (scheme : String) (kind : SchemeKind) (parts : Parts) (text : List Char) :
    Except Invalid Uri := do
  let (authority, rest) := splitAuthority kind text
  let followed := !rest.isEmpty || parts.query.isSome || parts.fragment.isSome
  let authority ← parseAuthority scheme kind followed authority
  let path :=
    match rest with
    | _ :: rest => buildPath kind ['/'] rest
    | [] => if kind.isSpecial then ['/'] else []
  return ⟨scheme, some authority, path, parts.query, parts.fragment⟩

def localHost : List Char := "localhost".toList

/-- The written form of the host of a file, which is left out when it is this machine. -/
def parseFileHost (text : List Char) : Except Invalid (List Char) :=
  if text.isEmpty then .ok []
  else (parseNetworkHost text).map fun host ↦ if host = localHost then [] else host

def fileUri (parts : Parts) (host path : List Char) : Uri :=
  let host := if beginsWithDrive path then [] else host
  ⟨"file", some ⟨[], host, none⟩, path, parts.query, parts.fragment⟩

/-- A URI of a file, out of what follows the scheme. -/
def parseFile (parts : Parts) : Except Invalid Uri := do
  let isSlash := isSlash .file
  match parts.body with
  | a :: b :: rest =>
    if isSlash a && isSlash b then
      let host := rest.takeWhile (!isSlash ·)
      if isDrive host then return fileUri parts [] (buildPath .file ['/'] rest)
      let host ← parseFileHost host
      let path := rest.dropWhile (!isSlash ·)
      return fileUri parts host (buildPath .file ['/'] path.tail)
    else if isSlash a then return fileUri parts [] (buildPath .file ['/'] (b :: rest))
    else return fileUri parts [] (buildPath .file ['/'] (a :: b :: rest))
  | [a] => return fileUri parts [] (buildPath .file ['/'] (if isSlash a then [] else [a]))
  | [] => return fileUri parts [] ['/']

/-- A URI of a scheme with no rules of its own, out of what follows the scheme. -/
def parseOther (scheme : String) (parts : Parts) : Except Invalid Uri :=
  match parts.body with
  | '/' :: '/' :: rest => parseWithHost scheme .other parts rest
  | '/' :: rest =>
    .ok ⟨scheme, none, buildPath .other ['/'] rest, parts.query, parts.fragment⟩
  | body => .ok ⟨scheme, none, encode [] body, parts.query, parts.fragment⟩

/-- Reads an absolute URI and normalises it. -/
def parse (text : String) : Except Invalid Uri :=
  match splitScheme (stripped text.toList) with
  | none => .error .relative
  | some (scheme, rest) =>
    let kind := schemeKind scheme
    let parts := splitParts kind rest
    match kind with
    | .file => parseFile parts
    | .network => parseWithHost scheme kind parts (parts.body.dropWhile (isSlash kind))
    | .other => parseOther scheme parts

/-- A URI in its normal form, or a complaint that quotes the text. -/
def normalize (text : String) : Except String String :=
  match parse text with
  | .ok uri => .ok uri.text
  | .error reason => .error ("Invalid URI '" ++ text ++ "': " ++ reason.message)

/-- The path of the file that a URI without a host names. -/
def filePath? (uri : Uri) : Option (List UInt8) :=
  let isLocal :=
    match uri.authority with
    | none => true
    | some authority => authority.host.isEmpty || authority.host == localHost
  match uri.path with
  | '/' :: rest =>
    if isLocal then
      let path := '/'.toNat.toUInt8 :: decode rest
      let lastTwo := path.reverse.take 2
      let isDrive :=
        match lastTwo with
        | [mark, letter] =>
          isDriveMark (Char.ofNat mark.toNat) && (Char.ofNat letter.toNat).isAlpha
        | _ => false
      some (if isDrive && 2 < path.length then path ++ ['/'.toNat.toUInt8] else path)
    else none
  | _ => none

end ScriptSense.Uri
