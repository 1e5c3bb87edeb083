import ReplicatedStore.Url.Basic

/-!
# Reading URLs

Blanks around a URL and breaks in it count for nothing. A URL starts with its scheme; a text without
one is relative. A scheme made for the web has a host, whatever slashes stand before it, and takes a
backslash for a slash; a file may do without. Any other scheme has a host only behind two slashes.
Dots in the path that lead nowhere or upwards are resolved.
-/

namespace ReplicatedStore.Url

/-- The text that counts. -/
def trimmed (text : String) : List Char :=
  let isBlank (c : Char) : Bool := c.toNat ≤ 32
  withoutBreaks ((text.toList.dropWhile isBlank).reverse.dropWhile isBlank).reverse

/-- The scheme in lower case, and what stands behind its colon. -/
def cutScheme? (text : List Char) : Option (String × List Char) :=
  let isWord (c : Char) : Bool := c.isAlphanum || c = '+' || c = '-' || c = '.'
  match text.takeWhile isWord, text.dropWhile isWord with
  | c :: word, ':' :: rest =>
    if c.isAlpha then some (String.ofList ((c :: word).map Char.toLower), rest) else none
  | _, _ => none

/-- Whether a character is a slash for a scheme. -/
def isSlash (special : Bool) (c : Char) : Bool := c = '/' || (special && c = '\\')

/-- Whether a character ends the part before the path. -/
def endsAuthority (special : Bool) (c : Char) : Bool := isSlash special c || c = '?' || c = '#'

/-- The texts before and behind the last of a character. -/
def cutAtLast (sep : Char) (text : List Char) : Option (List Char × List Char) :=
  if text.contains sep then
    let after := (text.reverse.takeWhile (· ≠ sep)).reverse
    some (text.take (text.length - after.length - 1), after)
  else none

/-- Path, query and fragment of a text that starts with the path. -/
def cutTail (text : List Char) : List Char × Option (List Char) × Option (List Char) :=
  let fragment := match text.dropWhile (· ≠ '#') with
    | [] => none
    | _ :: rest => some rest
  let text := text.takeWhile (· ≠ '#')
  let query := match text.dropWhile (· ≠ '?') with
    | [] => none
    | _ :: rest => some rest
  (text.takeWhile (· ≠ '?'), query, fragment)

/-- A segment with encoded dots as dots. -/
def dots (segment : List Char) : List Char :=
  match segment with
  | '%' :: '2' :: 'e' :: rest | '%' :: '2' :: 'E' :: rest => '.' :: dots rest
  | c :: rest => c :: dots rest
  | [] => []

/-- The segments of a path from its pieces, those before it in reverse. -/
def resolve (before : List String) : List (List Char) → List String
  | [] => before.reverse
  | piece :: rest =>
    let isLast := rest.isEmpty
    if dots piece = ['.', '.'] then
      -- dots at the end lead to a directory, which ends with a slash
      if isLast then ("" :: before.drop 1).reverse else resolve (before.drop 1) rest
    else if dots piece = ['.'] then
      if isLast then ("" :: before).reverse else resolve before rest
    else
      resolve (Percent.encode Percent.standsInPath (String.ofList piece) :: before) rest

/-- The segments of a path that stands behind a slash. -/
def segmentsOf (special : Bool) (path : List Char) : List String :=
  resolve [] (Text.pieces '/' (path.map fun c => if isSlash special c then '/' else c))

/-- A URL from its first parts and the text behind them. -/
def withTail (scheme : String) (authority : Option Authority) (text : List Char) : Url :=
  let special := isSpecial scheme
  let (path, query, fragment) := cutTail text
  { scheme, authority
    path := match path with
      | [] => if special then .segments [""] else if authority.isSome then .segments [] else .undivided ""
      | c :: rest =>
        if isSlash special c then .segments (segmentsOf special rest)
        else if special || authority.isSome then .segments (segmentsOf special path)
        else .undivided (Percent.encode Percent.isPrintable (String.ofList path))
    query := query.map fun q => Percent.encode (Percent.standsInQuery special) (String.ofList q)
    fragment := fragment.map fun f => Percent.encode Percent.standsInFragment (String.ofList f) }

/-- A port behind its colon; none is the one that belongs to the scheme. -/
def port (scheme : String) (digits : List Char) : Except UrlError (Option Nat) :=
  if digits = [] then .ok none
  else
    match Host.number? 10 digits with
    | none => .error .invalidPort
    | some n =>
      if 65535 < n then .error .invalidPort
      else .ok (if specialPorts.lookup scheme = some (some n) then none else some n)

/-- The host and what stands behind it, which is empty or starts with a colon. -/
def cutHost (bracket : Bool) : List Char → List Char × List Char
  | [] => ([], [])
  | c :: rest =>
    if c = ':' && !bracket then ([], c :: rest)
    else
      -- colons between brackets belong to the address there
      let inside := if c = '[' then true else if c = ']' then false else bracket
      let (host, after) := cutHost inside rest
      (c :: host, after)

/-- User and password before an at sign. -/
def credentials (text : List Char) : String × Option String :=
  let write (t : List Char) : String := Percent.encode Percent.standsInUser (String.ofList t)
  match text.dropWhile (· ≠ ':') with
  | _ :: c :: password => (write (text.takeWhile (· ≠ ':')), some (write (c :: password)))
  | _ => (write (text.takeWhile (· ≠ ':')), none)

/-- A URL from what stands behind its scheme and slashes. -/
def withAuthority (scheme : String) (text : List Char) : Except UrlError Url := do
  let special := isSpecial scheme
  let front := text.takeWhile fun c => !endsAuthority special c
  let tail := text.dropWhile fun c => !endsAuthority special c
  let (userPart, hostPart) := (cutAtLast '@' front).getD ([], front)
  -- an at sign alone names nobody and nothing
  if front.contains '@' && userPart = [] && hostPart = [] && tail ≠ [] then throw .emptyHost
  let (user, password) := credentials userPart
  let (hostText, portText) := cutHost false hostPart
  if special && hostText = [] then throw .emptyHost
  let host ← if special then Host.parse hostText else Host.parseOther hostText
  -- port, user and password need a host
  if hostText = [] && portText ≠ [] then throw .emptyHost
  let port ← port scheme ((portText.drop 1).takeWhile (· ≠ '\\'))
  if hostText = [] && (user ≠ "" || password.isSome) then throw .emptyHost
  return withTail scheme (some { user, password, host, port })
    ((portText.drop 1).dropWhile (· ≠ '\\') ++ tail)

/-- The URL of a file from what stands behind its scheme. -/
def ofFile (text : List Char) : Except UrlError Url :=
  let nowhere : Option Authority := some { host := .domain "" }
  match text with
  | a :: b :: rest =>
    if isSlash true a && isSlash true b then
      let hostText := rest.takeWhile fun c => !endsAuthority true c
      let tail := rest.dropWhile fun c => !endsAuthority true c
      match hostText with
      | [] => .ok (withTail "file" nowhere tail)
      | [c, mark] =>
        -- a drive letter in place of a host begins the path
        if c.isAlpha && (mark = ':' || mark = '|') then .ok (withTail "file" nowhere ('/' :: rest))
        else (Host.parse hostText).map fun host => withTail "file" (some { host }) tail
      | _ =>
        (Host.parse hostText).map fun host =>
          -- a file on this host needs no host
          if host = .domain "localhost" then withTail "file" nowhere tail
          else withTail "file" (some { host }) tail
    else .ok (withTail "file" nowhere text)
  | _ => .ok (withTail "file" nowhere text)

/-- The URL that a text is. -/
def parse (text : String) : Except UrlError Url :=
  match cutScheme? (trimmed text) with
  | none => .error .relativeWithoutBase
  | some (scheme, rest) =>
    if scheme = "file" then ofFile rest
    else if isSpecial scheme then withAuthority scheme (rest.dropWhile (isSlash true))
    else
      match rest with
      | '/' :: '/' :: rest => withAuthority scheme rest
      | _ => .ok (withTail scheme none rest)

end ReplicatedStore.Url
