import ReplicatedStore.Url.Host

/-!
# URLs

A URL has a scheme, perhaps an authority, a path, and perhaps a query and a fragment. The path is a
list of segments, or an undivided text where no slash follows the scheme; an undivided path cannot be
extended. Segments are kept in their encoded form.

Main statements:

* `Url.push_plain` — a segment of plain text goes behind the others, encoded.
-/

namespace ReplicatedStore

/-- Who is asked for a resource. -/
structure Authority where
  user : String := ""
  password : Option String := none
  host : Host
  /-- none where it is the one that belongs to the scheme -/
  port : Option Nat := none
  deriving DecidableEq, Repr

/-- The path of a URL. -/
inductive UrlPath
  | segments (list : List String)
  | undivided (text : String)
  deriving DecidableEq, Repr

/-- A uniform resource locator. -/
structure Url where
  scheme : String
  authority : Option Authority := none
  path : UrlPath
  query : Option String := none
  fragment : Option String := none
  deriving DecidableEq, Repr

namespace Url

/-- The schemes that are made for the web, with their ports. -/
def specialPorts : List (String × Option Nat) :=
  [("http", some 80), ("https", some 443), ("ws", some 80), ("wss", some 443), ("ftp", some 21),
    ("file", none)]

/-- Whether a scheme is made for the web. -/
def isSpecial (scheme : String) : Bool := (specialPorts.lookup scheme).isSome

/-- Whether the path of a URL can be extended. -/
def isDivided (u : Url) : Bool :=
  match u.path with
  | .segments _ => true
  | .undivided _ => false

/-! ## Extending the path -/

/-- A text without tabs and line ends, which count for nothing in a URL. -/
def withoutBreaks (text : List Char) : List Char := text.filter fun c => !("\t\n\r".toList.contains c)

/-- The segments with a text put behind them as one segment, in encoded form. Dots that lead nowhere
or upwards are no segment; where they only come about by leaving out breaks, they lead there. A path
of one empty segment is the root, which the first segment takes the place of. -/
def pushSegment (special : Bool) (segments : List String) (text : String) : List String :=
  if text = "." ∨ text = ".." then segments
  else
    let before := if segments = [""] then [] else segments
    let clean := withoutBreaks text.toList
    -- dots that show only now were not seen as such before
    if clean = ['.', '.'] then before.dropLast ++ [""]
    else if clean = ['.'] then before ++ [""]
    else before ++ [Percent.encode (Percent.standsInSegment special) (String.ofList clean)]

/-- The segments without an empty one at the end, unless it is the root. -/
def popEmpty (segments : List String) : List String :=
  if 1 < segments.length && segments.getLast? = some "" then segments.dropLast else segments

/-- The URL with texts put behind its path, each as one segment. -/
def extend (u : Url) (texts : List String) : Url :=
  match u.path with
  | .undivided _ => u
  | .segments list =>
    { u with path := .segments (texts.foldl (pushSegment (isSpecial u.scheme)) (popEmpty list)) }

theorem push_plain (special : Bool) (segments : List String) (text : String)
    (hRoot : segments ≠ [""]) (hDot : text ≠ ".") (hUp : text ≠ "..")
    (hBreaks : withoutBreaks text.toList = text.toList) :
    pushSegment special segments text =
      segments ++ [Percent.encode (Percent.standsInSegment special) text] := by
  -- a text without breaks that is no dots stays none
  have hOne : text.toList ≠ ['.'] := fun h => hDot (by rw [← String.ofList_toList (s := text), h])
  have hTwo : text.toList ≠ ['.', '.'] := fun h =>
    hUp (by rw [← String.ofList_toList (s := text), h])
  simp [pushSegment, hDot, hUp, hRoot, hBreaks, hOne, hTwo]

/-! ## Writing -/

def authorityText (a : Authority) : String :=
  let password := match a.password with
    | some p => ":" ++ p
    | none => ""
  let user := a.user ++ password
  let port := match a.port with
    | some n => ":" ++ toString n
    | none => ""
  (if user = "" then "" else user ++ "@") ++ a.host.text ++ port

/-- What is asked of the host: path and query. -/
def target (u : Url) : String :=
  let path := match u.path with
    | .undivided text => text
    | .segments list => String.join (list.map ("/" ++ ·))
  match u.query with
  | some q => path ++ "?" ++ q
  | none => path

def text (u : Url) : String :=
  let authority := match u.authority with
    | some a => "//" ++ authorityText a
    | none => ""
  let fragment := match u.fragment with
    | some f => "#" ++ f
    | none => ""
  u.scheme ++ ":" ++ authority ++ u.target ++ fragment

end Url

end ReplicatedStore
