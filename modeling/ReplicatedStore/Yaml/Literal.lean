import ReplicatedStore.Yaml.Node

/-!
# Literals

What the text of a scalar means: nothing, a truth value, a whole number or another number. Digits
behind a leading zero are no number, and numbers may be hexadecimal, octal or binary.
-/

namespace ReplicatedStore.Yaml

/-- The common part of the standard tags. -/
def tagStem : List Char := "tag:yaml.org,2002:".toList

/-- A standard tag. -/
def standardTag (name : String) : List Char := tagStem ++ name.toList

/-- Whether a scalar is to be read as a literal that a standard tag may mark: it is plain, or it is a
literal block with that tag. -/
def isLiteral (name : String) (tag : Option (List Char)) (style : Style) : Bool :=
  style = .plain || (style = .literal && tag = some (standardTag name))

def isNull (text : List Char) : Bool :=
  text = "null".toList || text = "Null".toList || text = "NULL".toList || text = "~".toList

/-- The truth value that a text means. -/
def flag? (text : List Char) : Option Bool :=
  if text = "true".toList || text = "True".toList || text = "TRUE".toList then some true
  else if text = "false".toList || text = "False".toList || text = "FALSE".toList then some false
  else none

def digits? (radix : Nat) (text : List Char) : Option Nat :=
  if text = [] then none
  else
    text.foldlM (fun n c => do
      let d ← hexDigit? c
      if d < radix then some (n * radix + d) else none) 0

/-- A text without a sign in front. -/
def withoutSign : List Char → List Char
  | '+' :: rest | '-' :: rest => rest
  | text => text

/-- Whether digits follow a leading zero. -/
def hasLeadingZero (text : List Char) : Bool :=
  match withoutSign text with
  | '0' :: c :: rest => (c :: rest).all Char.isDigit
  | _ => false

/-- Digits behind the mark of their radix. -/
def marked? (text : List Char) : Option Nat :=
  match text with
  | '0' :: 'x' :: rest => digits? 16 rest
  | '0' :: 'o' :: rest => digits? 8 rest
  | '0' :: 'b' :: rest => digits? 2 rest
  | _ => none

/-- The whole number from zero on that a text means, below a limit. -/
def natural? (limit : Nat) (text : List Char) : Option Nat :=
  let bare := match text with
    | '+' :: rest => rest
    | text => text
  match (marked? bare).filter (· < limit) with
  | some n => some n
  | none => if hasLeadingZero text then none else (digits? 10 bare).filter (· < limit)

/-- The whole number below zero, or a zero behind a minus sign, that a text means, down to a limit. -/
def negative? (limit : Nat) (text : List Char) : Option Nat :=
  match text with
  | '-' :: rest =>
    match (marked? rest).filter (· ≤ limit) with
    | some n => some n
    | none => if hasLeadingZero text then none else (digits? 10 rest).filter (· ≤ limit)
  | _ => none

/-- Digits, a point and digits, and an exponent: the digits without the point, and the exponent. -/
def decimal? (text : List Char) : Option (List Char × Int) :=
  let whole := text.takeWhile Char.isDigit
  let rest := text.dropWhile Char.isDigit
  let (part, rest) := match rest with
    | '.' :: rest => (rest.takeWhile Char.isDigit, rest.dropWhile Char.isDigit)
    | rest => ([], rest)
  if whole ++ part = [] then none
  else
    match rest with
    | [] => some (whole ++ part, -part.length)
    | e :: rest =>
      if e = 'e' || e = 'E' then
        match digits? 10 (withoutSign rest) with
        | some n =>
          some (whole ++ part, (if rest.head? = some '-' then -(n : Int) else n) - part.length)
        | none => none
      else none

/-- Whether a decimal number is within the range of numbers of 64 bits. -/
def isFinite (digits : List Char) (exponent : Int) : Bool :=
  let digits := digits.dropWhile (· = '0')
  let n := (digits? 10 digits).getD 0
  -- the range ends between 10^308 and 10^309, so most numbers are told by their length
  if n = 0 || digits.length + exponent < 309 then true
  else if 310 < digits.length + exponent then false
  else
    -- from half a step above the greatest number on, the nearest one is infinite
    let limit := 1 <<< 1024 - 1 <<< 970
    if 0 ≤ exponent then n * Nat.pow 10 exponent.toNat < limit
    else n < limit * Nat.pow 10 (-exponent).toNat

/-- Whether a text means a number that need not be whole. -/
def isFraction (text : List Char) : Bool :=
  let named (names : List String) : Bool := names.any fun s => text = s.toList
  let doubled := match text with
    | '+' :: '+' :: _ | '+' :: '-' :: _ => true
    | _ => false
  if named [".inf", ".Inf", ".INF", "+.inf", "+.Inf", "+.INF", "-.inf", "-.Inf", "-.INF", ".nan",
      ".NaN", ".NAN"] then true
  else if doubled then false
  else
    match decimal? (withoutSign text) with
    | some (digits, exponent) => isFinite digits exponent
    | none => false

end ReplicatedStore.Yaml
