/-!
# Quoted texts

A text between double quotes, with a backslash before quotes and backslashes, short forms for the
usual controls, and the number of any other character that does not show.
-/

namespace ReplicatedStore.Quoted

/-- Whether a character does not show in print. -/
def isHidden (c : Char) : Bool :=
  let n := c.toNat
  n < 32 || (127 ≤ n && n < 160) || n = 0xAD || (0x200B ≤ n && n ≤ 0x200F) ||
    (0x2028 ≤ n && n ≤ 0x202E) || (0x2060 ≤ n && n ≤ 0x206F) || (0xE000 ≤ n && n ≤ 0xF8FF) ||
    n = 0xFEFF || (0xFFF0 ≤ n && n ≤ 0xFFFB)

/-- One character in a quoted text. -/
def character (c : Char) : List Char :=
  match c with
  | '"' => ['\\', '"']
  | '\\' => ['\\', '\\']
  | '\n' => ['\\', 'n']
  | '\r' => ['\\', 'r']
  | '\t' => ['\\', 't']
  | '\x00' => ['\\', '0']
  | c =>
    if isHidden c then '\\' :: 'u' :: '\x7b' :: (Nat.toDigits 16 c.toNat ++ ['\x7d']) else [c]

def text (s : String) : String := String.ofList ('"' :: (s.toList.flatMap character ++ ['"']))

end ReplicatedStore.Quoted
