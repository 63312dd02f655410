import DryMake.Path

/-!
Arguments as the system hands them over: bytes, which need not be a text. Where one has to be shown
all the same, each stretch of bytes that is no character, and that no bytes after it could have made
one, stands as a replacement character.
-/

namespace DryMake

structure Argument where
  bytes : List UInt8
deriving DecidableEq, Repr

namespace Argument

def ofText (text : String) : Argument :=
  ⟨text.toUTF8.data.toList⟩

def text? (argument : Argument) : Option String :=
  String.fromUTF8? ⟨argument.bytes.toArray⟩

def path? (argument : Argument) : Option Path :=
  argument.text?.map Path.mk

/-- How many bytes there are in a character that begins with a byte; none if no character does. -/
def width (first : UInt8) : Nat :=
  if first < 0x80 then 1
  else if 0xC2 ≤ first && first < 0xE0 then 2
  else if 0xE0 ≤ first && first < 0xF0 then 3
  else if 0xF0 ≤ first && first < 0xF5 then 4
  else 0

def isContinuation (byte : UInt8) : Bool :=
  0x80 ≤ byte && byte < 0xC0

/-- Whether a byte may be the second one of a character. After some first bytes not all may, so that
no character has two forms and none is a surrogate or too large. -/
def isSecond (first byte : UInt8) : Bool :=
  isContinuation byte &&
    if first = 0xE0 then 0xA0 ≤ byte
    else if first = 0xED then byte < 0xA0
    else if first = 0xF0 then 0x90 ≤ byte
    else if first = 0xF4 then byte < 0x90
    else true

def continuing (first : UInt8) : List UInt8 → List UInt8
  | [] => []
  | second :: rest =>
      if 1 < width first ∧ isSecond first second then
        second :: (rest.take (width first - 2)).takeWhile isContinuation
      else []

def shownCharacters (bytes : List UInt8) : List Char :=
  match bytes with
  | [] => []
  | first :: rest =>
      let more := continuing first rest
      let shown := match (Argument.mk (first :: more)).text? with
        | some text => text.toList
        | none => ['\uFFFD']
      shown ++ shownCharacters (rest.drop more.length)
termination_by bytes.length
decreasing_by
  rw [List.length_drop, List.length_cons]
  exact Nat.lt_succ_of_le (Nat.sub_le _ _)

def shown (argument : Argument) : String :=
  String.ofList (shownCharacters argument.bytes)

end Argument

end DryMake
