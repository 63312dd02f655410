import DryMake.Text.Printable

/-!
Quoted text: the written form of a list of strings in which every element can be told from the
next. An element stands between double quotes, with the quote, the backslash and whatever is not
printable written as escapes; elements stand in brackets with a comma and a space between them.
-/

namespace DryMake.Text

def quoteChar (c : Char) : String :=
  match c with
  | '"' => "\\\""
  | '\\' => "\\\\"
  | '\n' => "\\n"
  | '\r' => "\\r"
  | '\t' => "\\t"
  | '\x00' => "\\0"
  | _ =>
      if isPrintable c then c.toString
      else "\\u\x7b" ++ String.ofList (Nat.toDigits 16 c.toNat) ++ "\x7d"

def quote (text : String) : String :=
  "\"" ++ String.join (text.toList.map quoteChar) ++ "\""

def quoteList (texts : List String) : String :=
  "[" ++ ", ".intercalate (texts.map quote) ++ "]"

end DryMake.Text
