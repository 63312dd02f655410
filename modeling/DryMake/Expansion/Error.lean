import DryMake.Diagnostic

/-!
The ways in which an expansion fails. Each names the text in which it was met: the text that was to
be expanded, or the value of a macro that it refers to, directly or through others.
-/

namespace DryMake

inductive ExpansionError where
  | strayDollar (found : Char) (input : String)
  | unterminated (input : String)
  | recursive (name : String)
deriving DecidableEq, Repr

namespace ExpansionError

def message : ExpansionError → String
  | strayDollar found input =>
      "unexpected `" ++ found.toString ++ "` after `$` in `" ++ input ++ "`"
  | unterminated input => "unterminated expression in `" ++ input ++ "`"
  | recursive name => "macro `" ++ name ++ "` references itself"

def diagnostic : ExpansionError → Diagnostic
  | strayDollar .. =>
      .withHelp "nmake::expand::stray_dollar" "write `$$` for a literal dollar sign"
  | unterminated .. => .plain "nmake::expand::unterminated"
  | recursive .. => .plain "nmake::expand::recursive"

end ExpansionError

end DryMake
