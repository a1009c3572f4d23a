/-!
Quoted text, as descriptions of values show their names.

The text stands between double quotes; a double quote, a backslash, a line
break and a tab inside it are written with a backslash, and every other
character stands for itself.
-/

namespace AssemblyGraph.Quoted

/-- The written form of one character inside the quotes. -/
def escape : Char → List Char
  | '"' => ['\\', '"']
  | '\\' => ['\\', '\\']
  | '\n' => ['\\', 'n']
  | '\t' => ['\\', 't']
  | c => [c]

/-- The written form of a text, with its quotes. -/
def encode (text : String) : String :=
  String.ofList ('"' :: text.toList.flatMap escape ++ ['"'])

end AssemblyGraph.Quoted
