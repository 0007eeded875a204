import TaggedWire.Text.Printable

/-!
Text between double quotes for diagnostics: what would not show is escaped.
-/
namespace TaggedWire

/-- The code point in the form `\u{...}`. -/
def escapedCodePoint (c : Char) : List Char :=
  "\\u\x7b".toList ++ Nat.toDigits 16 c.toNat ++ ['\x7d']

/-- A character between quotes. Marks that attach to the character before them are escaped too. -/
def quotedChar (c : Char) : List Char :=
  match c with
  | '\x00' => ['\\', '0']
  | '\t' => ['\\', 't']
  | '\r' => ['\\', 'r']
  | '\n' => ['\\', 'n']
  | '\\' => ['\\', '\\']
  | '"' => ['\\', '"']
  | _ => if isExtender c || !isPrintable c then escapedCodePoint c else [c]

def quoted (s : String) : String :=
  String.ofList ('"' :: (s.toList.flatMap quotedChar ++ ['"']))

end TaggedWire
