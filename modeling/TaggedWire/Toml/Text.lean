import TaggedWire.Text.HexDigit

/-!
Blanks, line ends, strings and keys of TOML text. Every reader takes its part from the front of the
text and returns what follows.
-/
namespace TaggedWire.Toml

def isBlankChar (c : Char) : Bool :=
  c == ' ' || c == '\t'

def skipBlanks (cs : List Char) : List Char :=
  cs.dropWhile isBlankChar

/-- What follows a line end, which is a line feed with or without a carriage return. -/
def newline? : List Char → Option (List Char)
  | '\n' :: rest => some rest
  | '\r' :: '\n' :: rest => some rest
  | _ => none

/-- Characters of a comment: a tab, or anything that is no control character. -/
def isCommentChar (c : Char) : Bool :=
  c == '\t' || (0x20 ≤ c.toNat && c.toNat != 0x7F)

/-- Drops a comment up to the end of its line. -/
def skipComment : List Char → List Char
  | '#' :: rest => rest.dropWhile isCommentChar
  | cs => cs

/-- What follows the end of a statement: blanks, a comment, and a line end or the end of the
text. -/
def lineEnd? (cs : List Char) : Option (List Char) :=
  match skipComment (skipBlanks cs) with
  | [] => some []
  | cs => newline? cs

/-- Drops blanks, comments and line ends, as between the items of an array. A comment has to end in
a line end. -/
def skipLines : Nat → List Char → List Char
  | 0, cs => cs
  | fuel + 1, cs =>
    let cs := skipBlanks cs
    match newline? (skipComment cs) with
    | some rest => skipLines fuel rest
    | none => cs

def isBareKeyChar (c : Char) : Bool :=
  c.isAlphanum || c == '_' || c == '-'

/-- The character of an escape, after its backslash. -/
def escape? : List Char → Option (Char × List Char)
  | 'b' :: rest => some (Char.ofNat 8, rest)
  | 't' :: rest => some ('\t', rest)
  | 'n' :: rest => some ('\n', rest)
  | 'f' :: rest => some (Char.ofNat 12, rest)
  | 'r' :: rest => some ('\r', rest)
  | '"' :: rest => some ('"', rest)
  | '\\' :: rest => some ('\\', rest)
  | 'u' :: rest => (codePoint? 4 rest).map (·, rest.drop 4)
  | 'U' :: rest => (codePoint? 8 rest).map (·, rest.drop 8)
  | _ => none

/-- The rest of a quoted string on one line. -/
def basicTail? : Nat → List Char → List Char → Option (String × List Char)
  | 0, _, _ => none
  | fuel + 1, done, cs =>
    match cs with
    | [] => none
    | '"' :: rest => some (String.ofList done.reverse, rest)
    | '\\' :: rest => do
      let (c, rest) ← escape? rest
      basicTail? fuel (c :: done) rest
    | c :: rest => if isCommentChar c then basicTail? fuel (c :: done) rest else none

/-- The rest of a literal string on one line. -/
def literalTail? (done : List Char) : List Char → Option (String × List Char)
  | [] => none
  | '\x27' :: rest => some (String.ofList done.reverse, rest)
  | c :: rest => if isCommentChar c then literalTail? (c :: done) rest else none

/-- Closes a string of several lines: of up to five quotes the last three end it and the others
belong to it. -/
def closing? (quote : Char) (cs : List Char) : Option (List Char × List Char) :=
  let run := cs.takeWhile (· == quote)
  if run.length < 3 then none
  else
    let extra := min (run.length - 3) 2
    some (List.replicate extra quote, cs.drop (extra + 3))

/-- Drops the blanks and line ends after a backslash at the end of a line. -/
def lineContinuation? (cs : List Char) : Option (List Char) :=
  (newline? (skipBlanks cs)).map (fun rest => rest.dropWhile (fun c => isBlankChar c || c == '\n'
    || c == '\r'))

/-- The rest of a quoted string of several lines. -/
def longBasicTail? : Nat → List Char → List Char → Option (String × List Char)
  | 0, _, _ => none
  | fuel + 1, done, cs =>
    match closing? '"' cs with
    | some (extra, rest) => some (String.ofList (done.reverse ++ extra), rest)
    | none =>
      match newline? cs with
      | some rest => longBasicTail? fuel ('\n' :: done) rest
      | none =>
        match cs with
        | [] => none
        | '\\' :: rest =>
          match lineContinuation? rest with
          | some rest => longBasicTail? fuel done rest
          | none => do
            let (c, rest) ← escape? rest
            longBasicTail? fuel (c :: done) rest
        | c :: rest => if isCommentChar c then longBasicTail? fuel (c :: done) rest else none

/-- The rest of a literal string of several lines. -/
def longLiteralTail? : Nat → List Char → List Char → Option (String × List Char)
  | 0, _, _ => none
  | fuel + 1, done, cs =>
    match closing? '\x27' cs with
    | some (extra, rest) => some (String.ofList (done.reverse ++ extra), rest)
    | none =>
      match newline? cs with
      | some rest => longLiteralTail? fuel ('\n' :: done) rest
      | none =>
        match cs with
        | [] => none
        | c :: rest => if isCommentChar c then longLiteralTail? fuel (c :: done) rest else none

/-- A line end right after the opening quotes does not belong to the string. -/
def skipFirstNewline (cs : List Char) : List Char :=
  (newline? cs).getD cs

/-- A string of any of the four forms. -/
def string? (cs : List Char) : Option (String × List Char) :=
  match cs with
  | '"' :: '"' :: '"' :: rest => longBasicTail? (rest.length + 1) [] (skipFirstNewline rest)
  | '"' :: rest => basicTail? (rest.length + 1) [] rest
  | '\x27' :: '\x27' :: '\x27' :: rest =>
    longLiteralTail? (rest.length + 1) [] (skipFirstNewline rest)
  | '\x27' :: rest => literalTail? [] rest
  | _ => none

/-- One part of a key: bare, or a string on one line. -/
def keyPart? (cs : List Char) : Option (String × List Char) :=
  match cs with
  | '"' :: rest => basicTail? (rest.length + 1) [] rest
  | '\x27' :: rest => literalTail? [] rest
  | cs =>
    match cs.span isBareKeyChar with
    | ([], _) => none
    | (part, rest) => some (String.ofList part, rest)

/-- The parts of a dotted key, with blanks around the dots. -/
def keyParts? : Nat → List Char → Option (List String × List Char)
  | 0, _ => none
  | fuel + 1, cs => do
    let (part, cs) ← keyPart? (skipBlanks cs)
    match skipBlanks cs with
    | '.' :: rest =>
      let (parts, rest) ← keyParts? fuel rest
      return (part :: parts, rest)
    | rest => return ([part], rest)

/-- A key has fewer than this many parts, and values nest less deeply. -/
def depthLimit : Nat := 80

/-- A key as the path to its table and its last part. -/
def key? (cs : List Char) : Option (List String × String × List Char) := do
  let (parts, rest) ← keyParts? (cs.length + 1) cs
  let last ← parts.getLast?
  if parts.length < depthLimit then return (parts.dropLast, last, rest) else none

end TaggedWire.Toml
