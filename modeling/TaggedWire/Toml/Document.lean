import TaggedWire.Toml.Number

/-!
Whole TOML documents: values, statements, and the tables that the statements make.
-/
namespace TaggedWire.Toml

def word? (w : String) (cs : List Char) : Option (List Char) :=
  if w.toList.isPrefixOf cs then some (cs.drop w.length) else none

/-- The rest of an array after its bracket. A comma may follow the last item. -/
def arrayTail? (item : List Char → Option (Item × List Char)) :
    Nat → List Item → List Char → Option (List Item × List Char)
  | 0, _, _ => none
  | fuel + 1, done, cs =>
    match skipLines cs.length cs with
    | ']' :: rest => some (done.reverse, rest)
    | cs => do
      let (a, cs) ← item cs
      match skipLines cs.length cs with
      | ',' :: rest => arrayTail? item fuel (a :: done) rest
      | ']' :: rest => return ((a :: done).reverse, rest)
      | _ => none

/-- A key, an equals sign and a value. -/
def pair? (item : List Char → Option (Item × List Char)) (cs : List Char) :
    Option (List String × String × Item × List Char) := do
  let (path, key, cs) ← key? cs
  let cs ← char? '=' (skipBlanks cs)
  let (a, rest) ← item (skipBlanks cs)
  return (path, key, a, rest)

/-- The rest of an inline table after its brace. It stands on one line, and no comma follows the
last pair. -/
def inlineTail? (item : List Char → Option (Item × List Char)) :
    Nat → Entries → List Char → Option (Entries × List Char)
  | 0, _, _ => none
  | fuel + 1, es, cs => do
    let (path, key, a, cs) ← pair? item (skipBlanks cs)
    let es ← es.addPair path key a
    match skipBlanks cs with
    | ',' :: rest => inlineTail? item fuel es rest
    | '\x7d' :: rest => return (es, rest)
    | _ => none

def inline? (item : List Char → Option (Item × List Char)) (cs : List Char) :
    Option (Item × List Char) :=
  match skipBlanks cs with
  | '\x7d' :: rest => some (.inline [], rest)
  | cs => (inlineTail? item cs.length [] cs).map (fun r => (.inline r.1, r.2))

/-- A value that nests less deeply than `depth`. -/
def item? (depth : Nat) (cs : List Char) : Option (Item × List Char) :=
  match cs with
  | [] => none
  | c :: rest =>
    if c = '"' ∨ c = '\x27' then (string? cs).map (fun r => (.string r.1, r.2))
    else if c = 't' then (word? "true" cs).map (fun rest => (.bool true, rest))
    else if c = 'f' then (word? "false" cs).map (fun rest => (.bool false, rest))
    else if c = '[' then
      match depth with
      | 0 => none
      | depth + 1 =>
        (arrayTail? (item? depth) (rest.length + 1) [] rest).map (fun r => (.array r.1, r.2))
    else if c = '\x7b' then
      match depth with
      | 0 => none
      | depth + 1 => inline? (item? depth) rest
    else scalarNumber? cs

/-- A header between single or double brackets. -/
def header? (cs : List Char) : Option (Line × List Char) :=
  match cs with
  | '[' :: '[' :: rest => do
    let (path, key, cs) ← key? rest
    let cs ← char? ']' (skipBlanks cs)
    return (.rowHeader path key, ← char? ']' cs)
  | '[' :: rest => do
    let (path, key, cs) ← key? rest
    return (.header path key, ← char? ']' (skipBlanks cs))
  | _ => none

/-- The statements of a text, one to a line. -/
def lines? : Nat → List Line → List Char → Option (List Line)
  | 0, _, _ => none
  | fuel + 1, done, cs =>
    match skipBlanks cs with
    | [] => some done.reverse
    | '#' :: rest => (lineEnd? ('#' :: rest)).bind (lines? fuel done)
    | '\n' :: rest => lines? fuel done rest
    | '\r' :: rest => (newline? ('\r' :: rest)).bind (lines? fuel done)
    | '[' :: rest => do
      let (line, cs) ← header? ('[' :: rest)
      lines? fuel (line :: done) (← lineEnd? cs)
    | cs => do
      let (path, key, a, cs) ← pair? (item? (depthLimit - 1)) cs
      lines? fuel (.pair path key a :: done) (← lineEnd? cs)

/-- The entries of the outermost table. A byte-order mark in front is ignored. -/
def parse? (text : String) : Option Entries := do
  let cs := match text.toList with
    | '\uFEFF' :: rest => rest
    | cs => cs
  assemble (← lines? (cs.length + 1) [] cs)

end TaggedWire.Toml
