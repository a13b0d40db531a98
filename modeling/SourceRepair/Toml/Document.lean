import SourceRepair.Text.Utf8
import SourceRepair.Toml.Scalar
import SourceRepair.Toml.Tables

/-!
# TOML documents

A document is a list of lines: each sets a key, opens a table, or is empty but for a comment. The
reader gives up at the first line that is not of this kind or breaks a rule about tables. Keys with
very many parts and values that are nested very deeply are refused.
-/

namespace SourceRepair.Toml

/-- The number of parts that a key may have, and the number of brackets that may be open at once in
a value. -/
def depthLimit : Nat := 80

/-! ## Blanks, comments and keys -/

/-- The text without the blanks in front of it. -/
def skipBlanks (text : List Char) : List Char :=
  text.dropWhile fun c => c == ' ' || c == '\t'

/-- Skips blanks, line breaks and comments. -/
def skipFiller (inComment : Bool) : List Char → Option (List Char)
  | [] => some []
  | '\n' :: rest => skipFiller false rest
  | '\r' :: '\n' :: rest => skipFiller false rest
  | c :: rest =>
    if inComment then if isPlain c then skipFiller true rest else none
    else if c = ' ' ∨ c = '\t' then skipFiller false rest
    else if c = '#' then skipFiller true rest
    else some (c :: rest)

/-- Whether a text goes on with nothing but blanks and a comment up to the end of the line. -/
def endsLine (text : List Char) : Bool :=
  match skipBlanks text with
  | [] => true
  | c :: rest => c == '\n' || c == '#' || (c == '\r' && rest.head? == some '\n')

/-- Reads one part of a key. -/
def readPart : List Char → Option (String × List Char)
  | '"' :: rest => (readBasic rest).map fun (key, rest) => (String.ofList key, rest)
  | '\'' :: rest => (readLiteral rest).map fun (key, rest) => (String.ofList key, rest)
  | text => Setting.readKey? text

/-- Reads the parts of a key: those before the last, and the last one. -/
def readParts (text : List Char) : Option ((List String × String) × List Char) :=
  match readPart text with
  | none => none
  | some (part, rest) =>
    match skipBlanks rest with
    | '.' :: more =>
      let more := skipBlanks more
      if _ : more.length < text.length then
        (readParts more).map fun ((before, last), rest) => ((part :: before, last), rest)
      else none
    | rest => some (([], part), rest)
termination_by text.length

/-- Reads a key, which may not have too many parts. -/
def readKey (text : List Char) : Option ((List String × String) × List Char) :=
  (readParts text).filter fun ((before, _), _) => before.length < depthLimit

/-! ## Values -/

/-- A character of a word. -/
def isWordChar (c : Char) : Bool :=
  Setting.isKeyChar c || c == '+' || c == '.' || c == ':'

/-- Reads a word; a date and the time after it, set apart by a blank, are one word. -/
def readWord (text : List Char) : Option (Setting × List Char) :=
  let head := text.takeWhile isWordChar
  let tail := text.dropWhile isWordChar
  let (word, rest) :=
    match tail with
    | ' ' :: c :: more =>
      if (date? head).isSome && Text.isDecimal c then
        (head ++ ' ' :: c :: more.takeWhile isWordChar, more.dropWhile isWordChar)
      else (head, tail)
    | _ => (head, tail)
  (word? word).map (·, rest)

mutual

/-- Reads a value, in which at most `depth` brackets may be open at once. -/
def readValue (depth : Nat) (text : List Char) : Option (Setting × List Char) :=
  match text with
  | [] => none
  | c :: rest =>
    if c = '[' then
      if depth = 0 then none
      else (readItems (depth - 1) rest).map fun (items, rest) => (.array items, rest)
    else if c = '{' then
      if depth = 0 then none
      else
        (readInline (depth - 1) [] rest).map fun (members, rest) =>
          (.table (Node.membersToSettings members), rest)
    else if c = '"' ∨ c = '\'' then
      (readString (c :: rest)).map fun (value, rest) => (.string (String.ofList value), rest)
    else readWord (c :: rest)
termination_by 3 * text.length
decreasing_by
  all_goals
    simp only [List.length_cons]
    omega

/-- Reads the values of an array up to its closing bracket; a comma may follow the last one. -/
def readItems (depth : Nat) (text : List Char) : Option (List Setting × List Char) :=
  match skipFiller false text with
  | none => none
  | some (']' :: rest) => some ([], rest)
  | some start =>
    if _ : start.length ≤ text.length then
      match readItem depth start with
      | none => none
      | some (item, rest, false) => some ([item], rest)
      | some (item, rest, true) =>
        if _ : rest.length < text.length then
          (readItems depth rest).map fun (items, rest) => (item :: items, rest)
        else none
    else none
termination_by 3 * text.length + 2
decreasing_by all_goals omega

/-- Reads a value of an array and the comma or bracket after it; the result says whether that was a
comma. -/
def readItem (depth : Nat) (text : List Char) : Option (Setting × List Char × Bool) :=
  match readValue depth text with
  | none => none
  | some (item, rest) =>
    match skipFiller false rest with
    | some (',' :: rest) => some (item, rest, true)
    | some (']' :: rest) => some (item, rest, false)
    | _ => none
termination_by 3 * text.length + 1
decreasing_by all_goals omega

/-- Reads the members of a table inside a value, up to its closing brace; a comma may follow the
last one. -/
def readInline (depth : Nat) (members : Members) (text : List Char) :
    Option (Members × List Char) :=
  match skipFiller false text with
  | none => none
  | some ('}' :: rest) => some (members, rest)
  | some start =>
    match readKey start with
    | some ((before, last), '=' :: rest) =>
      if _ : (skipBlanks rest).length < text.length then
        match readValue depth (skipBlanks rest) with
        | none => none
        | some (value, rest) =>
          match members.insert value last before, skipFiller false rest with
          | some members, some ('}' :: rest) => some (members, rest)
          | some members, some (',' :: rest) =>
            if _ : rest.length < text.length then readInline depth members rest else none
          | _, _ => none
      else none
    | _ => none
termination_by 3 * text.length + 1
decreasing_by all_goals omega

end

/-! ## Lines -/

/-- Reads the keys of a header and the brackets that close it. -/
def readHeader (close : List Char) (text : List Char) :
    Option ((List String × String) × List Char) :=
  match readKey (skipBlanks text) with
  | none => none
  | some (key, rest) => if close.isPrefixOf rest then some (key, rest.drop close.length) else none

/-- Reads a line that is not empty. The result is the table so far, the keys of the header that the
next lines belong to, and the text after the line. -/
def readLine (members : Members) (header : List String) :
    List Char → Option (Members × List String × List Char)
  | '[' :: '[' :: text => do
    let ((before, last), rest) ← readHeader [']', ']'] text
    return (← members.update (Members.openNext last) before, before ++ [last], rest)
  | '[' :: text => do
    let ((before, last), rest) ← readHeader [']'] text
    return (← members.update (Members.openTable last) before, before ++ [last], rest)
  | text =>
    match readKey text with
    | some ((before, last), '=' :: rest) => do
      let (value, rest) ← readValue depthLimit (skipBlanks rest)
      return (← members.update (Members.insert value last before) header, header, rest)
    | _ => none

/-- Reads lines to the end of the text. -/
def readTables (members : Members) (header : List String) (text : List Char) : Option Members :=
  match skipFiller false text with
  | none => none
  | some [] => some members
  | some start =>
    match readLine members header start with
    | none => none
    | some (members, header, rest) =>
      if endsLine rest then
        if _ : rest.length < text.length then readTables members header rest else none
      else none
termination_by text.length

/-- The settings of a document; a byte order mark in front does not count. -/
def Document.ofText? (text : String) : Option (List (String × Setting)) :=
  (readTables [] [] (Text.dropOrderMark text.toList)).map Node.membersToSettings

end SourceRepair.Toml
