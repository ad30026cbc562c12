import AccessRules.Markup.Tag

/-!
# Tokens

A document is a sequence of tokens: texts, literal sections, tags, and asides (comments,
processing instructions and document type declarations). Spaces around a text do not belong to
it. A fault gives the part of the document after the place where it was found.
-/
namespace AccessRules.Markup

/-- One piece of a document. References are not resolved yet. -/
inductive Token where
  /-- Text between markup, without the spaces around it. -/
  | text (content : Text)
  /-- Text of a literal section, where no character is markup. -/
  | literal (content : Text)
  /-- The content of a tag that opens an element. -/
  | opening (content : Text)
  /-- The content of a tag that is a whole element. -/
  | empty (content : Text)
  /-- The name in a tag that closes an element. -/
  | closing (name : Text)
  /-- A piece that is no part of the tree. -/
  | aside
deriving DecidableEq

/-- The content of a tag and what follows it: the tag ends at the first `>` outside of quotes. The
quote that is open, if any, is given. -/
def tagEnd? : (quote? : Option Char) → Text → Option (Text × Text)
  | _, [] => none
  | none, c :: rest =>
    if c = '>' then some ([], rest)
    else
      let quote? := if c = '"' ∨ c = '\'' then some c else none
      (tagEnd? quote? rest).map fun (content, after) => (c :: content, after)
  | some quote, c :: rest =>
    let quote? := if c = quote then none else some quote
    (tagEnd? quote? rest).map fun (content, after) => (c :: content, after)

/-- The content of a document type declaration and what follows it: it ends at the first `>`
that balances no `<` inside. The number of those still open is given. -/
def doctypeEnd? : (nested : Nat) → Text → Option (Text × Text)
  | _, [] => none
  | nested, c :: rest =>
    if c = '>' ∧ nested = 0 then some ([], rest)
    else
      let nested := if c = '<' then nested + 1 else if c = '>' then nested - 1 else nested
      (doctypeEnd? nested rest).map fun (content, after) => (c :: content, after)

/-- What a reading step gives: a token and the rest, or a fault and the rest. -/
abbrev Step := Except (TokenFault × Text) (Token × Text)

/-- Reads a literal section, after its exclamation mark. -/
def readLiteral (text : Text) : Step :=
  match Text.splitAt? "]]>".toList text with
  | none => .error (.unclosedLiteral, [])
  | some (inside, rest) =>
    match Text.after? "[CDATA[".toList inside with
    | none => .error (.unclosedLiteral, rest)
    | some content => .ok (.literal content, rest)

/-- Reads a comment, after its exclamation mark. The two hyphens that open it are not part of
those that close it. -/
def readComment (text : Text) : Step :=
  match Text.splitAt? "-->".toList (text.drop 2) with
  | none => .error (.unclosedComment, [])
  | some (_, rest) =>
    match Text.after? "--".toList text with
    | none => .error (.unclosedComment, rest)
    | some _ => .ok (.aside, rest)

/-- Reads a document type declaration, after its exclamation mark. -/
def readDoctype (text : Text) : Step :=
  match doctypeEnd? 0 text with
  | none => .error (.unclosedDoctype, [])
  | some (inside, rest) =>
    match Text.afterWord? "doctype".toList inside with
    | none => .error (.unclosedDoctype, rest)
    | some name => if name.all isSpace then .error (.namelessDoctype, rest) else .ok (.aside, rest)

/-- Reads a processing instruction, from its question mark on. -/
def readInstruction (text : Text) : Step :=
  match Text.splitAt? "?>".toList text with
  | none => .error (.unclosedInstruction, [])
  | some ([], rest) => .error (.unclosedInstruction, rest)
  | some (_ :: _, rest) => .ok (.aside, rest)

/-- The name in a closing tag: the spaces after it are dropped, unless there is nothing else. -/
def closingName (content : Text) : Text :=
  if content.all isSpace then content else content.dropEndWhile isSpace

/-- Reads a tag, after its angle bracket. -/
def readTag (text : Text) : Step :=
  match tagEnd? none text with
  | none => .error (.unclosedTag, [])
  | some ('/' :: name, rest) => .ok (.closing (closingName name), rest)
  | some (content, rest) =>
    if content.getLast? = some '/' then .ok (.empty content.dropLast, rest)
    else .ok (.opening content, rest)

/-- Reads the next token, after any spaces; none is left at the end of the document. -/
def Token.next? (text : Text) : Except (TokenFault × Text) (Option (Token × Text)) :=
  match text.dropWhile isSpace with
  | [] => .ok none
  | '<' :: '!' :: rest =>
    match rest with
    | '[' :: _ => (readLiteral rest).map some
    | '-' :: _ => (readComment rest).map some
    | 'D' :: _ | 'd' :: _ => (readDoctype rest).map some
    | _ => .error (.unknownDeclaration, '!' :: rest)
  | '<' :: '?' :: rest => (readInstruction ('?' :: rest)).map some
  | '<' :: rest => (readTag rest).map some
  | c :: rest =>
    let written : Text := c :: rest.takeWhile (· != '<')
    .ok (some (.text (written.dropEndWhile isSpace), rest.dropWhile (· != '<')))

end AccessRules.Markup
