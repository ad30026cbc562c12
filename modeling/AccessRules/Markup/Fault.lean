import AccessRules.Text.Basic

/-!
# Refused documents

Every reason for which a document is refused, with its message. A document is malformed if it is
no tree of elements, and unexpected if it is more than one element. Positions count bytes.
-/
namespace AccessRules.Markup

/-- Why a reference in a text or a value is refused. -/
inductive ReferenceFault where
  /-- No semicolon follows the ampersand at `start` before the next ampersand or `stop`. -/
  | unterminated (start stop : Nat)
  /-- The name from `start` to `stop` is no predefined entity. -/
  | unknownEntity (start stop : Nat) (name : Text)
  /-- A character reference has a sign. -/
  | sign
  /-- A character reference has no digits. -/
  | noDigits
  /-- A character reference has something else than digits. -/
  | invalidDigit
  /-- A character reference is too large for 32 bits. -/
  | tooLarge
  /-- A character reference to the null character. -/
  | null
  /-- A number that is no character. -/
  | noCharacter (code : Nat)
deriving DecidableEq

/-- Why the attributes of a tag are refused. Positions start at the name of the element. -/
inductive AttributeFault where
  /-- Neither an equals sign nor blanks and an equals sign follow the key. -/
  | expectedEquals (position : Nat)
  /-- The key at `position` was given before, at `previous`. -/
  | duplicate (position previous : Nat)
  /-- The value does not start with a quote. -/
  | unquotedValue (position : Nat)
  /-- Nothing follows the equals sign. -/
  | missingValue (position : Nat)
  /-- The quote that opens the value does not end it. -/
  | unclosedQuote (position : Nat) (quote : Char)
  /-- A reference in a value is refused. -/
  | reference (fault : ReferenceFault)
deriving DecidableEq

/-- Why a piece of a document cannot be read. -/
inductive TokenFault where
  /-- A tag has no end. -/
  | unclosedTag
  /-- A processing instruction has no end. -/
  | unclosedInstruction
  /-- A comment has no end, or its start is incomplete. -/
  | unclosedComment
  /-- A literal section has no end, or its start is incomplete. -/
  | unclosedLiteral
  /-- A document type declaration has no end, or its start is incomplete. -/
  | unclosedDoctype
  /-- A document type declaration has no name. -/
  | namelessDoctype
  /-- An exclamation mark starts none of the declarations. -/
  | unknownDeclaration
deriving DecidableEq

/-- Why a document is no tree of elements. -/
inductive Malformation where
  /-- A piece that cannot be read. -/
  | token (fault : TokenFault) (position : Nat)
  /-- A closing tag with another name than the open element. -/
  | mismatchedClosing (expected found : Text) (position : Nat)
  /-- A closing tag without an open element. -/
  | strayClosing (name : Text) (position : Nat)
  /-- A reference in a text is refused. -/
  | reference (fault : ReferenceFault) (position : Nat)
  /-- The attributes of a tag are refused. -/
  | attributes (fault : AttributeFault)
  /-- The document ends inside an element. -/
  | unclosedElement (name : Text)
  /-- The document has no element. -/
  | noRoot
  /-- A reason in the words of whoever made the document. -/
  | reported (reason : String)
deriving DecidableEq

/-- What a document holds beside its root element. -/
inductive Misplaced where
  /-- Text outside of the root. -/
  | text (content : Text)
  /-- A second root. -/
  | secondRoot (name : Text)
  /-- A reason in the words of whoever made the document. -/
  | reported (reason : String)
deriving DecidableEq

/-- Why a document is refused. -/
inductive Error where
  /-- It is no tree of elements. -/
  | malformed (cause : Malformation)
  /-- It is more than one element. -/
  | unexpected (content : Misplaced)
deriving DecidableEq

/-- The message of a refused reference. -/
def ReferenceFault.message : ReferenceFault → String
  | unterminated start stop =>
    s!"Error while escaping character at range {start}..{stop}: Cannot find ';' after '&'"
  | unknownEntity start stop name =>
    s!"at {start}..{stop}: unrecognized entity `" ++ String.ofList name ++ "`"
  | sign => "invalid character reference: unexpected number sign"
  | noDigits => "invalid character reference: cannot parse integer from empty string"
  | invalidDigit => "invalid character reference: invalid digit found in string"
  | tooLarge => "invalid character reference: number too large to fit in target type"
  | null => "invalid character reference: 0x0 character is not permitted in XML"
  | noCharacter code => s!"invalid character reference: `{code}` is not a valid codepoint"

/-- The message of refused attributes. -/
def AttributeFault.message : AttributeFault → String
  | expectedEquals position =>
    s!"position {position}: attribute key must be directly followed by `=` or space"
  | duplicate position previous =>
    s!"position {position}: duplicated attribute, previous declaration at position {previous}"
  | unquotedValue position =>
    s!"position {position}: attribute value must be enclosed in `\"` or `'`"
  | missingValue position =>
    s!"position {position}: `=` must be followed by an attribute value"
  | unclosedQuote position quote =>
    s!"position {position}: missing closing quote `{quote}` in attribute value"
  | reference fault => fault.message

/-- The message of a piece that cannot be read. -/
def TokenFault.message : TokenFault → String
  | unclosedTag => "syntax error: tag not closed: `>` not found before end of input"
  | unclosedInstruction =>
    "syntax error: processing instruction or xml declaration not closed: " ++
      "`?>` not found before end of input"
  | unclosedComment => "syntax error: comment not closed: `-->` not found before end of input"
  | unclosedLiteral => "syntax error: CDATA not closed: `]]>` not found before end of input"
  | unclosedDoctype => "syntax error: DOCTYPE not closed: `>` not found before end of input"
  | namelessDoctype =>
    "ill-formed document: `<!DOCTYPE>` declaration does not contain a name of a document type"
  | unknownDeclaration => "syntax error: unknown or missed symbol in markup"

/-- The message of a document that is no tree of elements. -/
def Malformation.message : Malformation → String
  | token fault position => fault.message ++ s!" at position {position}"
  | mismatchedClosing expected found position =>
    "ill-formed document: expected `</" ++ String.ofList expected ++ ">`, but `</" ++
      String.ofList found ++ s!">` was found at position {position}"
  | strayClosing name position =>
    "ill-formed document: close tag `</" ++ String.ofList name ++
      s!">` does not match any open tag at position {position}"
  | reference fault position => fault.message ++ s!" at position {position}"
  | attributes fault => fault.message
  | unclosedElement name => "element <" ++ String.ofList name ++ "> is not closed"
  | noRoot => "document has no root element"
  | reported reason => reason

/-- The message of what a document holds beside its root element. -/
def Misplaced.message : Misplaced → String
  | text content => "text outside of root element: " ++ String.ofList content
  | secondRoot name => "second root element <" ++ String.ofList name ++ ">"
  | reported reason => reason

/-- The message of a refused document. -/
def Error.message : Error → String
  | malformed cause => "Malformed XML: " ++ cause.message
  | unexpected content => "Unexpected XML content: " ++ content.message

end AccessRules.Markup
