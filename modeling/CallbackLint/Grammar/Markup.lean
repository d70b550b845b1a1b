import CallbackLint.Grammar.Function

namespace CallbackLint

/-!
# Markup

An element of markup is an operand like any other.  Between its tags stands
text, in which spaces count unless they come after a line end, and braces hold
expressions.
-/

namespace Markup

/-- The characters that end a text. -/
def isTextEnd (char : Char) : Bool :=
  char == '<' || char == '>' || char == '\x7b' || char == '\x7d' || char == '&'

/-- Whether some characters hold more than line ends and the spaces after them. -/
def isSubstantial (atLineStart : Bool) : List Char → Bool
  | [] => false
  | char :: rest =>
    if char = '\n' then isSubstantial true rest
    else if atLineStart && ScriptChar.isBreakingSpace char then isSubstantial true rest
    else true

end Markup

namespace Reader

/-! ## Names -/

/-- Whether a character may occur in the name of an element. -/
def isTagPart (char : Char) : Bool := ScriptChar.isNamePart char || char == '-'

/-- A simple name in markup, which may have hyphens in it. -/
def tagWord (type : String) : Reader Concrete := leaf type do
  let taken ← takeWhile isTagPart
  match taken with
  | [] => failure
  | first :: _ => ensure (ScriptChar.isNameStart first)

def spacedName (type : String) : Reader Concrete := do
  let first ← tagWord type
  if ← sees ":" then
    symbol ":"
    let second ← tagWord "identifier"
    node "jsx_namespace_name" first.place [first.ofType "identifier", second]
  else return first

def tagName : Reader Concrete := do
  let first ← spacedName "identifier"
  grow (fun object => do
    symbol "."
    let property ← tagWord "property_identifier"
    node "member_expression" object.place
      [object.inRole "object", property.inRole "property"]) first

/-! ## Text -/

def markupText : Reader Concrete := inside "jsx_text" do
  let taken ← takeWhile fun char => !Markup.isTextEnd char
  ensure (Markup.isSubstantial false taken)

/-- A character that is written by its name or number. -/
def characterReference : Reader Concrete := inside "html_character_reference" do
  exactly ['&']
  match ← maybe (exactly ['#']) with
  | some () =>
    match ← maybe (exactly ['x'] <|> exactly ['X']) with
    | some () => someOf ScriptChar.isHexDigit
    | none => someOf Char.isDigit
  | none => someOf Char.isAlpha
  exactly [';']

/-- A string in an attribute, which has no escapes. -/
def markupString (quote : Char) : Reader Concrete := do
  settle .operand
  let start ← here
  exactly [quote]
  let parts ← many (characterReference <|>
    inside "string_fragment" (someOf fun char => char != quote && char != '&'))
  exactly [quote]
  node "string" start parts

/-- An expression in braces, possibly none. -/
def embedded (grammar : Grammar) : Reader Concrete := do
  let start ← here
  symbol "\x7b"
  let inner ← maybe (do
    if ← sees "..." then spread grammar else sequence grammar)
  symbol "\x7d"
  node "jsx_expression" start inner.toList

/-! ## Tags -/

def attributeValue (grammar : Grammar) : Reader Concrete := do
  match ← peek? with
  | some '\x7b' => embedded grammar
  | some '<' => grammar .markup
  | _ => markupString '\x22' <|> markupString '\x27'

def tagAttribute (grammar : Grammar) : Reader Concrete := do
  if ← sees "\x7b" then return ← embedded grammar
  let start ← here
  let title ← spacedName "property_identifier"
  let value ← maybe do
    symbol "="
    attributeValue grammar
  node "jsx_attribute" start (title :: value.toList)

def closingTag : Reader Concrete := do
  let start ← here
  symbol "<"
  symbol "/"
  let title ← maybe tagName
  symbol ">"
  node "jsx_closing_element" start (title.map (Concrete.inRole "name")).toList

/-- Something between the tags of an element. -/
def content (grammar : Grammar) : Reader Concrete :=
  markupText <|> characterReference <|> do
    match ← peek? with
    | some '\x7b' => embedded grammar
    | some '<' => grammar .markup
    | _ => failure

def markup (grammar : Grammar) : Reader Concrete := do
  let start ← here
  symbol "<"
  let title ← maybe tagName
  let attributes ← if title.isSome then many (tagAttribute grammar) else pure []
  let parts := (title.map (Concrete.inRole "name")).toList ++
    attributes.map (Concrete.inRole "attribute")
  if title.isSome && (← sees "/") then
    symbol "/"
    symbol ">"
    node "jsx_self_closing_element" start parts
  else
    symbol ">"
    let opening ← node "jsx_opening_element" start parts
    let contents ← many (content grammar)
    let closing ← closingTag
    node "jsx_element" start
      (opening.inRole "open_tag" :: contents ++ [closing.inRole "close_tag"])

end Reader

end CallbackLint
