import CallbackLint.Grammar.Function

namespace CallbackLint

/-!
# Objects and classes

The members of an object are separated by commas.  Those of a class are
methods, which need nothing between them, and fields, which end as statements
do.
-/

namespace Reader

/-! ## Methods -/

/-- The words in front of the name of a method, and the sign of a generator.
The result tells whether there were any. -/
def methodModifiers (inClass : Bool) : Reader Bool := do
  let asynchronous ← modifier inClass ["async"]
  let accessor ← modifier inClass ["get", "set"]
  let isGenerator ← optional "*"
  return asynchronous.isSome || accessor.isSome || isGenerator

/-- The rest of a method whose name has been read. -/
def methodFrom (grammar : Grammar) (start : Place) (before : List Concrete)
    (title : Concrete) : Reader Concrete := do
  let parts ← signatureAndBody grammar
  node "method_definition" start (before ++ title.inRole "name" :: parts)

/-! ## Objects -/

/-- A property that is written as a mere name, possibly with a default. -/
def shorthand (grammar : Grammar) (title : Concrete) : Reader Concrete := do
  ensure (title.isOneOf ["property_identifier"])
  let plain := title.ofType "shorthand_property_identifier"
  if ← sees "=" then
    symbol "="
    let default ← grammar .expression
    node "object_assignment_pattern" title.place
      [(plain.ofType "shorthand_property_identifier_pattern").inRole "left",
        default.inRole "right"]
  else return plain

def property (grammar : Grammar) : Reader Concrete := do
  if ← sees "..." then return ← spread grammar
  let start ← here
  let before ← many (decorator grammar)
  let modified ← methodModifiers false
  let title ← memberName grammar
  if ← sees "(" then methodFrom grammar start before title
  else do
    ensure (!modified && before.isEmpty)
    if ← sees ":" then
      symbol ":"
      let value ← grammar .expression
      node "pair" start [title.inRole "key", value.inRole "value"]
    else shorthand grammar title

def object (grammar : Grammar) : Reader Concrete := do
  let start ← here
  symbol "\x7b"
  let properties ← occupied (property grammar)
  symbol "\x7d"
  node "object" start properties

def array (grammar : Grammar) : Reader Concrete := do
  let start ← here
  symbol "["
  let items ← occupied (element grammar)
  symbol "]"
  node "array" start items

/-! ## Classes -/

/-- The words `static get` at the end of a line, which always modify the name on
the next line. -/
def staticGetter : Reader Unit := do
  settle .operand
  exactly "static".toList
  someOf ScriptChar.isSpace
  exactly "get".toList
  let blanks ← takeWhile ScriptChar.isSpace
  ensure (blanks.contains '\n')

def staticBlock (grammar : Grammar) : Reader Concrete := do
  let start ← here
  keyword "static"
  let body ← block grammar
  node "class_static_block" start [body.inRole "body"]

def namedMember (grammar : Grammar) : Reader Concrete := do
  let start ← here
  let before ← many (decorator grammar)
  match ← maybe staticGetter with
  | some () => pure ()
  | none =>
    let _ ← modifier true ["static"]
    let _ ← methodModifiers true
  let title ← memberName grammar
  if ← sees "(" then
    let method ← methodFrom grammar start before title
    let _ ← optional ";"
    return method
  else do
    let value ← maybe do
      symbol "="
      grammar .expression
    let field ← node "field_definition" start
      (before ++ title.inRole "property" :: (value.map (Concrete.inRole "value")).toList)
    statementEnd value.isSome
    return field

def classBody (grammar : Grammar) : Reader Concrete := do
  let start ← here
  symbol "\x7b"
  let members ← many do
    let _ ← many (symbol ";")
    staticBlock grammar <|> namedMember grammar
  let _ ← many (symbol ";")
  symbol "\x7d"
  node "class_body" start members

def heritage (grammar : Grammar) : Reader Concrete := do
  let start ← here
  keyword "extends"
  let base ← grammar .expression
  node "class_heritage" start [base]

/-- A class; a declaration must have a name. -/
def classNode (grammar : Grammar) (standing : Standing) : Reader Concrete := do
  let start ← here
  let before ← many (decorator grammar)
  keyword "class"
  let title ←
    match standing with
    | .declaration => some <$> nameNode "identifier"
    | .value => maybe (nameNode "identifier")
  let base ← maybe (heritage grammar)
  let body ← classBody grammar
  let type := if standing == .value then "class" else "class_declaration"
  node type start
    (before ++ (title.map (Concrete.inRole "name")).toList ++ base.toList ++
      [body.inRole "body"])

end Reader

end CallbackLint
