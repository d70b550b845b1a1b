import CallbackLint.Grammar.Expression

namespace CallbackLint

/-!
# Statements

A statement that consists of expressions or names ends at a semicolon or where
one may be left out.  The others end with the construct that they consist of.

An opening brace begins a block.  Only where the brace is followed by a name or
a literal and a colon may it be an object instead, and then it is one if the
whole statement can be read so.
-/

namespace Reader

/-! ## Declarations -/

/-- What a variable may be declared as: a name, or a pattern that takes the
value apart. -/
def binding (grammar : Grammar) : Reader Concrete := do
  match ← peek? with
  | some '\x7b' => return (← object grammar).asPattern
  | some '[' => return (← array grammar).asPattern
  | _ => nameNode "identifier"

/-- The value that something has at first. -/
def initializer (grammar : Grammar) : Reader Concrete := do
  symbol "="
  grammar .expression

/-- A variable, with the value that it has at first if it is given one. -/
def declarator (grammar : Grammar) : Reader Concrete := do
  let target ← binding grammar
  let value ← maybe (initializer grammar)
  node "variable_declarator" target.place
    (target.inRole "name" :: (value.map (Concrete.inRole "value")).toList)

def declarators (grammar : Grammar) : Reader (List Concrete) := do
  let first ← declarator grammar
  let others ← many do
    symbol ","
    declarator grammar
  return first :: others

/-- The ways to declare variables. -/
inductive Declarer where
  /-- The variables belong to the whole function. -/
  | hoisted
  | mutable
  | constant
  /-- The variables are disposed of at the end of their block. -/
  | disposed
  /-- The variables are disposed of at the end of their block, which waits for it. -/
  | awaited
deriving DecidableEq, Repr

namespace Declarer

def words : Declarer → List String
  | hoisted => ["var"]
  | mutable => ["let"]
  | constant => ["const"]
  | disposed => ["using"]
  | awaited => ["await", "using"]

def nodeType : Declarer → String
  | hoisted => "variable_declaration"
  | mutable | constant => "lexical_declaration"
  | disposed | awaited => "using_declaration"

end Declarer

def keywords (words : List String) : Reader Unit := words.forM keyword

/-- Whether a word that may be a name declares a variable: one that follows it
and cannot belong to a statement of its own. -/
def declaresWith (words : List String) (patterns : Bool) : Reader Bool := lookahead do
  keywords words
  ensure !(← semicolonMayBeLeftOut true)
  match ← peek? with
  | some '\x7b' | some '[' => ensure patterns
  | _ =>
    let title ← name
    ensure (patterns || title != "of")

/-- Whether a declaration of variables begins here, and which. -/
def declarer? : Reader (Option Declarer) := do
  match ← peekWord? with
  | some "var" => return some .hoisted
  | some "const" => return some .constant
  | some "let" => return if ← declaresWith ["let"] true then some .mutable else none
  | some "using" => return if ← declaresWith ["using"] false then some .disposed else none
  | some "await" => return if ← declaresWith ["await", "using"] false then some .awaited else none
  | _ => return none

/-- Whether the last variable of a declaration has a value. -/
def endsWithValue (declared : List Concrete) : Bool :=
  ((declared.getLast?).map fun last => decide (1 < last.children.length)).getD false

def declaration (grammar : Grammar) (declarer : Declarer) : Reader Concrete := do
  let start ← here
  keywords declarer.words
  let declared ← declarators grammar
  statementEnd (endsWithValue declared)
  node declarer.nodeType start declared

/-! ## Conditions and loops -/

def emptyStatement : Reader Concrete := leaf "empty_statement" (exactly [';'])

def elseClause (grammar : Grammar) : Reader Concrete := do
  let start ← here
  keyword "else"
  let body ← grammar .statement
  node "else_clause" start [body]

def ifStatement (grammar : Grammar) : Reader Concrete := do
  let start ← here
  keyword "if"
  let condition ← parenthesized grammar
  let consequence ← grammar .statement
  let alternative ← maybe (elseClause grammar)
  node "if_statement" start
    ([condition.inRole "condition", consequence.inRole "consequence"] ++
      (alternative.map (Concrete.inRole "alternative")).toList)

def switchBranch (grammar : Grammar) : Reader Concrete := do
  let start ← here
  if ← seesWord "case" then
    keyword "case"
    let value ← sequence grammar
    symbol ":"
    let body ← many (grammar .statement)
    node "switch_case" start (value.inRole "value" :: body.map (Concrete.inRole "body"))
  else
    keyword "default"
    symbol ":"
    let body ← many (grammar .statement)
    node "switch_default" start (body.map (Concrete.inRole "body"))

def switchBody (grammar : Grammar) : Reader Concrete := do
  let start ← here
  symbol "\x7b"
  let branches ← many (switchBranch grammar)
  symbol "\x7d"
  node "switch_body" start branches

def switchStatement (grammar : Grammar) : Reader Concrete := do
  let start ← here
  keyword "switch"
  let value ← parenthesized grammar
  let body ← switchBody grammar
  node "switch_statement" start [value.inRole "value", body.inRole "body"]

/-- The end of the head of a loop over values: what gives them. -/
def iterated (grammar : Grammar) : Reader Concrete := do
  keyword "of" <|> keyword "in"
  let source ← sequence grammar
  symbol ")"
  return source.inRole "right"

/-- The head of a loop over values, behind its parenthesis. -/
def iterationHead (grammar : Grammar) : Reader (List Concrete) := do
  match ← declarer? with
  | some declarer =>
    keywords declarer.words
    let target ← binding grammar
    let value ← if declarer = .hoisted then maybe (initializer grammar) else pure none
    let source ← iterated grammar
    return target.inRole "left" :: (value.map (Concrete.inRole "value")).toList ++ [source]
  | none =>
    let target ← chain grammar
    let source ← iterated grammar
    return [target.asPattern.inRole "left", source]

/-- A part of the head of a counting loop that ends with a semicolon. -/
def headPart (grammar : Grammar) : Reader Concrete :=
  emptyStatement <|> do
    let inner ← sequence grammar
    symbol ";"
    return inner

/-- The first part of the head of a counting loop. -/
def headStart (grammar : Grammar) : Reader Concrete := do
  match ← declarer? with
  | some declarer =>
    let start ← here
    keywords declarer.words
    let declared ← declarators grammar
    symbol ";"
    node declarer.nodeType start declared
  | none => headPart grammar

/-- The head of a counting loop, behind its parenthesis. -/
def countingHead (grammar : Grammar) : Reader (List Concrete) := do
  let first ← headStart grammar
  let condition ← headPart grammar
  let increment ← maybe (sequence grammar)
  symbol ")"
  return [first.inRole "initializer", condition.inRole "condition"] ++
    (increment.map (Concrete.inRole "increment")).toList

def forStatement (grammar : Grammar) : Reader Concrete := do
  let start ← here
  keyword "for"
  let _ ← optionalWord "await"
  symbol "("
  match ← maybe (iterationHead grammar) with
  | some head =>
    let body ← grammar .statement
    node "for_in_statement" start (head ++ [body.inRole "body"])
  | none =>
    let head ← countingHead grammar
    let body ← grammar .statement
    node "for_statement" start (head ++ [body.inRole "body"])

/-- A statement with a condition or an object in front. -/
def headedStatement (grammar : Grammar) (word type role : String) : Reader Concrete := do
  let start ← here
  keyword word
  let head ← parenthesized grammar
  let body ← grammar .statement
  node type start [head.inRole role, body.inRole "body"]

def doStatement (grammar : Grammar) : Reader Concrete := do
  let start ← here
  keyword "do"
  let body ← grammar .statement
  keyword "while"
  let condition ← parenthesized grammar
  unless ← semicolonMayBeLeftOut false do
    let _ ← optional ";"
  node "do_statement" start [body.inRole "body", condition.inRole "condition"]

/-! ## Jumps and exceptions -/

/-- A jump that may name a statement. -/
def labelledJump (word type : String) : Reader Concrete := do
  let start ← here
  keyword word
  let target ←
    if ← semicolonMayBeLeftOut false then pure none
    else maybe (nameNode "statement_identifier")
  statementEnd false
  node type start (target.map (Concrete.inRole "label")).toList

/-- The end of a function with the value that it gives, if it gives one. -/
def returnStatement (grammar : Grammar) : Reader Concrete := do
  let start ← here
  keyword "return"
  if ← semicolonMayBeLeftOut false then node "return_statement" start []
  else if ← optional ";" then node "return_statement" start []
  else
    let value ← sequence grammar
    statementEnd true
    node "return_statement" start [value]

def throwStatement (grammar : Grammar) : Reader Concrete := do
  let start ← here
  keyword "throw"
  let value ← sequence grammar
  statementEnd true
  node "throw_statement" start [value]

def catchClause (grammar : Grammar) : Reader Concrete := do
  let start ← here
  keyword "catch"
  let input ← maybe do
    symbol "("
    let target ← binding grammar
    symbol ")"
    return target.inRole "parameter"
  let body ← block grammar
  node "catch_clause" start (input.toList ++ [body.inRole "body"])

/-- What is done whether there was an exception or not. -/
def finallyClause (grammar : Grammar) : Reader Concrete := do
  let start ← here
  keyword "finally"
  let body ← block grammar
  node "finally_clause" start [body.inRole "body"]

def tryStatement (grammar : Grammar) : Reader Concrete := do
  let start ← here
  keyword "try"
  let body ← block grammar
  let handler ← maybe (catchClause grammar)
  let finalizer ← maybe (finallyClause grammar)
  node "try_statement" start
    (body.inRole "body" :: (handler.map (Concrete.inRole "handler")).toList ++
      (finalizer.map (Concrete.inRole "finalizer")).toList)

/-! ## Modules -/

/-- The name of something that a module gives to others.  The word `default` is
not a construct of its own. -/
def exportedName : Reader (Option Concrete) := do
  match ← peek? with
  | some '\x22' | some '\x27' => some <$> string
  | _ =>
    if ← optionalWord "default" then return none
    some <$> nameNode "identifier"

/-- A name that is given or taken, possibly under another name. -/
def specifier (type : String) : Reader Concrete := do
  let start ← here
  let title ← exportedName
  let renamed ← maybe do
    keyword "as"
    exportedName
  node type start ((title.map (Concrete.inRole "name")).toList ++
    ((renamed.getD none).map (Concrete.inRole "alias")).toList)

def specifiers (type itemType : String) : Reader Concrete := do
  let start ← here
  symbol "\x7b"
  let items ← occupied (specifier itemType)
  symbol "\x7d"
  node type start items

/-- The module that names come from. -/
def fromClause : Reader Concrete := do
  keyword "from"
  return (← string).inRole "source"

def wholeModule (type : String) (title : Reader (Option Concrete)) : Reader Concrete := do
  let start ← here
  symbol "*"
  keyword "as"
  let inner ← title
  node type start inner.toList

/-- The names that are taken from a module in one go. -/
def importedNames : Reader Concrete := do
  if ← sees "*" then wholeModule "namespace_import" (some <$> nameNode "identifier")
  else specifiers "named_imports" "import_specifier"

def importClause : Reader Concrete := do
  let start ← here
  match ← maybe (nameNode "identifier") with
  | none =>
    let names ← importedNames
    node "import_clause" start [names]
  | some main =>
    let names ← maybe do
      symbol ","
      importedNames
    node "import_clause" start (main :: names.toList)

/-- What else is said about a module. -/
def importAttributes (grammar : Grammar) : Reader Concrete := do
  let start ← here
  keyword "with"
  let inner ← object grammar
  node "import_attribute" start [inner]

def importStatement (grammar : Grammar) : Reader Concrete := do
  let start ← here
  keyword "import"
  let source ← (do return [(← string).inRole "source"]) <|> do
    let names ← importClause
    return [names, ← fromClause]
  let more ← maybe (importAttributes grammar)
  statementEnd false
  node "import_statement" start (source ++ more.toList)

def declared (grammar : Grammar) : Reader Concrete := do
  match ← declarer? with
  | some declarer => declaration grammar declarer
  | none => function grammar .declaration <|> classNode grammar .declaration

/-- What a statement gives to other modules by default. -/
def exportedByDefault (grammar : Grammar) : Reader Concrete := do
  keyword "default"
  match ← maybe (declared grammar) with
  | some inner => return inner.inRole "declaration"
  | none =>
    let value ← grammar .expression
    statementEnd true
    return value.inRole "value"

/-- The module that given names come from, with what else is said about it. -/
def givenFrom (grammar : Grammar) : Reader (List Concrete) := do
  let source ← fromClause
  let more ← maybe (importAttributes grammar)
  return source :: more.toList

def exportedNames (grammar : Grammar) : Reader (List Concrete) := do
  let parts ←
    if ← sees "*" then
      match ← maybe (wholeModule "namespace_export" exportedName) with
      | some inner => pure (inner :: (← givenFrom grammar))
      | none =>
        symbol "*"
        givenFrom grammar
    else
      let names ← specifiers "export_clause" "export_specifier"
      let sources ← maybe (givenFrom grammar)
      pure (names :: sources.getD [])
  statementEnd false
  return parts

def exportStatement (grammar : Grammar) : Reader Concrete := do
  let start ← here
  let before ← many (decorator grammar)
  keyword "export"
  let parts ←
    if ← seesWord "default" then
      pure [← exportedByDefault grammar]
    else
      match ← peek? with
      | some '*' | some '\x7b' => exportedNames grammar
      | _ => pure [(← declared grammar).inRole "declaration"]
  node "export_statement" start (before ++ parts)

/-! ## Statements of any sort -/

/-- Expressions that are evaluated for their effect. -/
def expressionStatement (grammar : Grammar) : Reader Concrete := do
  let start ← here
  let inner ← sequence grammar
  statementEnd true
  node "expression_statement" start [inner]

def seesLabel : Reader Bool := lookahead do
  let _ ← name
  symbol ":"

def labelled (grammar : Grammar) : Reader Concrete := do
  let start ← here
  let title ← nameNode "statement_identifier"
  symbol ":"
  let body ← grammar .statement
  node "labeled_statement" start [title.inRole "label", body.inRole "body"]

/-- Whether a brace comes next that may begin an object: one with a name or a
literal and a colon behind it. -/
def seesObject (grammar : Grammar) : Reader Bool := lookahead do
  symbol "\x7b"
  let _ ← memberName grammar
  symbol ":"

def bracedStatement (grammar : Grammar) : Reader Concrete := do
  if ← seesObject grammar then expressionStatement grammar <|> block grammar
  else block grammar <|> expressionStatement grammar

def decoratedStatement (grammar : Grammar) : Reader Concrete :=
  classNode grammar .declaration <|> exportStatement grammar <|> expressionStatement grammar

/-- A statement that begins with a word of its own. -/
def wordStatement? (grammar : Grammar) (word : String) : Option (Reader Concrete) :=
  match word with
  | "function" => some (function grammar .declaration)
  | "async" => some (function grammar .declaration <|> expressionStatement grammar)
  | "class" => some (classNode grammar .declaration)
  | "if" => some (ifStatement grammar)
  | "switch" => some (switchStatement grammar)
  | "for" => some (forStatement grammar)
  | "while" => some (headedStatement grammar "while" "while_statement" "condition")
  | "with" => some (headedStatement grammar "with" "with_statement" "object")
  | "do" => some (doStatement grammar)
  | "try" => some (tryStatement grammar)
  | "break" => some (labelledJump "break" "break_statement")
  | "continue" => some (labelledJump "continue" "continue_statement")
  | "debugger" => some do
    let start ← here
    keyword "debugger"
    statementEnd false
    node "debugger_statement" start []
  | "return" => some (returnStatement grammar)
  | "throw" => some (throwStatement grammar)
  | "import" => some (importStatement grammar <|> expressionStatement grammar)
  | "export" => some (exportStatement grammar)
  | _ => none

def statement (grammar : Grammar) : Reader Concrete := do
  match ← peek? with
  | none => failure
  | some ';' => emptyStatement
  | some '\x7b' => bracedStatement grammar
  | some '@' => decoratedStatement grammar
  | some _ =>
    match ← declarer? with
    | some declarer => declaration grammar declarer
    | none =>
      if ← seesLabel then labelled grammar
      else
        match (← peekWord?).bind (wordStatement? grammar) with
        | some reader => reader
        | none => expressionStatement grammar

end Reader

end CallbackLint
