import CallbackLint.Concrete.Tree

namespace CallbackLint

/-!
# Expressions that turn out to be patterns

What `{a, b = 1}` or `(a, [b])` means is decided by what follows: in front of
`=`, `=>`, `of` or `in` it takes a value apart.  Such a text is read as an
expression first.  If it turns out to be a pattern, the same nodes get the types
that they have in patterns.
-/

namespace Concrete

def ofType (type : String) : Concrete → Concrete
  | .node label children => .node { label with type } children

mutual

/-- The pattern that is spelled like an expression. -/
def asPattern : Concrete → Concrete
  | .node label children =>
    if label.type = "object" then
      .node { label with type := "object_pattern" } (asPatterns none children)
    else if label.type = "array" then
      .node { label with type := "array_pattern" } (asPatterns none children)
    else if label.type = "spread_element" then
      .node { label with type := "rest_pattern" } (asPatterns none children)
    else if label.type = "pair" then
      .node { label with type := "pair_pattern" } (asPatterns (some "value") children)
    else if label.type = "assignment_expression" then
      .node { label with type := "assignment_pattern" } (asPatterns (some "left") children)
    else if label.type = "shorthand_property_identifier" then
      .node { label with type := "shorthand_property_identifier_pattern" } children
    else .node label children

/-- Some nodes, of which those in a role, or all, are turned into patterns. -/
def asPatterns (role : Option String) : List Concrete → List Concrete
  | [] => []
  | .node label children :: rest =>
    (if role.isNone || label.field == role then asPattern (.node label children)
     else .node label children) :: asPatterns role rest

end

end Concrete

end CallbackLint
