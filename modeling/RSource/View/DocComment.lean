import RSource.View.Name

/-! Doc comments: tags, documented parameters and links. -/

namespace RSource.DocComment

/-- The `@param` tags of a comment. -/
def paramTags (t : SyntaxTree) (id : NodeId) : List NodeId :=
  (t.children id).filter (t.isKind .roxygenParamTag)

/-- The other tags of a comment. -/
def tags (t : SyntaxTree) (id : NodeId) : List NodeId :=
  (t.children id).filter (t.isKind .roxygenTag)

/-- The name of a tag. -/
def tagName (t : SyntaxTree) (id : NodeId) : String := Text.trimStart (· == '@') (t.textOf id)

/-- The parameters of a `@param` tag. -/
def parameters (t : SyntaxTree) (id : NodeId) : List NodeId :=
  (t.children id).filter (t.isKind .roxygenParameter)

def parameterName (t : SyntaxTree) (id : NodeId) : String := withoutBackticks (t.textOf id)

/-- The names of all documented parameters of a comment. -/
def documented (t : SyntaxTree) (id : NodeId) : List String :=
  (paramTags t id).flatMap fun tag => (parameters t tag).map (parameterName t)

/-- The package of a link to a help page. -/
def linkPackage? (t : SyntaxTree) (id : NodeId) : Option String := do
  let access ← t.childOfKind? id .roxygenNamespaceAccess
  let name ← t.childOfKind? access .roxygenIdentifier
  return t.textOf name

/-- The topic of a link to a help page. -/
def linkTopic? (t : SyntaxTree) (id : NodeId) : Option String :=
  let holder := (t.childOfKind? id .roxygenNamespaceAccess).getD id
  ((t.children holder).reverse.find? (t.isKind .roxygenIdentifier)).map t.textOf

/-- The target of a link that shows it. -/
def linkUri? (t : SyntaxTree) (id : NodeId) : Option String :=
  (t.childToken? id .docAutolinkUri).map t.textOf

end RSource.DocComment
