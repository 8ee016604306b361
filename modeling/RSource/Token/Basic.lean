import RSource.Text.Slice
import RSource.Token.Kind

/-! Tokens: a kind and the span of the source it covers. -/

namespace RSource

/-- A token of a source text. -/
structure Token where
  kind : TokenKind
  span : Span
  deriving DecidableEq, Repr, Inhabited

namespace Token

/-- The text of a token within its source. -/
def text (t : Token) (source : String) : String := Text.slice source t.span

end Token

end RSource
