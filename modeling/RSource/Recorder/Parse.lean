import RSource.Parse
import RSource.Recorder.DocComment
import RSource.Recorder.Grammar

/-! Parses through events.  The tree is built from the events that a parser has written when it is
done, and the errors are those in its log. -/

namespace RSource.Recorded

/-- What a parser has recorded when it is done with some tokens, of the errors as many as `limit`.
There is nothing if it is never done. -/
def record? (recorder : Recorder Completed) (context : Context) (tokens : List Token)
    (limit : Nat) : Option Recording :=
  (recorder ⟨.ofTokens tokens, context, [], .empty limit⟩).map (·.2)

/-- The parse of a text that is cut into tokens already. -/
def parseWith (entry : Entry) (recorder : Recorder Completed) (context : Context) (text : String)
    (tokens : List Token) (limit : Nat) : Option (Except TreeError Parse) :=
  if maxOffset < Text.byteLength text then some (.error .sourceTooLarge)
  else (record? recorder context tokens limit).map fun done => do
    return ⟨← SyntaxTree.build text tokens done.events, done.log.kept, entry⟩

/-- The parse of the tokens of an R source. -/
def parseTokens (text : String) (tokens : List Token) (limit : Nat) :
    Option (Except TreeError Parse) :=
  parseWith .file source .statements text tokens limit

/-- The parse of an R source. -/
def parse (text : String) (limit : Nat) : Option (Except TreeError Parse) :=
  parseTokens text (lex text) limit

/-- The parse of a doc comment. -/
def parseDoc (text : String) : Option (Except TreeError Parse) :=
  parseWith .docComment (DocComment.comment text) .docComment text (lexDoc text)
    Parse.defaultLimit

end RSource.Recorded
