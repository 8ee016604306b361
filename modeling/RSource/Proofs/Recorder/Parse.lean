import RSource.Proofs.Lossless
import RSource.Proofs.Parser.Limited
import RSource.Proofs.Recorder.DocComment
import RSource.Proofs.Recorder.Grammar
import RSource.Recorder.Parse

/-! Parses through events are the parses through outlines: every parser that writes events comes to
an end, the events that it has written then build the tree of the outline, and its log keeps the
errors that are met.  So every list of tokens has a parse through events, and none of the tokens
before the first end of file is lost. -/

namespace RSource

namespace Recorded

variable {recorder : Recorder Completed} {parser : Parser Outline} {tokens : List Token}

/-- What is recorded says what the parser finds. -/
theorem describes_record (h : ∀ {s : Recording}, s.cursor.Over tokens →
    Comes false Whole s.events s (recorder s) (parser s.context s.cursor)) (context : Context)
    (limit : Nat) : ∃ done, record? recorder context tokens limit = some done ∧
      Describes done.events [(parser.run context tokens).1] ∧
      done.log.kept = (parser.run context tokens).2.take limit := by
  obtain ⟨done, hdone, hstep⟩ := h (s := ⟨.ofTokens tokens, context, [], .empty limit⟩)
    (Cursor.over_ofTokens tokens)
  obtain ⟨es, hes, last, -, hone⟩ := hstep.events
  rw [List.nil_append] at hes
  refine ⟨done.2, by rw [record?, hdone]; rfl, ?_, ?_⟩
  · rw [hes]
    exact hone.describes
  · rw [hstep.log]
    exact ErrorLog.kept_foldl_record _ (.empty limit) (Nat.zero_le limit)

/-- A parse through events is the parse through the outline. -/
theorem parseWith_eq (h : ∀ {s : Recording}, s.cursor.Over tokens →
    Comes false Whole s.events s (recorder s) (parser s.context s.cursor)) (entry : Entry)
    (context : Context) (text : String) (limit : Nat) :
    parseWith entry recorder context text tokens limit =
      some (RSource.parseWith entry parser context text tokens limit) := by
  obtain ⟨done, hdone, hevents, hkept⟩ := describes_record h context limit
  rw [parseWith, RSource.parseWith, hdone, Option.map_some, hkept,
    SyntaxTree.build_of_describes hevents]
  split <;> rfl

theorem parseTokens_eq (text : String) (tokens : List Token) (limit : Nat) :
    parseTokens text tokens limit = some (RSource.parseTokens text tokens limit) :=
  parseWith_eq Comes.source .file .statements text limit

theorem parse_eq (text : String) (limit : Nat) :
    parse text limit = some (RSource.parse text limit) :=
  parseTokens_eq text (lex text) limit

theorem parseDoc_eq (text : String) : parseDoc text = some (RSource.parseDoc text) :=
  parseWith_eq (Comes.comment text) .docComment .docComment text Parse.defaultLimit

/-- The links that are written lead to starts that none has opened before. -/
theorem wellLinked_source (tokens : List Token) (limit : Nat) :
    ∃ done, record? source .statements tokens limit = some done ∧
      Event.WellLinked done.events := by
  have hsource : ∀ {s : Recording}, s.cursor.Over tokens →
      Comes false Whole s.events s (source s) (Grammar.source s.context s.cursor) := Comes.source
  have hsize : Text.byteLength "" ≤ maxOffset := by decide
  obtain ⟨done, hdone, hevents, -⟩ := describes_record hsource .statements limit
  obtain ⟨p, hp, -⟩ := parseTokens_ok hsize tokens limit
  have hbuild := (parseWith_eq_ok hp).1
  rw [← SyntaxTree.build_of_describes hevents] at hbuild
  exact ⟨done, hdone, SyntaxTree.wellLinked_of_build hbuild⟩

end Recorded

/-- Parsing any tokens through events comes to an end and gives a tree whose leaves are the tokens
before the first end of file, and parsing a text gives one whose leaves spell the text. -/
theorem parse_lossless {text : String} (hsize : Text.byteLength text ≤ maxOffset) (limit : Nat) :
    (∀ tokens, ∃ p, Recorded.parseTokens text tokens limit = some (.ok p) ∧ p.tree.text = text ∧
      p.tree.leaves = tokens.takeWhile (·.kind ≠ .endOfFile)) ∧
    ∃ p, Recorded.parse text limit = some (.ok p) ∧
      String.join (p.tree.leaves.map fun t => t.text p.tree.text) = text := by
  refine ⟨fun tokens => ?_, ?_⟩
  · obtain ⟨p, hp, hleaves⟩ := parseTokens_ok hsize tokens limit
    exact ⟨p, (Recorded.parseTokens_eq text tokens limit).trans (congrArg some hp), hleaves⟩
  · obtain ⟨p, hp, htext, hleaves⟩ := parseTokens_ok hsize (lex text) limit
    refine ⟨p, (Recorded.parse_eq text limit).trans (congrArg some hp), ?_⟩
    rw [htext, hleaves]
    exact join_text_lex text

theorem parse_lossless_unclosed : Text.byteLength "f(1 #" ≤ maxOffset ∧
    ∃ p, Recorded.parse "f(1 #" 1 = some (.ok p) ∧
      String.join (p.tree.leaves.map fun t => t.text p.tree.text) = "f(1 #" :=
  have hsize : Text.byteLength "f(1 #" ≤ maxOffset := by decide
  ⟨hsize, (parse_lossless hsize 1).2⟩

end RSource
