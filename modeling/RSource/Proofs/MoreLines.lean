import RSource.Proofs.Derivation
import RSource.Proofs.Grammar.Lines

/-! More line ends.  In a source without errors line ends can be put wherever a line end is
layout: inside parentheses and brackets, and behind an operator.  The tree stays as it is, but for
the layout between its tokens. -/

namespace RSource

open TokenKind

/-- The kinds before a token and the token itself, the last first.  Layout is left out. -/
def TokenKind.onto (k : TokenKind) (past : List TokenKind) : List TokenKind :=
  if k.isLayout then past else k :: past

/-- The second tokens are the first, each in relation to its counterpart, with more line ends where
a line end is layout after the tokens before it. -/
inductive MoreLines (R : Token → Token → Prop) :
    List TokenKind → List Token → List Token → Prop
  | nil (past : List TokenKind) : MoreLines R past [] []
  | token {past : List TokenKind} {t u : Token} {ts us : List Token} (htoken : R t u)
      (hrest : MoreLines R (t.kind.onto past) ts us) : MoreLines R past (t :: ts) (u :: us)
  | line {past : List TokenKind} {u : Token} {ts us : List Token} (hkind : u.kind = .newline)
      (hlayout : lineIsLayout past = true) (hrest : MoreLines R past ts us) :
      MoreLines R past ts (u :: us)

theorem Cursor.past_ofTokens (ts : List Token) : (Cursor.ofTokens ts).past = [] := by
  rw [Cursor.past, (Cursor.ofTokens_items ts).2]
  rfl

namespace MoreLines

variable {R : Token → Token → Prop} {past : List TokenKind} {ts us : List Token}

/-- At the end of a file no line end is layout. -/
theorem lineIsLayout_endOfFile : lineIsLayout (.endOfFile :: past) = false := by
  have hlast : continued.contains .endOfFile = false := by decide
  rw [lineIsLayout, opened, if_pos rfl, List.head?_cons, Option.any_some, hlast]
  rfl

/-- Both last tokens are an end of file, which no line end can follow, or neither is. -/
structure Ends (past : List TokenKind) (last last' : Option Token) : Prop where
  both : last'.any (·.kind == .endOfFile) = last.any (·.kind == .endOfFile)
  closed : last.any (·.kind == .endOfFile) = true → lineIsLayout past = false

theorem ends_token {t u : Token} (hkind : u.kind = t.kind) :
    Ends (t.kind.onto past) (some t) (some u) := by
  refine ⟨by rw [Option.any_some, Option.any_some, hkind], fun h => ?_⟩
  rw [beq_iff_eq.mp h]
  exact lineIsLayout_endOfFile

theorem Ends.line {last last' : Option Token} {u : Token} (h : Ends past last last')
    (hkind : u.kind = .newline) (hlayout : lineIsLayout past = true) :
    Ends past last (some u) := by
  refine ⟨?_, h.closed⟩
  rw [Option.any_some, hkind, eq_comm]
  refine Bool.eq_false_iff.mpr fun hlast => ?_
  rw [h.closed hlast] at hlayout
  cases hlayout

theorem items (hR : ∀ t u, R t u → u.kind = t.kind) (h : MoreLines R past ts us) :
    ∀ {newline newline' : Bool} (place place' : Nat) {last last' : Option Token},
      (newline' = newline ∨ newline' = true ∧ lineIsLayout past = true) → Ends past last last' →
      Item.Loosened past (Item.ofTokens place newline last ts)
        (Item.ofTokens place' newline' last' us) := by
  induction h with
  | nil past =>
    intro newline newline' place place' last last' hline hends
    rw [Item.ofTokens, Item.ofTokens, hends.both]
    split
    · exact .nil past
    · exact .cons rfl rfl hline (.nil _)
  | @token past t u ts us htoken hrest ih =>
    intro newline newline' place place' last last' hline _
    have hkind := hR t u htoken
    have hends : Ends (t.kind.onto past) (some t) (some u) := ends_token hkind
    cases hlayout : t.kind.isLayout with
    | false =>
      rw [onto, if_neg (by rw [hlayout]; exact Bool.false_ne_true)] at ih hends
      rw [Item.ofTokens_seen hlayout, Item.ofTokens_seen (by rw [hkind, hlayout])]
      exact .cons hkind rfl hline (ih _ _ (.inl rfl) hends)
    | true =>
      rw [onto, if_pos hlayout] at ih hends
      rcases Bool.or_eq_true_iff.mp hlayout with htrivia | hnewline
      · rw [Item.ofTokens_trivia htrivia, Item.ofTokens_trivia (by rw [hkind, htrivia])]
        exact ih _ _ hline hends
      · have hnewline := beq_iff_eq.mp hnewline
        rw [Item.ofTokens_newline hnewline, Item.ofTokens_newline (hkind.trans hnewline)]
        exact ih _ _ (.inl rfl) hends
  | line hkind hlayout _ ih =>
    intro newline newline' place place' last last' _ hends
    rw [Item.ofTokens_newline hkind]
    exact ih _ _ (.inr ⟨rfl, hlayout⟩) (hends.line hkind hlayout)

theorem loosened (hR : ∀ t u, R t u → u.kind = t.kind) (h : MoreLines R [] ts us) :
    (Cursor.ofTokens ts).Loosened (Cursor.ofTokens us) := by
  have hitems := (Cursor.ofTokens_items ts).1
  refine ⟨?_, hitems ▸ Item.getLast?_ofTokens ts 0 false none fun _ => rfl⟩
  rw [Cursor.past_ofTokens, hitems, (Cursor.ofTokens_items us).1]
  exact h.items hR 0 0 (.inl rfl) ⟨rfl, fun hlast => by cases hlast⟩

/-- The tokens of the file that are not layout stay. -/
theorem significant (hR : ∀ t u, R t u → u.kind = t.kind) (h : MoreLines R past ts us) :
    List.Forall₂ R ((ts.takeWhile (·.kind ≠ .endOfFile)).filter (!·.kind.isLayout))
      ((us.takeWhile (·.kind ≠ .endOfFile)).filter (!·.kind.isLayout)) := by
  induction h with
  | nil => exact .nil
  | @token past t u ts us htoken hrest ih =>
    have hkind := hR t u htoken
    rw [List.takeWhile_cons, List.takeWhile_cons, hkind]
    split
    · rw [List.filter_cons, List.filter_cons, hkind]
      split
      · exact .cons htoken ih
      · exact ih
    · exact .nil
  | line hkind _ _ ih =>
    rw [List.takeWhile_cons_of_pos (by simp [hkind]),
      List.filter_cons_of_neg (by simp [hkind, isLayout])]
    exact ih

end MoreLines

/-- A parse is built from an outline, which is all of its tree but the layout. -/
theorem parseTokens_outline {text : String} {tokens : List Token} {limit : Nat} {p : Parse}
    (h : parseTokens text tokens limit = .ok p) :
    p.tree.outline = [(Grammar.source .statements (.ofTokens tokens)).value] ∧
      p.tree.leaves = tokens.takeWhile (·.kind ≠ .endOfFile) := by
  obtain ⟨os, more, hfound⟩ := Grammar.found tokens
  obtain ⟨hbuild, -⟩ := parseTokens_eq_ok hfound h
  have hfile : NodeKind.file.tokenKind? = none := rfl
  obtain ⟨t, hbuild', -, hleaves⟩ :=
    SyntaxTree.build_leaves text hfile hfound.plain hfound.significant hfound.inside
  obtain rfl := Except.ok.inj (hbuild.symm.trans hbuild')
  exact ⟨hfound.outline ▸ SyntaxTree.build_outline text hfile hfound.plain hfound.significant
    hfound.ending hbuild, hleaves⟩

/-- Line ends inside parentheses and brackets and behind operators change nothing.  The tokens may
have moved in between, as long as they are of the same kinds. -/
theorem parseTokens_moreLines {R : Token → Token → Prop} (hR : ∀ t u, R t u → u.kind = t.kind)
    {text text' : String} {tokens tokens' : List Token} {limit limit' : Nat} {p : Parse}
    (hlimit : 1 ≤ limit) (hp : parseTokens text tokens limit = .ok p) (herrors : p.errors = [])
    (hlines : MoreLines R [] tokens tokens') (hsize : Text.byteLength text' ≤ maxOffset) :
    ∃ p', parseTokens text' tokens' limit' = .ok p' ∧ p'.errors = [] ∧
      Outline.forestBare p'.tree.outline = Outline.forestBare p.tree.outline ∧
      List.Forall₂ R (p.tree.leaves.filter (!·.kind.isLayout))
        (p'.tree.leaves.filter (!·.kind.isLayout)) := by
  have hstart : (Cursor.ofTokens tokens).Settled [] := by
    have hpast := Cursor.past_ofTokens tokens
    exact ⟨by rw [Cursor.Inside, hpast]; rfl, fun k hk => by rw [hpast] at hk; cases hk⟩
  obtain ⟨hnone, -, hbare, -⟩ := Grammar.keeps_source .statements _ _ rfl (hlines.loosened hR)
    hstart (errors_source_eq_nil hlimit hp herrors)
  obtain ⟨p', hp', -⟩ := parseTokens_ok hsize tokens' limit'
  obtain ⟨houtline, hleaves⟩ := parseTokens_outline hp
  obtain ⟨houtline', hleaves'⟩ := parseTokens_outline hp'
  refine ⟨p', hp', ?_, ?_, ?_⟩
  · obtain ⟨os, more, hfound⟩ := Grammar.found tokens'
    rw [(parseTokens_eq_ok hfound hp').2, Parser.run, hnone]
    exact List.take_nil
  · rw [houtline, houtline', Outline.forestBare, Outline.forestBare, hbare]
    rfl
  · rw [hleaves, hleaves']
    exact hlines.significant hR

theorem moreLines_block : MoreLines (fun t u => u.kind = t.kind) [] (lex "(\x7b-x$y\x7d)")
    (lex "(\n\x7b-\nx$\ny\x7d\n)") := by
  have hlex : lex "(\x7b-x$y\x7d)" = [⟨.leftParen, ⟨0, 1⟩⟩, ⟨.leftBrace, ⟨1, 2⟩⟩, ⟨.minus, ⟨2, 3⟩⟩,
      ⟨.identifier, ⟨3, 4⟩⟩, ⟨.dollar, ⟨4, 5⟩⟩, ⟨.identifier, ⟨5, 6⟩⟩, ⟨.rightBrace, ⟨6, 7⟩⟩,
      ⟨.rightParen, ⟨7, 8⟩⟩, ⟨.endOfFile, ⟨8, 8⟩⟩] := by
    decide +kernel
  have hlex' : lex "(\n\x7b-\nx$\ny\x7d\n)" = [⟨.leftParen, ⟨0, 1⟩⟩, ⟨.newline, ⟨1, 2⟩⟩,
      ⟨.leftBrace, ⟨2, 3⟩⟩, ⟨.minus, ⟨3, 4⟩⟩, ⟨.newline, ⟨4, 5⟩⟩, ⟨.identifier, ⟨5, 6⟩⟩,
      ⟨.dollar, ⟨6, 7⟩⟩, ⟨.newline, ⟨7, 8⟩⟩, ⟨.identifier, ⟨8, 9⟩⟩, ⟨.rightBrace, ⟨9, 10⟩⟩,
      ⟨.newline, ⟨10, 11⟩⟩, ⟨.rightParen, ⟨11, 12⟩⟩, ⟨.endOfFile, ⟨12, 12⟩⟩] := by
    decide +kernel
  rw [hlex, hlex']
  exact .token rfl <| .line rfl (by decide) <| .token rfl <| .token rfl <|
    .line rfl (by decide) <| .token rfl <| .token rfl <| .line rfl (by decide) <| .token rfl <|
    .token rfl <| .line rfl (by decide) <| .token rfl <| .token rfl <| .nil _

theorem parseTokens_moreLines_block :
    MoreLines (fun t u => u.kind = t.kind) [] (lex "(\x7b-x$y\x7d)")
      (lex "(\n\x7b-\nx$\ny\x7d\n)") ∧
    ∃ p, parseTokens "(\x7b-x$y\x7d)" (lex "(\x7b-x$y\x7d)") 1 = .ok p ∧ p.errors = [] ∧
    ∃ p', parseTokens "(\n\x7b-\nx$\ny\x7d\n)" (lex "(\n\x7b-\nx$\ny\x7d\n)") 1 = .ok p' ∧
      p'.errors = [] ∧
      Outline.forestBare p'.tree.outline = Outline.forestBare p.tree.outline ∧
      List.Forall₂ (fun t u => u.kind = t.kind) (p.tree.leaves.filter (!·.kind.isLayout))
        (p'.tree.leaves.filter (!·.kind.isLayout)) := by
  have haccepted : (parseTokens "(\x7b-x$y\x7d)" (lex "(\x7b-x$y\x7d)") 1).toOption.any
      (·.errors.isEmpty) = true := by
    decide +kernel
  obtain ⟨p, hp, hnone⟩ := exists_of_any_toOption haccepted
  have herrors := List.isEmpty_iff.mp hnone
  exact ⟨moreLines_block, p, hp, herrors, parseTokens_moreLines (fun _ _ h => h) (Nat.le_refl 1) hp
    herrors moreLines_block (by decide)⟩

end RSource
