import RSource.Grammar.DocComment
import RSource.Proofs.Lexeme.DocForm
import RSource.Proofs.Parser.Lexical

/-! The grammar of doc comments on the lexemes of doc comments.  Every link that the lexer has
recognized is read as a whole, and nothing else looks like the beginning of one; what the grammar
reports is what is wrong with the lines. -/

namespace RSource.Grammar.DocComment

open RSource.Parser
open Lexeme (kindAhead)
open Lexeme.Doc (Link Content Gap MoreNames Marked Line Lines Plain)

/-- The nodes of links. -/
def links : List NodeKind :=
  [.roxygenHelpPageLink, .roxygenNamespaceAccess, .roxygenIdentifier, .roxygenLinkDestination,
    .roxygenAutolink]

/-- The rows below the nodes of whole links. -/
def rows : NodeKind → List (List NodeKind)
  | .roxygenHelpPageLink =>
    [[.token .docLeftBracket, .roxygenIdentifier, .token .docRightBracket],
      [.token .docLeftBracket, .roxygenIdentifier, .token .docLeftParen, .token .docRightParen,
        .token .docRightBracket],
      [.token .docLeftBracket, .roxygenNamespaceAccess, .token .docRightBracket],
      [.token .docLeftBracket, .roxygenNamespaceAccess, .token .docLeftParen,
        .token .docRightParen, .token .docRightBracket]]
  | .roxygenNamespaceAccess =>
    [[.roxygenIdentifier, .token .docDoubleColon, .roxygenIdentifier]]
  | .roxygenIdentifier => [[.token .docIdentifier]]
  | .roxygenLinkDestination =>
    [[.token .docLeftParen, .token .docRightParen],
      [.token .docLeftParen, .token .docText, .token .docRightParen]]
  | .roxygenAutolink =>
    [[.token .docLeftAngle, .token .docAutolinkUri, .token .docRightAngle]]
  | _ => []

/-- The kinds of the tokens that make a link. -/
def marks : List TokenKind :=
  [.docLeftBracket, .docRightBracket, .docLeftParen, .docRightParen, .docLeftAngle,
    .docRightAngle, .docAutolinkUri, .docDoubleColon]

/-- No token of a link is among the kinds. -/
def Clean (ks : List NodeKind) : Prop := ∀ k ∈ marks, NodeKind.token k ∉ ks

instance (ks : List NodeKind) : Decidable (Clean ks) :=
  inferInstanceAs (Decidable (∀ k ∈ marks, NodeKind.token k ∉ ks))

/-- Links are whole, and no other node has a token of a link. -/
def Whole (kind : NodeKind) (ks : List NodeKind) : Prop :=
  if kind ∈ links then ks ∈ rows kind else Clean ks

instance (kind : NodeKind) (ks : List NodeKind) : Decidable (Whole kind ks) :=
  inferInstanceAs (Decidable (if kind ∈ links then ks ∈ rows kind else Clean ks))

theorem Clean.whole {kind : NodeKind} {ks : List NodeKind} (hks : Clean ks) (h : kind ∉ links) :
    Whole kind ks := by
  rwa [Whole, if_neg h]

theorem clean_append {ks ls : List NodeKind} : Clean (ks ++ ls) ↔ Clean ks ∧ Clean ls := by
  simp only [Clean, List.mem_append, not_or, forall_and]

/-- The lexemes make no link. -/
theorem clean_tokens {ls : List Lexeme} (h : ∀ l ∈ ls, l.kind ∉ marks) :
    Clean ((ls.map Lexeme.kind).map .token) := by
  intro k hk hmem
  obtain ⟨j, hj, hsame⟩ := List.mem_map.mp hmem
  obtain ⟨l, hl, rfl⟩ := List.mem_map.mp hj
  exact h l hl (NodeKind.token.inj hsame ▸ hk)

variable {text : String} {tokens : List Token} {before ms ns rest : List Lexeme} {l : Lexeme}
variable {ks : List NodeKind}

/-- Reading a doc comment. -/
abbrev Goes (text : String) (tokens : List Token) (p : Part) (before ms rest : List Lexeme)
    (ks : List NodeKind) : Prop :=
  Reads text tokens Whole .docComment p before ms rest ks

/-! ### Links -/

theorem goes_identifier (hl : l.kind = .docIdentifier) :
    Goes text tokens identifier before [l] rest [.roxygenIdentifier] :=
  Gives.there hl (reads_leaf rfl (by rw [hl]; decide))

/-- The name of a page is a name with or without a package. -/
theorem goes_pageName (hname : ms.map Lexeme.kind ∈ Lexeme.Doc.names)
    (hrest : kindAhead rest 0 ≠ .docDoubleColon) :
    ∃ k ∈ [NodeKind.roxygenIdentifier, .roxygenNamespaceAccess],
      Goes text tokens pageName before ms rest [k] := by
  rcases List.mem_cons.mp hname with hname | hname
  · obtain ⟨l, rfl, hl⟩ := List.map_eq_singleton_iff.mp hname
    refine ⟨.roxygenIdentifier, List.mem_cons_self, fun c hc => ?_⟩
    obtain ⟨os, d, hp, hd, hos⟩ := (goes_identifier hl).parses hc
    refine ⟨os, d, [], hp.bind ?_, hd, hos, noted_nil (Nat.le_refl _)⟩
    have hcolon : (d.kind == .docDoubleColon) = false := by
      rw [hd.kind_eq]
      exact beq_eq_false_iff_ne.mpr hrest
    rw [Parses, isAt, look_bind, hcolon, Bool.and_false]
    rfl
  · rw [List.mem_singleton] at hname
    obtain ⟨l, more, rfl, hl, hmore⟩ := List.map_eq_cons_iff.mp hname
    obtain ⟨colon, more, rfl, hcolon, hmore⟩ := List.map_eq_cons_iff.mp hmore
    obtain ⟨m, rfl, hm⟩ := List.map_eq_singleton_iff.mp hmore
    refine ⟨.roxygenNamespaceAccess, List.mem_cons_of_mem _ List.mem_cons_self, fun c hc => ?_⟩
    have hc' : c.Between text tokens before ([l] ++ ([colon, m] ++ rest)) := hc
    obtain ⟨os, d, hp, hd, hos⟩ := (goes_identifier hl).parses hc'
    have hsecond : Goes text tokens (row [bump, identifier]) (before ++ [l]) [colon, m] rest
        [.token colon.kind, .roxygenIdentifier] :=
      (goes_identifier hm).single.after_bump
    obtain ⟨os', e, hps, he, hos'⟩ := Reads.parses hsecond hd
    have hthere : (d.kind == .docDoubleColon) = true := by
      rw [hd.kind_eq]
      exact beq_iff_eq.mpr hcolon
    have hsome : os.isEmpty = false := by
      cases os with
      | nil => cases hos.kinds
      | cons => rfl
    rw [hcolon] at hos'
    have hwhole : Whole .roxygenNamespaceAccess
        ([.roxygenIdentifier] ++ [.token .docDoubleColon, .roxygenIdentifier]) := by decide
    refine ⟨_, e, [], hp.bind (b := [.node .roxygenNamespaceAccess (os ++ os')]) ?_, ?_,
      (hos.append (n := 2) ?_).node rfl hwhole, noted_nil (Nat.le_refl _)⟩
    · rw [Parses, isAt, look_bind, hthere, hsome]
      exact hps.bind rfl
    · rw [List.append_assoc] at he
      exact he
    · rw [List.length_append] at hos'
      exact hos'

/-- The parentheses behind a name. -/
theorem goes_call (hcall : ms.map Lexeme.kind ∈ Lexeme.Doc.calls)
    (hrest : kindAhead rest 0 ≠ .docLeftParen) :
    Goes text tokens (do
      if ← isAt .docLeftParen then row [bump, expect .docRightParen (.missingInDoc .docRightParen)]
      else return []) before ms rest ((ms.map Lexeme.kind).map .token) := by
  rcases List.mem_cons.mp hcall with hcall | hcall
  · obtain rfl := List.map_eq_nil_iff.mp hcall
    exact Gives.elsewhere hrest reads_nothing
  · rw [List.mem_singleton] at hcall
    obtain ⟨l, more, rfl, hl, hmore⟩ := List.map_eq_cons_iff.mp hcall
    obtain ⟨m, rfl, hm⟩ := List.map_eq_singleton_iff.mp hmore
    exact Gives.there hl (reads_expect _ hm).single.after_bump

theorem goes_helpPageLink {opening closing : Lexeme} {name call : List Lexeme}
    (hopening : opening.kind = .docLeftBracket) (hname : name.map Lexeme.kind ∈ Lexeme.Doc.names)
    (hcall : call.map Lexeme.kind ∈ Lexeme.Doc.calls) (hclosing : closing.kind = .docRightBracket) :
    Goes text tokens (one helpPageLink) before (opening :: (name ++ (call ++ [closing]))) rest
      [.roxygenHelpPageLink] := by
  have hclosing' : [closing].map Lexeme.kind = [.docRightBracket] := by rw [← hclosing]; rfl
  have hparen : kindAhead ([closing] ++ rest) 0 ≠ .docLeftParen := by
    rw [Lexeme.kindAhead_of_kinds hclosing']
    decide
  have hbehind : kindAhead (call ++ [closing] ++ rest) 0 ≠ .docDoubleColon := by
    rw [List.append_assoc]
    rcases List.mem_cons.mp hcall with hcall | hcall
    · rw [List.map_eq_nil_iff.mp hcall, List.nil_append, Lexeme.kindAhead_of_kinds hclosing']
      decide
    · rw [Lexeme.kindAhead_of_kinds (List.mem_singleton.mp hcall)]
      decide
  obtain ⟨k, hk, hpage⟩ := goes_pageName hname hbehind
  refine Gives.node (hpage.row ((goes_call hcall hparen).row
    (reads_expect _ hclosing).single)).after_bump rfl ?_
  rw [hopening, hclosing]
  generalize call.map Lexeme.kind = kinds at hcall ⊢
  clear hpage
  revert kinds k
  decide

theorem goes_linkDestination {opening closing : Lexeme} {address : List Lexeme}
    (hopening : opening.kind = .docLeftParen)
    (haddress : address.map Lexeme.kind ∈ [[], [.docText]])
    (hclosing : closing.kind = .docRightParen) :
    Goes text tokens (one linkDestination) before (opening :: (address ++ [closing])) rest
      [.roxygenLinkDestination] := by
  have haddresses : Goes text tokens
      (bumpWhile fun c => c.kind == .docText || c.kind == .docWhitespace) (before ++ [opening])
      address ([closing] ++ rest) ((address.map Lexeme.kind).map .token) := by
    refine reads_bumpWhile (g := fun k => k == .docText || k == .docWhitespace) (fun _ => rfl)
      (fun l hl => ?_) (.inr ?_)
    · have htext : ∀ ks ∈ [[], [TokenKind.docText]], ∀ k ∈ ks,
          (k == .docText || k == .docWhitespace) = true := by decide
      exact htext _ haddress _ (List.mem_map_of_mem hl)
    · show (closing.kind == .docText || closing.kind == .docWhitespace) = false
      rw [hclosing]
      rfl
  refine Gives.node (haddresses.row (reads_expect _ hclosing).single).after_bump rfl ?_
  rw [hopening, hclosing]
  generalize address.map Lexeme.kind = kinds at haddress ⊢
  revert kinds
  decide

theorem goes_autolink {opening address closing : Lexeme} (hopening : opening.kind = .docLeftAngle)
    (haddress : address.kind = .docAutolinkUri) (hclosing : closing.kind = .docRightAngle) :
    Goes text tokens (one autolink) before [opening, address, closing] rest [.roxygenAutolink] := by
  have hexpect : Goes text tokens (row [expect .docAutolinkUri (.missingInDoc .docAutolinkUri),
      expect .docRightAngle (.missingInDoc .docRightAngle)]) (before ++ [opening])
      ([address] ++ [closing]) rest _ :=
    (reads_expect _ haddress).row (reads_expect _ hclosing).single
  refine Gives.node hexpect.after_bump rfl ?_
  rw [hopening, haddress, hclosing]
  decide

/-! ### Content -/

/-- A line end or the end of the text stands here. -/
def Ended (rest : List Lexeme) : Prop :=
  kindAhead rest 0 = .docNewline ∨ kindAhead rest 0 = .endOfFile

/-- Reading the pieces of a line. -/
abbrev Pieces (text : String) (tokens : List Token) (before ms rest : List Lexeme)
    (ks : List NodeKind) (first last : Nat) (problems : List Problem) : Prop :=
  Repeats text tokens Whole .docComment (piece? text) before ms rest ks first last problems

theorem lineEnded_eq {c : Cursor} (h : c.Between text tokens before rest) :
    lineEnded c = (kindAhead rest 0 == .docNewline || kindAhead rest 0 == .endOfFile) := by
  rw [lineEnded, Cursor.atEnd, h.kind_eq]

/-- The kinds that content begins with, and those that end it. -/
def starts : List TokenKind :=
  [.docText, .docWhitespace, .docLeftBracket, .docLeftParen, .docLeftAngle, .docNewline, .endOfFile]

theorem kindAhead_link (h : Link ms) (rest : List Lexeme) : kindAhead (ms ++ rest) 0 ∈
    [TokenKind.docLeftBracket, .docLeftParen, .docLeftAngle] := by
  cases h with
  | @helpPage opening _ _ _ hopening _ _ _ =>
    show opening.kind ∈ _
    simp [hopening]
  | @destination opening _ _ hopening _ _ =>
    show opening.kind ∈ _
    simp [hopening]
  | @autolink opening _ _ hopening _ _ =>
    show opening.kind ∈ _
    simp [hopening]

theorem kindAhead_content (h : Content ms) (hrest : Ended rest) :
    kindAhead (ms ++ rest) 0 ∈ starts := by
  cases h with
  | nil => rcases hrest with h | h <;> simp [starts, h]
  | @plain l ls hl hls =>
    show l.kind ∈ _
    rcases hl with h | h <;> simp [starts, h]
  | link hlink hls =>
    rw [List.append_assoc]
    have hsubset : [TokenKind.docLeftBracket, .docLeftParen, .docLeftAngle] ⊆ starts := by decide
    exact hsubset (kindAhead_link hlink _)

/-- The kind stands neither here nor behind white space. -/
def Absent (k : TokenKind) (ls : List Lexeme) : Prop :=
  kindAhead ls 0 ≠ k ∧ (kindAhead ls 0 = .docWhitespace → kindAhead ls 1 ≠ k)

/-- Names and commas come only with their tags and links. -/
theorem absent_content {k : TokenKind} (hk : k ∉ starts) (h : Content ms) (hrest : Ended rest) :
    Absent k (ms ++ rest) := by
  have hne {ls : List Lexeme} (hls : Content ls) : kindAhead (ls ++ rest) 0 ≠ k :=
    fun heq => hk (heq ▸ kindAhead_content hls hrest)
  refine ⟨hne h, fun hspace => ?_⟩
  cases h with
  | nil => rcases hrest with h | h <;> cases h.symm.trans hspace
  | plain hl hls => exact hne hls
  | @link ms ls hlink hls =>
    have hopening := kindAhead_link hlink (ls ++ rest)
    rw [← List.append_assoc, hspace] at hopening
    exact absurd hopening (by decide)

theorem gives_piece {k : TokenKind} {g : TokenKind → Parser (Option (List Outline))}
    {first last : Nat} {problems : List Problem} (hk : kindAhead (ms ++ rest) 0 = k)
    (hnewline : k ≠ .docNewline) (hend : k ≠ .endOfFile)
    (hpiece : piece? text = do if ← look lineEnded then return none else g (← kind))
    (h : Gives text tokens Whole .docComment some (g k) before ms rest ks first last problems) :
    Gives text tokens Whole .docComment some (piece? text) before ms rest ks first last
      problems := by
  rw [hpiece]
  refine Gives.look (b := false) (fun c hc => ?_) (Gives.look (fun c hc => ?_) h)
  · rw [lineEnded_eq hc, hk, beq_eq_false_iff_ne.mpr hnewline, beq_eq_false_iff_ne.mpr hend]
    rfl
  · rw [hc.kind_eq, hk]

theorem not_mem_marks_of_plain (hl : Plain l) : l.kind ∉ marks := by
  rcases hl with hl | hl <;> rw [hl] <;> decide

theorem clean_of_plain (hl : Plain l) : Clean [.token l.kind] :=
  clean_tokens (List.forall_mem_singleton.mpr (not_mem_marks_of_plain hl))

theorem yields_plain (hl : Plain l) :
    Yields text tokens Whole .docComment (piece? text) before [l] rest [.token l.kind] := by
  rcases hl with hl | hl
  all_goals exact gives_piece hl (by decide) (by decide) rfl reads_bump.found

variable (text tokens before rest) in
theorem yields_link (h : Link ms) : ∃ k ∈ links,
    Yields text tokens Whole .docComment (piece? text) before ms rest [k] := by
  cases h with
  | helpPage hopening hname hcall hclosing =>
    exact ⟨_, by decide, gives_piece hopening (by decide) (by decide) rfl
      (goes_helpPageLink hopening hname hcall hclosing).found_one⟩
  | destination hopening haddress hclosing =>
    exact ⟨_, by decide, gives_piece hopening (by decide) (by decide) rfl
      (goes_linkDestination hopening haddress hclosing).found_one⟩
  | autolink hopening haddress hclosing =>
    exact ⟨_, by decide, gives_piece hopening (by decide) (by decide) rfl
      (goes_autolink hopening haddress hclosing).found_one⟩

theorem lineEnded_of_ended {c : Cursor} (hrest : Ended rest)
    (h : c.Between text tokens before rest) : lineEnded c = true := by
  rw [lineEnded_eq h]
  rcases hrest with hrest | hrest <;> rw [hrest] <;> rfl

theorem parses_piece_none {c : Cursor} (hrest : Ended rest)
    (h : c.Between text tokens before rest) : Parses (piece? text) .docComment c c none := by
  rw [Parses, piece?, look_bind, lineEnded_of_ended hrest h]
  rfl

/-- The kinds of the pieces of content: free text, white space and whole links. -/
def pieces : List NodeKind := .token .docText :: .token .docWhitespace :: links

theorem clean_of_subset_pieces (h : ks ⊆ pieces) : Clean ks := by
  have hpieces : Clean pieces := by decide
  exact fun k hk hmem => hpieces k hk (h hmem)

variable (text tokens before) in
/-- Content is read piece by piece. -/
theorem repeats_pieces (h : Content ms) (hrest : Ended rest) :
    ∃ ks ⊆ pieces, Pieces text tokens before ms rest ks 0 0 [] := by
  induction h generalizing before with
  | nil => exact ⟨[], List.nil_subset _, repeats_nil fun c hc => parses_piece_none hrest hc⟩
  | @plain l ls hl hls ih =>
    obtain ⟨ks, hsubset, hks⟩ := ih (before ++ [l])
    have hpiece : NodeKind.token l.kind ∈ pieces := by
      rcases hl with hl | hl <;> rw [hl] <;> decide
    exact ⟨_, List.cons_subset.mpr ⟨hpiece, hsubset⟩,
      (yields_plain hl).repeats (List.cons_ne_nil _ _) hks⟩
  | @link ms ls hms hls ih =>
    obtain ⟨k, hlink, hk⟩ := yields_link text tokens before (ls ++ rest) hms
    obtain ⟨ks, hsubset, hks⟩ := ih (before ++ ms)
    have hpiece : k ∈ pieces := List.mem_cons_of_mem _ (List.mem_cons_of_mem _ hlink)
    refine ⟨_, List.cons_subset.mpr ⟨hpiece, hsubset⟩, hk.repeats (fun hnil => ?_) hks⟩
    subst hnil
    cases hms

variable (text tokens before) in
theorem repeats_content (h : Content ms) (hrest : Ended rest) :
    ∃ ks, Clean ks ∧ Pieces text tokens before ms rest ks 0 0 [] := by
  obtain ⟨ks, hsubset, hks⟩ := repeats_pieces text tokens before h hrest
  exact ⟨ks, clean_of_subset_pieces hsubset, hks⟩

/-! ### Tags -/

theorem not_mem_marks_of_gap (h : Gap ms) : ∀ l ∈ ms, l.kind ∉ marks := by
  rcases h.cases with rfl | ⟨l, rfl, hl⟩
  · exact List.forall_mem_nil _
  · exact List.forall_mem_singleton.mpr (by rw [hl]; decide)

theorem gap?_eq_some {c : Cursor} {front after : List Lexeme} {comma name : Lexeme}
    (hc : c.Between text tokens front (before ++ comma :: (after ++ name :: rest)))
    (hbefore : Gap before) (hcomma : comma.kind = .docComma) (hafter : Gap after)
    (hname : name.kind = .docIdentifier) : gap? c = some (before ++ comma :: after).length := by
  simp only [gap?, hc.kindAhead_eq]
  rcases hbefore.cases with rfl | ⟨b, rfl, hb⟩ <;> rcases hafter.cases with rfl | ⟨a, rfl, ha⟩
  all_goals simp [kindAhead, *]

theorem gap?_eq_none {c : Cursor} (hc : c.Between text tokens before rest)
    (hrest : Absent .docComma rest) : gap? c = none := by
  simp only [gap?, hc.kindAhead_eq]
  by_cases hspace : kindAhead rest 0 = .docWhitespace
  · simp [hspace, hrest.2 hspace]
  · simp [hspace, hrest.1]

/-- The parser of one more name. -/
def moreName? : Parser (Option (List Outline)) := do
  match ← look gap? with
  | some n => return some (← row (List.replicate n bump ++ [one (leaf .roxygenParameter)]))
  | none => return none

variable (text tokens before rest) in
theorem yields_moreName {after : List Lexeme} {comma name : Lexeme} (hbefore : Gap ns)
    (hcomma : comma.kind = .docComma) (hafter : Gap after) (hname : name.kind = .docIdentifier) :
    ∃ ks, Clean ks ∧ Yields text tokens Whole .docComment moreName? before
      (ns ++ comma :: after ++ [name]) rest ks := by
  have hleaf : Goes text tokens (row [one (leaf .roxygenParameter)])
      (before ++ (ns ++ comma :: after)) [name] rest [.roxygenParameter] :=
    (reads_leaf rfl (by rw [hname]; decide)).single
  have hmarks : ∀ l ∈ ns ++ comma :: after, l.kind ∉ marks :=
    List.forall_mem_append.mpr ⟨not_mem_marks_of_gap hbefore,
      List.forall_mem_cons.mpr ⟨by rw [hcomma]; decide, not_mem_marks_of_gap hafter⟩⟩
  refine ⟨_, clean_append.mpr ⟨clean_tokens hmarks, by decide⟩,
    Gives.look (b := some (ns ++ comma :: after).length) (fun c hc => ?_)
      hleaf.after_bumps.found⟩
  rw [List.append_assoc, List.append_assoc, List.cons_append] at hc
  exact gap?_eq_some hc hbefore hcomma hafter hname

variable (text tokens before) in
theorem goes_moreNames (h : MoreNames ms) (hrest : Absent .docComma rest) :
    ∃ ks, Clean ks ∧ Goes text tokens moreNames before ms rest ks := by
  suffices hmany : ∃ ks, Clean ks ∧
      Repeats text tokens Whole .docComment moreName? before ms rest ks 0 0 [] by
    obtain ⟨ks, hclean, hks⟩ := hmany
    exact ⟨ks, hclean, hks.many⟩
  induction h generalizing before with
  | nil =>
    refine ⟨[], by decide, repeats_nil fun c hc => ?_⟩
    rw [Parses, moreName?, look_bind, gap?_eq_none hc hrest]
    rfl
  | @cons comma name b a ls hbefore hcomma hafter hname hls ih =>
    obtain ⟨k, hclean, hk⟩ :=
      yields_moreName text tokens before (ls ++ rest) hbefore hcomma hafter hname
    obtain ⟨ks, hcleans, hks⟩ := ih (before ++ (b ++ comma :: a ++ [name]))
    have hshape : b ++ comma :: (a ++ name :: ls) = b ++ comma :: a ++ [name] ++ ls := by simp
    rw [hshape]
    exact ⟨_, clean_append.mpr ⟨hclean, hcleans⟩,
      hk.repeats (List.append_ne_nil_of_right_ne_nil _ (List.cons_ne_nil _ _)) hks⟩

/-- A `@param` tag with names. -/
theorem goes_paramTag {space name : Lexeme} (hl : l.kind = .docTagName)
    (hspace : space.kind = .docWhitespace) (hname : name.kind = .docIdentifier)
    (hms : MoreNames ms) (hrest : Absent .docComma rest) :
    Goes text tokens (one paramTag) before (l :: space :: name :: ms) rest [.roxygenParamTag] := by
  obtain ⟨ks, hclean, hmore⟩ :=
    goes_moreNames text tokens (before ++ [l] ++ [space] ++ [name]) hms hrest
  have hnames : Goes text tokens (row [do
      if ← isAt .docIdentifier then row [one (leaf .roxygenParameter), moreNames]
      else
        report .noDocParameter
        return []]) (before ++ [l] ++ [space]) ([name] ++ ms) rest _ :=
    Gives.single <| Gives.there hname <|
      Reads.row (reads_leaf rfl (by rw [hname]; decide)) hmore.single
  have hgap : Goes text tokens (do
      if ← look fun c => c.kind == .docWhitespace && c.kindAhead 1 == .docIdentifier then bump
      else return []) (before ++ [l]) [space] (name :: ms ++ rest) [.token space.kind] := by
    refine Gives.look (b := true) (fun c hc => ?_) reads_bump
    rw [hc.kind_eq, hc.kindAhead_eq]
    simp [kindAhead, hspace, hname]
  have hhead : Clean [.token l.kind, .token space.kind, .roxygenParameter] := by
    rw [hl, hspace]
    decide
  refine (Reads.row hgap hnames).after_bump.node rfl (Clean.whole ?_ (by decide))
  exact clean_append.mpr ⟨hhead, hclean⟩

/-- A `@param` tag without a name. -/
theorem gives_paramTag (hl : l.kind = .docTagName) (hrest : Absent .docIdentifier rest) :
    Gives text tokens Whole .docComment id (one paramTag) before [l] rest [.roxygenParamTag]
      before.length (before.length + 2) [.noDocParameter] := by
  have hgap : Goes text tokens (do
      if ← look fun c => c.kind == .docWhitespace && c.kindAhead 1 == .docIdentifier then bump
      else return []) (before ++ [l]) [] rest [] := by
    refine Gives.look (b := false) (fun c hc => ?_) reads_nothing
    rw [hc.kind_eq, hc.kindAhead_eq, List.nil_append]
    by_cases hspace : kindAhead rest 0 = .docWhitespace
    · simp [hspace, hrest.2 hspace]
    · simp [hspace]
  have hreport : Gives text tokens Whole .docComment id (do
      if ← isAt .docIdentifier then row [one (leaf .roxygenParameter), moreNames]
      else
        report .noDocParameter
        return []) (before ++ [l] ++ []) [] rest [] (before ++ [l] ++ []).length
        ((before ++ [l] ++ []).length + 1) [.noDocParameter] :=
    Gives.elsewhere hrest.1 reads_nothing.after_report
  exact ((Reads.then hgap hreport.single).after_bump.node rfl (by rw [hl]; decide)).widen
    (by simp) (by simp)

/-- A tag, whose text tells whether it is one for parameters. -/
theorem gives_tag {first last : Nat} {problems : List Problem} (hl : l.kind = .docTagName)
    (h : Gives text tokens Whole .docComment some
      (if l.chars = "@param".toList then do return some [← paramTag]
       else do return some [← leaf .roxygenTag]) before (l :: ms) rest ks first last problems) :
    Gives text tokens Whole .docComment some (piece? text) before (l :: ms) rest ks first last
      problems := by
  have hsame : String.ofList l.chars = "@param" ↔ l.chars = "@param".toList :=
    ⟨fun h => by rw [← h, String.toList_ofList], fun h => by rw [h, String.ofList_toList]⟩
  refine gives_piece hl (by decide) (by decide) rfl (Gives.look (b := l.chars = "@param".toList)
    (fun c hc => ?_) ?_)
  · rw [hc.text_here, beq_eq_decide]
    exact decide_eq_decide.mpr hsame
  · simpa only [decide_eq_true_eq] using h

/-! ### Lines -/

variable {problems : List Problem}

variable (text tokens before) in
/-- What stands behind the marker is read piece by piece. -/
theorem repeats_marked (h : Marked ms problems) (hrest : Ended rest) :
    ∃ ks, Clean ks ∧ Pieces text tokens before ms rest ks before.length
      (before.length + ms.length + 1) problems := by
  induction h generalizing before with
  | @gap l ls problems hl hls ih =>
    obtain ⟨ks, hclean, hks⟩ := ih (before ++ [l])
    have hrepeats := (yields_plain (.inr hl)).repeats (List.cons_ne_nil _ _) hks
    exact ⟨_, clean_append.mpr ⟨clean_of_plain (.inr hl), hclean⟩,
      hrepeats.widen (by simp) (by grind)⟩
  | content hls =>
    obtain ⟨ks, hclean, hks⟩ := repeats_content text tokens before hls hrest
    exact ⟨ks, hclean, hks.anywhere (by omega)⟩
  | @tag l ls hl hother hls =>
    obtain ⟨ks, hclean, hks⟩ := repeats_content text tokens (before ++ [l]) hls hrest
    have htag : Yields text tokens Whole .docComment (piece? text) before [l] (ls ++ rest)
        [.roxygenTag] := by
      refine gives_tag hl ?_
      rw [if_neg hother]
      exact Gives.found_one (reads_leaf rfl (by rw [hl]; decide))
    exact ⟨_, clean_append.mpr ⟨by decide, hclean⟩,
      htag.repeats (List.cons_ne_nil _ _) (hks.anywhere (by omega))⟩
  | @named l space name ms ls hl hparam hspace hname hms hls =>
    obtain ⟨ks, hclean, hks⟩ :=
      repeats_content text tokens (before ++ l :: space :: name :: ms) hls hrest
    have htag : Yields text tokens Whole .docComment (piece? text) before
        (l :: space :: name :: ms) (ls ++ rest) [.roxygenParamTag] := by
      refine gives_tag hl ?_
      rw [if_pos hparam]
      exact (goes_paramTag hl hspace hname hms (absent_content (by decide) hls hrest)).found_one
    exact ⟨_, clean_append.mpr ⟨by decide, hclean⟩,
      htag.repeats (List.cons_ne_nil _ _) (hks.anywhere (by omega))⟩
  | @unnamed l ls hl hparam hls =>
    obtain ⟨ks, hclean, hks⟩ := repeats_content text tokens (before ++ [l]) hls hrest
    have htag : Gives text tokens Whole .docComment some (piece? text) before [l] (ls ++ rest)
        [.roxygenParamTag] before.length (before.length + 2) [.noDocParameter] := by
      refine gives_tag hl ?_
      rw [if_pos hparam]
      exact (gives_paramTag hl (absent_content (by decide) hls hrest)).found_one
    exact ⟨_, clean_append.mpr ⟨by decide, hclean⟩,
      htag.repeats (List.cons_ne_nil _ _) (hks.anywhere (by simp))⟩

/-- White space before the marker, if there is some. -/
theorem goes_gap (hgap : Gap ms) (hrest : ms = [] → kindAhead rest 0 ≠ .docWhitespace) :
    Goes text tokens (eat .docWhitespace) before ms rest ((ms.map Lexeme.kind).map .token) := by
  rcases hgap.cases with rfl | ⟨l, rfl, hl⟩
  · exact reads_eat_nothing (hrest rfl)
  · exact reads_eat hl

variable (text tokens before) in
/-- A line with a marker. -/
theorem gives_marked (hl : l.kind = .docMarker) (hms : Marked ms problems)
    (hrest : Ended rest) : ∃ ks, Clean ks ∧ Gives text tokens Whole .docComment id (content text)
      before (l :: ms) rest ks before.length (before.length + (l :: ms).length + 1) problems := by
  obtain ⟨ks, hclean, hks⟩ := repeats_marked text tokens (before ++ [l]) hms hrest
  have hcontent : Gives text tokens Whole .docComment id (content text) before (l :: ms) rest _ _ _
      problems := Gives.there hl hks.many.single.after_bump
  have hmarker : Clean [.token l.kind] := by
    rw [hl]
    decide
  exact ⟨_, clean_append.mpr ⟨hmarker, hclean⟩, hcontent.widen (by simp) (by grind)⟩

/-- What is skipped of a line without a marker. -/
theorem goes_skipped (hms : ∀ l ∈ ms, Plain l) (hrest : Ended rest) :
    Goes text tokens (bumpWhile fun c => !lineEnded c) before ms rest
      ((ms.map Lexeme.kind).map .token) := by
  refine reads_bumpWhile (g := fun k => !(k == .docNewline || k == .endOfFile)) (fun _ => rfl)
    (fun l hl => ?_) ?_
  · rcases hms l hl with hl | hl <;> rw [hl] <;> rfl
  · rcases hrest with hrest | hrest
    · rw [hrest]
      exact .inr rfl
    · exact .inl hrest

theorem goes_blank (hrest : Ended rest) : Goes text tokens (content text) before [] rest [] := by
  refine Gives.elsewhere ?_ (Gives.look (b := true) (fun c hc => lineEnded_of_ended hrest hc)
    (goes_skipped (List.forall_mem_nil _) hrest))
  rcases hrest with hrest | hrest <;> rw [List.nil_append, hrest] <;> decide

/-- A line without a marker. -/
theorem gives_unmarked (hl : Plain l) (hms : ∀ m ∈ ms, Plain m) (hrest : Ended rest) :
    Gives text tokens Whole .docComment id (content text) before (l :: ms) rest
      (((l :: ms).map Lexeme.kind).map .token) before.length (before.length + 1)
      [.noDocMarker] := by
  have hskipped : Goes text tokens (bumpWhile fun c => !lineEnded c) before (l :: ms) rest _ :=
    goes_skipped (List.forall_mem_cons.mpr ⟨hl, hms⟩) hrest
  have hne {k : TokenKind} (hk : k ∉ starts) : l.kind ≠ k := by
    rintro rfl
    rcases hl with hl | hl <;> exact hk (by simp [starts, hl])
  refine Gives.elsewhere (hne (by decide)) (Gives.look (b := false) (fun c hc => ?_)
    hskipped.after_report)
  rw [lineEnded_eq hc]
  show (l.kind == .docNewline || l.kind == .endOfFile) = false
  rcases hl with hl | hl <;> rw [hl] <;> rfl

/-- The end of a line: a line end, or the end of the text. -/
def Tail (ms rest : List Lexeme) : Prop :=
  (ms = [] ∧ rest = []) ∨ ∃ newline, ms = [newline] ∧ newline.kind = .docNewline

theorem Tail.ended (h : Tail ms rest) : Ended (ms ++ rest) := by
  rcases h with ⟨rfl, rfl⟩ | ⟨newline, rfl, hnewline⟩
  · exact .inr rfl
  · exact .inl hnewline

theorem Tail.not_mem_marks (h : Tail ms rest) : ∀ l ∈ ms, l.kind ∉ marks := by
  rcases h with ⟨rfl, rfl⟩ | ⟨newline, rfl, hnewline⟩
  · exact List.forall_mem_nil _
  · exact List.forall_mem_singleton.mpr (by rw [hnewline]; decide)

theorem goes_tail (h : Tail ms rest) : Goes text tokens (eat .docNewline) before ms rest
    ((ms.map Lexeme.kind).map .token) := by
  rcases h with ⟨rfl, rfl⟩ | ⟨newline, rfl, hnewline⟩
  · exact reads_eat_nothing (by decide)
  · exact reads_eat hnewline

/-- The parts of a line. -/
abbrev parts (text : String) : Part := row [eat .docWhitespace, content text, eat .docNewline]

/-- White space and what a line has behind it, and the end of the line. -/
theorem gives_parts {gap tail : List Lexeme} {ls : List NodeKind}
    (hgap : Gap gap) (hfirst : gap = [] → kindAhead (ms ++ tail ++ rest) 0 ≠ .docWhitespace)
    (htail : Tail tail rest) (hclean : Clean ls)
    (h : Gives text tokens Whole .docComment id (content text) (before ++ gap) ms (tail ++ rest) ls
      (before ++ gap).length ((before ++ gap).length + ms.length + 1) problems) :
    ∃ ks, Clean ks ∧ Gives text tokens Whole .docComment id (parts text) before
      (gap ++ ms ++ tail) rest ks before.length (before.length + (gap ++ ms).length + 1)
      problems := by
  have hrow : Gives text tokens Whole .docComment id (row [content text, eat .docNewline])
      (before ++ gap) (ms ++ tail) rest _ _ _ (problems ++ []) :=
    h.row ((goes_tail htail).single.anywhere (Nat.le_refl _))
  rw [List.append_nil] at hrow
  have hwhole := Reads.then (goes_gap hgap hfirst) hrow
  rw [← List.append_assoc] at hwhole
  exact ⟨_, clean_append.mpr ⟨clean_tokens (not_mem_marks_of_gap hgap),
    clean_append.mpr ⟨hclean, clean_tokens htail.not_mem_marks⟩⟩, hwhole.widen (by simp) (by grind)⟩

variable (text tokens before) in
/-- A line and its end. -/
theorem exists_gives_parts {tail : List Lexeme} (h : Line ms problems) (htail : Tail tail rest) :
    ∃ ks, Clean ks ∧ Gives text tokens Whole .docComment id (parts text) before (ms ++ tail) rest ks
      before.length (before.length + ms.length + 1) problems := by
  have hended := htail.ended
  cases h with
  | blank hgap =>
    rw [← List.append_nil ms]
    refine gives_parts hgap (fun _ => ?_) htail (by decide)
      ((goes_blank hended).anywhere (by omega))
    rcases hended with hended | hended <;> rw [List.nil_append, hended] <;> decide
  | @marked gap ls marker _ hgap hmarker hls =>
    obtain ⟨ks, hclean, hks⟩ := gives_marked text tokens (before ++ gap) hmarker hls hended
    refine gives_parts hgap (fun _ => ?_) htail hclean hks
    show marker.kind ≠ _
    rw [hmarker]
    decide
  | @unmarked gap ls l hgap hl hfirst hls =>
    have hmarks : ∀ m ∈ l :: ls, m.kind ∉ marks :=
      List.forall_mem_cons.mpr
        ⟨not_mem_marks_of_plain hl, fun m hm => not_mem_marks_of_plain (hls m hm)⟩
    refine gives_parts hgap hfirst htail (clean_tokens hmarks)
      ((gives_unmarked hl hls hended).widen (Nat.le_refl _) ?_)
    omega

variable (text tokens before) in
theorem gives_line {tail : List Lexeme} (h : Line ms problems) (htail : Tail tail rest)
    (hsome : ms ++ tail ≠ []) : ∃ ks, Clean ks ∧
    Gives text tokens Whole .docComment some (line? text) before (ms ++ tail) rest ks
      before.length (before.length + ms.length + 1) problems := by
  obtain ⟨ks, hclean, hks⟩ := exists_gives_parts text tokens before h htail
  obtain ⟨l, ls, hls⟩ := List.exists_cons_of_ne_nil hsome
  rw [hls] at hks ⊢
  exact ⟨ks, hclean, Gives.look (b := false) (fun c hc => hc.atEnd_eq) hks.found⟩

variable (text tokens before) in
/-- The lines up to the end of the text. -/
theorem repeats_lines (h : Lines ms problems) :
    ∃ ks, Clean ks ∧ Repeats text tokens Whole .docComment (line? text) before ms [] ks
      before.length (before.length + ms.length + 1) problems := by
  have hnone (before : List Lexeme) : Repeats text tokens Whole .docComment (line? text) before []
      [] [] 0 0 [] := repeats_nil fun c hc => by
    rw [Parses, line?, atEnd, look_bind, Cursor.atEnd, hc.kind_eq]
    rfl
  induction h generalizing before with
  | @last ls problems hls =>
    rcases eq_or_ne ls [] with rfl | hsome
    · obtain rfl := hls.problems_eq_nil rfl
      exact ⟨[], by decide, (hnone before).anywhere (by omega)⟩
    · obtain ⟨ks, hclean, hks⟩ :=
        gives_line text tokens before hls (.inl ⟨rfl, rfl⟩) (by simpa using hsome)
      have hmany := hks.repeats (by simpa using hsome) ((hnone _).anywhere (Nat.le_refl _))
      simp only [List.append_nil] at hmany
      exact ⟨ks, hclean, hmany⟩
  | @cons ls ms newline problems more hls hnewline hms ih =>
    have htail : Tail [newline] (ms ++ []) := .inr ⟨newline, rfl, hnewline⟩
    obtain ⟨k, hclean, hk⟩ := gives_line text tokens before hls htail (by simp)
    obtain ⟨ks, hcleans, hks⟩ := ih (before ++ (ls ++ [newline]))
    have hmany := hk.repeats (by simp) (hks.widen (by grind) (Nat.le_refl _))
    rw [List.append_cons]
    exact ⟨_, clean_append.mpr ⟨hclean, hcleans⟩, hmany.widen (Nat.le_refl _) (by grind)⟩

/-- A whole doc comment. -/
theorem gives_comment (h : Lines ms problems) :
    Gives text tokens Whole .docComment id (one (comment text)) [] ms [] [.roxygenComment] 0
      (ms.length + 1) problems := by
  obtain ⟨ks, hclean, hks⟩ := repeats_lines text tokens [] h
  rw [List.length_nil, Nat.zero_add] at hks
  exact hks.many.single.node rfl (hclean.whole (by decide))

end RSource.Grammar.DocComment
