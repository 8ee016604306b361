import RSource.Parser.Problem
import RSource.Proofs.Lexeme.Doc

/-! The form of the lexemes of doc comments.  Brackets, names and addresses come only as parts of
whole links and of parameter lists, whatever the text is; and the form of a line tells what is wrong
with it. -/

namespace RSource.Lexeme.Doc

variable {l : Lexeme} {ls ms : List Lexeme} {cs left : List Char} {c : Char}

/-! ### Problems of a text -/

/-- White space and a name begin the characters. -/
def namesParameter (cs : List Char) : Bool :=
  cs.head?.any isGap && (nameLength? (cs.dropWhile isGap)).isSome

/-- What is wrong with the content of a line: a `@param` tag that names no parameter. -/
def contentProblems : List Char → List Problem
  | '@' :: rest =>
    let name := rest.takeWhile isTagChar
    if name = "param".toList && !namesParameter (rest.drop name.length) then [.noDocParameter]
    else []
  | _ => []

/-- What is wrong with the characters of a line, given whether a carriage return behind them ends
the text: such a return counts as content if white space stands before it.  A line that is not blank
needs a marker. -/
def bodyProblems (cs : List Char) (returned : Bool) : List Problem :=
  match cs.dropWhile isGap with
  | '#' :: '\x27' :: rest => contentProblems (rest.dropWhile isGap)
  | body => if body.isEmpty && (!returned || cs.isEmpty) then [] else [.noDocMarker]

/-- What is wrong with a line, given whether a line end follows it. -/
def lineProblems (cs : List Char) (ended : Bool) : List Problem :=
  let returned := cs.getLast? = some '\r'
  bodyProblems (if returned then cs.dropLast else cs) (returned && !ended)

/-- What is wrong with lines, of which the last has no line end. -/
def linesProblems : List (List Char) → List Problem
  | [] => []
  | [line] => lineProblems line false
  | line :: lines => lineProblems line true ++ linesProblems lines

/-- What is wrong with a doc comment, line by line. -/
def problems (cs : List Char) : List Problem := linesProblems (cs.splitOn '\n')

/-! ### Content -/

/-- The lexeme is free text or white space. -/
def Plain (l : Lexeme) : Prop := l.kind = .docText ∨ l.kind = .docWhitespace

/-- The kinds of a name in a link, with or without a package. -/
def names : List (List TokenKind) :=
  [[.docIdentifier], [.docIdentifier, .docDoubleColon, .docIdentifier]]

/-- The kinds of the parentheses behind the name of a function, or nothing. -/
def calls : List (List TokenKind) := [[], [.docLeftParen, .docRightParen]]

/-- The lexemes of a link, or those of the destination of one. -/
inductive Link : List Lexeme → Prop
  | helpPage {opening closing : Lexeme} {name call : List Lexeme}
      (hopening : opening.kind = .docLeftBracket) (hname : name.map Lexeme.kind ∈ names)
      (hcall : call.map Lexeme.kind ∈ calls) (hclosing : closing.kind = .docRightBracket) :
    Link (opening :: (name ++ (call ++ [closing])))
  | destination {opening closing : Lexeme} {address : List Lexeme}
      (hopening : opening.kind = .docLeftParen)
      (haddress : address.map Lexeme.kind ∈ [[], [.docText]])
      (hclosing : closing.kind = .docRightParen) : Link (opening :: (address ++ [closing]))
  | autolink {opening address closing : Lexeme} (hopening : opening.kind = .docLeftAngle)
      (haddress : address.kind = .docAutolinkUri) (hclosing : closing.kind = .docRightAngle) :
    Link [opening, address, closing]

/-- Free text, white space and whole links. -/
inductive Content : List Lexeme → Prop
  | nil : Content []
  | plain {l : Lexeme} {ls : List Lexeme} (hl : Plain l) (hls : Content ls) : Content (l :: ls)
  | link {ms ls : List Lexeme} (hms : Link ms) (hls : Content ls) : Content (ms ++ ls)

theorem Content.append (h : Content ls) (h' : Content ms) : Content (ls ++ ms) := by
  induction h with
  | nil => exact h'
  | plain hl _ ih => exact .plain hl ih
  | link hlink _ ih =>
    rw [List.append_assoc]
    exact .link hlink ih

theorem Link.content (h : Link ls) : Content ls := by
  rw [← List.append_nil ls]
  exact .link h .nil

theorem map_kind_nonempty (k : TokenKind) (w : List Char) :
    (nonempty k w).map Lexeme.kind ∈ [[], [k]] := by
  rw [nonempty]
  split
  · exact List.mem_cons_self
  · exact List.mem_cons_of_mem _ List.mem_cons_self

theorem content_nonempty {k : TokenKind} (hk : k = .docText ∨ k = .docWhitespace)
    (w : List Char) : Content (nonempty k w) := by
  rw [nonempty]
  split
  · exact .nil
  · exact .plain hk .nil

theorem content_freeText (cs : List Char) : Content (freeText cs) :=
  ((content_nonempty (.inr rfl) _).append (content_nonempty (.inl rfl) _)).append
    (content_nonempty (.inr rfl) _)

theorem content_markdownLink? (h : markdownLink? cs = some ls) : Content ls := by
  simp only [markdownLink?] at h
  split at h
  · next rest _ =>
    split at h
    · obtain rfl := Option.some.inj h
      exact .plain (.inl rfl) (Link.content (.destination rfl (map_kind_nonempty _ _) rfl))
    · cases h
  · cases h

theorem kinds_qualified? {rest : List Char} (h : qualified? cs = some (ls, rest))
    (w : List Char) : (⟨.docIdentifier, w⟩ :: ls).map Lexeme.kind ∈ names := by
  unfold qualified? at h
  split at h
  · obtain ⟨n, -, hfound⟩ := Option.map_eq_some_iff.mp h
    cases hfound
    exact List.mem_cons_of_mem _ List.mem_cons_self
  · obtain ⟨rfl, -⟩ := Prod.mk.inj (Option.some.inj h)
    exact List.mem_cons_self

theorem link_helpPageLink? (h : helpPageLink? cs = some ls) : Link ls := by
  obtain ⟨n, -, h⟩ := Option.bind_eq_some_iff.mp h
  obtain ⟨⟨more, rest⟩, hmore, h⟩ := Option.bind_eq_some_iff.mp h
  have hname := kinds_qualified? hmore (cs.take n)
  simp only at h
  split at h
  · obtain rfl := Option.some.inj h
    have hlink : Link (⟨.docLeftBracket, ['[']⟩ :: (⟨.docIdentifier, cs.take n⟩ :: more ++
        ([⟨.docLeftParen, ['(']⟩, ⟨.docRightParen, [')']⟩] ++ [⟨.docRightBracket, [']']⟩]))) :=
      .helpPage rfl hname (List.mem_cons_of_mem _ List.mem_cons_self) rfl
    exact hlink
  · obtain rfl := Option.some.inj h
    have hlink : Link (⟨.docLeftBracket, ['[']⟩ :: (⟨.docIdentifier, cs.take n⟩ :: more ++
        ([] ++ [⟨.docRightBracket, [']']⟩]))) :=
      .helpPage rfl hname List.mem_cons_self rfl
    exact hlink
  · cases h

theorem link_autolink? (h : autolink? cs = some ls) : Link ls := by
  simp only [autolink?] at h
  split at h
  · obtain rfl := Option.some.inj h
    exact .autolink rfl rfl rfl
  · cases h

theorem content_link? (h : link? c cs = some ls) : Content ls := by
  rw [link?] at h
  split at h
  · rcases Option.or_eq_some_iff.mp h with h | ⟨-, h⟩
    · exact content_markdownLink? h
    · exact (link_helpPageLink? h).content
  · split at h
    · exact (link_autolink? h).content
    · cases h

theorem content_contentFrom (cs : List Char) : ∀ (taken : Nat) (text : List Char),
    Content (contentFrom taken text cs) := by
  induction cs with
  | nil => exact fun _ _ => content_freeText _
  | cons c cs ih =>
    intro taken text
    cases taken with
    | succ taken => exact ih taken text
    | zero =>
      rw [contentFrom]
      cases hlink : link? c cs with
      | none => exact ih 0 (c :: text)
      | some ls => exact ((content_freeText _).append (content_link? hlink)).append (ih _ _)

theorem content_content (cs : List Char) : Content (content cs) := content_contentFrom cs 0 []

/-! ### Lines -/

/-- White space, or nothing. -/
def Gap (ls : List Lexeme) : Prop := ls.map Lexeme.kind ∈ [[], [.docWhitespace]]

theorem gap_nonempty (w : List Char) : Gap (nonempty .docWhitespace w) :=
  map_kind_nonempty .docWhitespace w

theorem Gap.cases (h : Gap ls) : ls = [] ∨ ∃ l, ls = [l] ∧ l.kind = .docWhitespace := by
  rcases List.mem_cons.mp h with h | h
  · exact .inl (List.map_eq_nil_iff.mp h)
  · exact .inr (List.map_eq_singleton_iff.mp (List.mem_singleton.mp h))

/-- Names of parameters, each with a comma before it and white space around the comma. -/
inductive MoreNames : List Lexeme → Prop
  | nil : MoreNames []
  | cons {comma name : Lexeme} {before after ls : List Lexeme} (hbefore : Gap before)
      (hcomma : comma.kind = .docComma) (hafter : Gap after) (hname : name.kind = .docIdentifier)
      (hls : MoreNames ls) : MoreNames (before ++ comma :: (after ++ name :: ls))

/-- What stands behind a marker, and what is wrong with it. -/
inductive Marked : List Lexeme → List Problem → Prop
  | gap {l : Lexeme} {ls : List Lexeme} {problems : List Problem} (hl : l.kind = .docWhitespace)
      (hls : Marked ls problems) : Marked (l :: ls) problems
  | content {ls : List Lexeme} (hls : Content ls) : Marked ls []
  | tag {l : Lexeme} {ls : List Lexeme} (hl : l.kind = .docTagName)
      (hother : l.chars ≠ "@param".toList) (hls : Content ls) : Marked (l :: ls) []
  | named {l space name : Lexeme} {ms ls : List Lexeme} (hl : l.kind = .docTagName)
      (hparam : l.chars = "@param".toList) (hspace : space.kind = .docWhitespace)
      (hname : name.kind = .docIdentifier) (hms : MoreNames ms) (hls : Content ls) :
    Marked (l :: space :: name :: (ms ++ ls)) []
  | unnamed {l : Lexeme} {ls : List Lexeme} (hl : l.kind = .docTagName)
      (hparam : l.chars = "@param".toList) (hls : Content ls) : Marked (l :: ls) [.noDocParameter]

/-- The lexemes of a line before its line end, and what is wrong with it. -/
inductive Line : List Lexeme → List Problem → Prop
  | blank {gap : List Lexeme} (hgap : Gap gap) : Line gap []
  | marked {gap ls : List Lexeme} {marker : Lexeme} {problems : List Problem} (hgap : Gap gap)
      (hmarker : marker.kind = .docMarker) (hls : Marked ls problems) :
    Line (gap ++ marker :: ls) problems
  | unmarked {gap ls : List Lexeme} {l : Lexeme} (hgap : Gap gap) (hl : Plain l)
      (hfirst : gap = [] → l.kind ≠ .docWhitespace) (hls : ∀ m ∈ ls, Plain m) :
    Line (gap ++ l :: ls) [.noDocMarker]

theorem Line.problems_eq_nil {problems : List Problem} (h : Line ls problems) (hls : ls = []) :
    problems = [] := by
  cases h with
  | blank hgap => rfl
  | marked hgap hmarker hmarked => cases List.append_eq_nil_iff.mp hls |>.2
  | unmarked hgap hl hfirst hplain => cases List.append_eq_nil_iff.mp hls |>.2

/-- The lexemes of lines. -/
inductive Lines : List Lexeme → List Problem → Prop
  | last {ls : List Lexeme} {problems : List Problem} (h : Line ls problems) : Lines ls problems
  | cons {ls ms : List Lexeme} {newline : Lexeme} {problems more : List Problem}
      (h : Line ls problems) (hnewline : newline.kind = .docNewline) (hms : Lines ms more) :
    Lines (ls ++ newline :: ms) (problems ++ more)

/-- The carriage return at the end of a text. -/
def ending (returned : Bool) : List Lexeme :=
  if returned then [⟨.docWhitespace, ['\r']⟩] else []

theorem content_ending (returned : Bool) : Content (ending returned) := by
  cases returned with
  | false => exact .nil
  | true => exact .plain (.inr rfl) .nil

theorem moreNames_moreParameters (bound : Nat) : ∀ cs, MoreNames (moreParameters bound cs).1 := by
  induction bound with
  | zero => exact fun _ => .nil
  | succ bound ih =>
    intro cs
    rw [moreParameters]
    cases nextParameter? cs with
    | none => exact .nil
    | some found =>
      obtain ⟨before, after, n⟩ := found
      simp only [List.append_assoc, List.cons_append]
      exact .cons (gap_nonempty _) rfl (gap_nonempty _) rfl (ih _)

theorem runLength_isGap_eq_zero_iff : runLength isGap cs = 0 ↔ cs.head?.any isGap = false := by
  cases cs with
  | nil => exact iff_of_true rfl rfl
  | cons c cs =>
    rw [runLength_cons, List.head?_cons, Option.any_some]
    cases isGap c with
    | true => exact iff_of_false (Nat.succ_ne_zero _) Bool.noConfusion
    | false => exact iff_of_true rfl rfl

/-- The lexer finds names of parameters exactly where white space and a name stand. -/
theorem parameters_cases (cs : List Char) :
    (namesParameter cs = true ∧ ∃ space name ms, (parameters cs).1 = space :: name :: ms ∧
      space.kind = .docWhitespace ∧ name.kind = .docIdentifier ∧ MoreNames ms) ∨
    (namesParameter cs = false ∧ parameters cs = ([], cs)) := by
  have hdrop : cs.drop (runLength isGap cs) = cs.dropWhile isGap := drop_length_takeWhile isGap cs
  simp only [namesParameter, parameters, hdrop]
  cases hname : nameLength? (cs.dropWhile isGap) with
  | none => exact .inr ⟨Bool.and_false _, rfl⟩
  | some n =>
    cases hgap : cs.head?.any isGap with
    | false => exact .inr ⟨rfl, if_pos (runLength_isGap_eq_zero_iff.mpr hgap)⟩
    | true =>
      have hsome : runLength isGap cs ≠ 0 := fun hzero => by
        rw [runLength_isGap_eq_zero_iff.mp hzero] at hgap
        cases hgap
      simp only [if_neg hsome]
      exact .inl ⟨rfl, _, _, _, rfl, rfl, rfl, moreNames_moreParameters _ _⟩

/-- The lexemes behind a marker, with a carriage return at the end of the text. -/
theorem marked_form (cs : List Char) (returned : Bool) :
    Marked (marked cs ++ ending returned) (contentProblems cs) := by
  have hcontent (ds : List Char) : Content (content ds ++ ending returned) :=
    (content_content ds).append (content_ending returned)
  unfold marked
  split
  · next rest =>
    simp only [contentProblems]
    generalize rest.takeWhile isTagChar = name
    by_cases hparam : name = "param".toList
    · subst hparam
      have htag : ¬ "param".toList.isEmpty = true := by decide
      rw [if_neg htag, if_pos rfl, decide_eq_true rfl, Bool.true_and]
      rcases parameters_cases (rest.drop "param".toList.length) with
        ⟨hnamed, space, word, ms, hwords, hspace, hword, hms⟩ | ⟨hnone, hwords⟩
      · rw [hnamed, Bool.not_true, if_neg Bool.false_ne_true, hwords]
        simp only [List.append_assoc, List.cons_append]
        exact .named rfl rfl hspace hword hms (hcontent _)
      · rw [hnone, Bool.not_false, if_pos rfl, hwords]
        exact .unnamed rfl rfl (hcontent _)
    · rw [if_neg hparam, decide_eq_false hparam, Bool.false_and, if_neg Bool.false_ne_true]
      split
      · exact .content (hcontent _)
      · refine .tag rfl (fun hchars => hparam ?_) (hcontent _)
        exact (List.cons.inj hchars).2
  · next hother =>
    have hnone : contentProblems cs = [] := by
      unfold contentProblems
      split
      · next rest => exact absurd rfl (hother rest)
      · rfl
    rw [hnone]
    exact .content (hcontent _)

theorem Marked.before {problems : List Problem} (h : Marked ls problems) (w : List Char) :
    Marked (nonempty .docWhitespace w ++ ls) problems := by
  rw [nonempty]
  split
  · exact h
  · exact .gap rfl h

theorem plain_ending (returned : Bool) : ∀ l ∈ ending returned, Plain l := by
  cases returned with
  | false => exact List.forall_mem_nil _
  | true => exact List.forall_mem_singleton.mpr (.inr rfl)

/-- No marker begins the characters. -/
def Unmarked (cs : List Char) : Prop := ∀ rest, cs ≠ '#' :: '\x27' :: rest

theorem line_of_unmarked (h : Unmarked (cs.dropWhile isGap)) : line cs =
    nonempty .docWhitespace (cs.takeWhile isGap) ++ nonempty .docText (cs.dropWhile isGap) := by
  simp only [line]
  generalize cs.dropWhile isGap = body at h
  split
  · next rest => exact absurd rfl (h rest)
  · rfl

theorem bodyProblems_of_unmarked (h : Unmarked (cs.dropWhile isGap)) (returned : Bool) :
    bodyProblems cs returned =
      if (cs.dropWhile isGap).isEmpty && (!returned || cs.isEmpty) then []
      else [.noDocMarker] := by
  simp only [bodyProblems]
  generalize cs.dropWhile isGap = body at h
  split
  · next rest => exact absurd rfl (h rest)
  · rfl

/-- The lexemes of a line, with a carriage return at the end of the text. -/
theorem line_form (cs : List Char) (returned : Bool) :
    Line (line cs ++ ending returned) (bodyProblems cs returned) := by
  have hgap := gap_nonempty (cs.takeWhile isGap)
  by_cases hmarked : ∃ rest, cs.dropWhile isGap = '#' :: '\x27' :: rest
  · obtain ⟨rest, hbody⟩ := hmarked
    have hmarked := (marked_form (rest.dropWhile isGap) returned).before (rest.takeWhile isGap)
    rw [← List.append_assoc] at hmarked
    rw [line, bodyProblems, hbody, List.append_assoc]
    exact .marked hgap rfl hmarked
  · have hunmarked : Unmarked (cs.dropWhile isGap) := fun rest hrest => hmarked ⟨rest, hrest⟩
    have hsplit := List.takeWhile_append_dropWhile (p := isGap) (l := cs)
    rw [line_of_unmarked hunmarked, bodyProblems_of_unmarked hunmarked, List.append_assoc]
    generalize cs.dropWhile isGap = body at hsplit
    generalize cs.takeWhile isGap = gap at hgap hsplit
    cases body with
    | cons c body =>
      rw [List.isEmpty_cons, Bool.false_and, if_neg Bool.false_ne_true]
      exact .unmarked hgap (.inl rfl) (fun _ => TokenKind.noConfusion) (plain_ending returned)
    | nil =>
      rw [List.append_nil] at hsplit
      subst hsplit
      cases returned with
      | false => simpa [nonempty, ending] using Line.blank hgap
      | true =>
        cases gap with
        | nil => exact .blank (List.mem_cons_of_mem _ List.mem_cons_self)
        | cons c gap => 
          have hsome : nonempty .docWhitespace (c :: gap) ≠ [] := List.cons_ne_nil _ _
          exact .unmarked hgap (.inr rfl) (fun hnil => absurd hnil hsome) (List.forall_mem_nil _)

theorem line_lineWithEnd (cs : List Char) (ended : Bool) : ∃ ls,
    Line ls (lineProblems cs ended) ∧ ∃ newline, newline.kind = .docNewline ∧
      lineWithEnd cs ended = ls ++ if ended then [newline] else [] := by
  simp only [lineWithEnd, lineProblems]
  by_cases hreturned : cs.getLast? = some '\r'
  · simp only [hreturned, if_true, decide_true, Bool.true_and]
    cases ended with
    | true =>
      exact ⟨_, line_form _ _, ⟨.docNewline, ['\r', '\n']⟩, rfl, by simp [ending]⟩
    | false =>
      exact ⟨_, line_form _ _, ⟨.docNewline, ['\n']⟩, rfl, by simp [ending]⟩
  · simp only [hreturned, if_false, decide_false, Bool.false_and]
    refine ⟨_, line_form _ _, ⟨.docNewline, ['\n']⟩, rfl, by simp [ending]⟩

theorem lines_linesFrom (cs : List Char) : ∀ current, Lines (linesFrom current cs)
    (linesProblems (List.splitOnPPrepend (· == '\n') cs current)) := by
  induction cs with
  | nil =>
    intro current
    obtain ⟨ls, hls, newline, -, heq⟩ := line_lineWithEnd current.reverse false
    rw [linesFrom, heq]
    simpa [List.splitOnPPrepend, linesProblems] using Lines.last hls
  | cons c cs ih =>
    intro current
    rw [linesFrom, List.splitOnPPrepend.eq_2]
    by_cases hc : c = '\n'
    · rw [if_pos hc, if_pos (beq_iff_eq.mpr hc)]
      obtain ⟨ls, hls, newline, hnewline, heq⟩ := line_lineWithEnd current.reverse true
      obtain ⟨line, lines, hlines⟩ := List.exists_cons_of_ne_nil
        (List.splitOnPPrepend_ne_nil (· == '\n') cs [])
      have hrest := ih []
      rw [hlines] at hrest ⊢
      rw [heq, if_pos rfl, List.append_assoc, List.singleton_append, linesProblems]
      · exact .cons hls hnewline hrest
      · exact List.cons_ne_nil _ _
    · rw [if_neg hc, if_neg (by simpa using hc)]
      exact ih (c :: current)

/-- The lexemes of a text, and what is wrong with it. -/
theorem lines_ofChars (cs : List Char) : Lines (ofChars cs) (problems cs) := lines_linesFrom cs []

example : problems "#' @param
x
	#' [a]( <b> @param
".toList = [.noDocParameter, .noDocMarker] :=
  by decide

/-! ### No layout -/

/-- No lexeme is layout. -/
def Seen (ls : List Lexeme) : Prop := ∀ l ∈ ls, l.kind.isLayout = false

theorem seen_nil : Seen [] := List.forall_mem_nil _

theorem seen_cons : Seen (l :: ls) ↔ l.kind.isLayout = false ∧ Seen ls := List.forall_mem_cons

theorem seen_append : Seen (ls ++ ms) ↔ Seen ls ∧ Seen ms := List.forall_mem_append

theorem seen_of_kinds {rows : List (List TokenKind)} (h : ls.map Lexeme.kind ∈ rows)
    (hrows : ∀ ks ∈ rows, ∀ k ∈ ks, TokenKind.isLayout k = false) : Seen ls :=
  fun _ hl => hrows _ h _ (List.mem_map_of_mem hl)

theorem Gap.seen (h : Gap ls) : Seen ls := seen_of_kinds h (by decide)

theorem Plain.seen (h : Plain l) : l.kind.isLayout = false := by
  rcases h with h | h <;> rw [h] <;> rfl

theorem Link.seen (h : Link ls) : Seen ls := by
  cases h with
  | helpPage hopening hname hcall hclosing =>
    simp only [seen_cons, seen_append, hopening, hclosing]
    exact ⟨rfl, seen_of_kinds hname (by decide), seen_of_kinds hcall (by decide), rfl, seen_nil⟩
  | destination hopening haddress hclosing =>
    simp only [seen_cons, seen_append, hopening, hclosing]
    exact ⟨rfl, seen_of_kinds haddress (by decide), rfl, seen_nil⟩
  | autolink hopening haddress hclosing =>
    simp only [seen_cons, hopening, haddress, hclosing]
    exact ⟨rfl, rfl, rfl, seen_nil⟩

theorem Content.seen (h : Content ls) : Seen ls := by
  induction h with
  | nil => exact seen_nil
  | plain hl _ ih => exact seen_cons.mpr ⟨hl.seen, ih⟩
  | link hlink _ ih => exact seen_append.mpr ⟨hlink.seen, ih⟩

theorem MoreNames.seen (h : MoreNames ls) : Seen ls := by
  induction h with
  | nil => exact seen_nil
  | cons hbefore hcomma hafter hname _ ih =>
    simp only [seen_cons, seen_append, hcomma, hname]
    exact ⟨hbefore.seen, rfl, hafter.seen, rfl, ih⟩

theorem Marked.seen {problems : List Problem} (h : Marked ls problems) : Seen ls := by
  induction h with
  | gap hl _ ih => exact seen_cons.mpr ⟨hl ▸ rfl, ih⟩
  | content hls => exact hls.seen
  | tag hl _ hls => exact seen_cons.mpr ⟨hl ▸ rfl, hls.seen⟩
  | named hl _ hspace hname hms hls =>
    simp only [seen_cons, seen_append, hl, hspace, hname]
    exact ⟨rfl, rfl, rfl, hms.seen, hls.seen⟩
  | unnamed hl _ hls => exact seen_cons.mpr ⟨hl ▸ rfl, hls.seen⟩

theorem Line.seen {problems : List Problem} (h : Line ls problems) : Seen ls := by
  cases h with
  | blank hgap => exact hgap.seen
  | marked hgap hmarker hls =>
    exact seen_append.mpr ⟨hgap.seen, seen_cons.mpr ⟨hmarker ▸ rfl, hls.seen⟩⟩
  | unmarked hgap hl _ hls =>
    exact seen_append.mpr ⟨hgap.seen, seen_cons.mpr ⟨hl.seen, fun m hm => (hls m hm).seen⟩⟩

/-- Nothing in a doc comment is layout, not even its line ends. -/
theorem Lines.seen {problems : List Problem} (h : Lines ls problems) : Seen ls := by
  induction h with
  | last hls => exact hls.seen
  | cons hls hnewline _ ih =>
    exact seen_append.mpr ⟨hls.seen, seen_cons.mpr ⟨hnewline ▸ rfl, ih⟩⟩

/-! ### The problems there are -/

theorem Marked.problems_subset {problems : List Problem} (h : Marked ls problems) :
    problems ⊆ [.noDocMarker, .noDocParameter] := by
  induction h with
  | gap _ _ ih => exact ih
  | unnamed => exact List.subset_cons_self _ _
  | _ => exact List.nil_subset _

theorem Line.problems_subset {problems : List Problem} (h : Line ls problems) :
    problems ⊆ [.noDocMarker, .noDocParameter] := by
  cases h with
  | blank => exact List.nil_subset _
  | marked _ _ hls => exact hls.problems_subset
  | unmarked => exact List.cons_subset_cons _ (List.nil_subset _)

/-- A line lacks its marker, or a tag its name. -/
theorem Lines.problems_subset {problems : List Problem} (h : Lines ls problems) :
    problems ⊆ [.noDocMarker, .noDocParameter] := by
  induction h with
  | last hls => exact hls.problems_subset
  | cons hls _ _ ih => exact List.append_subset.mpr ⟨hls.problems_subset, ih⟩

end RSource.Lexeme.Doc
