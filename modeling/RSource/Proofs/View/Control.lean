import RSource.Proofs.Tree.Order
import RSource.View.Control

/-! The parts of conditionals and loops.  A part is searched behind the token that announces it.
The row of the statement has an operand right behind this token, so the search ends there, unless
the operand is an error: the search goes past it and may come to another part. -/

namespace RSource

open scoped Computability

variable {t : SyntaxTree} {id c e keyword body : NodeId} {k j : TokenKind}
variable {header rest : List NodeId}

/-! ### The row of a statement -/

namespace Control

open SyntaxTree (lacks_nil isTokenOf_eq)

/-- A token and the operand behind it, or nothing. -/
inductive Announced (t : SyntaxTree) (k : TokenKind) : List NodeId → Prop
  | missing : Announced t k []
  | there {a c : NodeId} (ha : t.kind? a = some (.token k)) (hc : t.isOperand c) :
    Announced t k [a, c]

/-- What stands between the parentheses of a statement, or nothing. -/
inductive Header (t : SyntaxTree) : List NodeId → Prop
  | missing : Header t []
  | there {opening c : NodeId} {range closing : List NodeId}
      (hopening : t.kind? opening = some (.token .leftParen)) (hc : t.isOperand c)
      (hrange : Announced t .inKeyword range)
      (hclosing : closing = [] ∨
        ∃ r, closing = [r] ∧ t.kind? r = some (.token .rightParen)) :
    Header t (opening :: c :: (range ++ closing))

/-- A name, or an error in its place. -/
def IsVariable (t : SyntaxTree) (c : NodeId) : Prop :=
  t.isKind .identifierExpression c = true ∨ t.isKind .error c = true

/-- The children of a conditional or a loop that are not layout. -/
structure Row (t : SyntaxTree) (id keyword : NodeId) (header : List NodeId) (body : NodeId)
    (rest : List NodeId) : Prop where
  row : t.significantChildren id = keyword :: (header ++ body :: rest)
  keyword : ∃ k ∈ [TokenKind.ifKeyword, .whileKeyword, .forKeyword],
    t.kind? keyword = some (.token k)
  header : Header t header
  body : t.isOperand body
  rest : Announced t .elseKeyword rest

theorem Announced.lacks {ns : List NodeId} (h : Announced t j ns) (hne : j ≠ k) :
    t.Lacks k ns := by
  cases h with
  | missing => exact lacks_nil
  | there ha hc => simp [isTokenOf_eq ha, hne, hc.isTokenOf_eq]

/-- The closing parenthesis of a header, or nothing. -/
theorem lacks_closing {closing : List NodeId}
    (h : closing = [] ∨ ∃ r, closing = [r] ∧ t.kind? r = some (.token .rightParen))
    (hne : TokenKind.rightParen ≠ k) : t.Lacks k closing := by
  rcases h with rfl | ⟨r, rfl, hr⟩
  · exact lacks_nil
  · simp [isTokenOf_eq hr, hne]

theorem Header.lacks_else (h : Header t header) : t.Lacks .elseKeyword header := by
  cases h with
  | missing => exact lacks_nil
  | there hopening hc hrange hclosing =>
    simp [isTokenOf_eq hopening, hc.isTokenOf_eq, hrange.lacks, lacks_closing hclosing]

namespace Row

theorem isTokenOf_keyword (h : Row t id keyword header body rest) (k : TokenKind)
    (hk : k ∉ [TokenKind.ifKeyword, .whileKeyword, .forKeyword]) :
    t.isTokenOf k keyword = false := by
  obtain ⟨j, hj, hkind⟩ := h.keyword
  rw [isTokenOf_eq hkind, decide_eq_false_iff_not]
  rintro rfl
  exact hk hj

end Row

/-! ### The parts -/

/-- The parts that conditionals and loops have. -/
inductive Part where
  | condition
  | target
  | range
  | body
  | alternative
  deriving DecidableEq

namespace Part

/-- The parts of a conditional or a loop. -/
def ofKind : NodeKind → List Part
  | .ifStatement => [.condition, .body, .alternative]
  | .whileStatement => [.condition, .body]
  | .forStatement => [.target, .range, .body]
  | _ => []

/-- What a statement hands out for a part. -/
def find? (t : SyntaxTree) (id : NodeId) : Part → Option NodeId
  | .condition => condition? t id
  | .target => target? t id
  | .range => range? t id
  | .body => body? t id
  | .alternative => alternative? t id

/-- The node stands where the part belongs. -/
def InPlace (t : SyntaxTree) (id e : NodeId) : Part → Prop
  | .condition =>
    t.Behind id .leftParen e ∧ t.Ahead id .rightParen e ∧ t.Ahead id .elseKeyword e
  | .target => t.Behind id .leftParen e ∧ t.Ahead id .inKeyword e ∧ t.Ahead id .rightParen e
  | .range => t.Behind id .leftParen e ∧ t.Behind id .inKeyword e ∧ t.Ahead id .rightParen e
  | .body =>
    ((t.childToken? id .leftParen).isSome → t.Behind id .rightParen e) ∧
      t.Ahead id .elseKeyword e
  | .alternative => t.Behind id .elseKeyword e

/-- The search for the part has gone past an error that stands in its place.  The variable of a
`for` is also searched where there is no header. -/
def Missed (t : SyntaxTree) (id e : NodeId) : Part → Prop
  | .condition => t.PastError id .leftParen e
  | .target => t.childToken? id .leftParen = none ∨ t.PastError id .leftParen e
  | .range => t.PastError id .inKeyword e
  | .body => t.PastError id .rightParen e
  | .alternative => False

/-- With a header and without an error among the children no part is missed. -/
theorem not_missed (part : Part) (hheader : t.childToken? id .leftParen ≠ none)
    (herrors : ∀ c ∈ t.children id, t.isKind .error c = false) : ¬ part.Missed t id e := by
  have hpast (k : TokenKind) : ¬ t.PastError id k e := by
    rintro ⟨a, x, -, hx, hsub⟩
    rw [herrors x (hsub.subset (by simp))] at hx
    cases hx
  cases part with
  | condition => exact hpast _
  | target => exact not_or.mpr ⟨hheader, hpast _⟩
  | range => exact hpast _
  | body => exact hpast _
  | alternative => exact not_false

/-- No node stands in the places of two parts. -/
theorem InPlace.eq {kind : NodeKind} {part other : Part} (hnodup : (t.children id).Nodup)
    (hpart : part ∈ ofKind kind) (hother : other ∈ ofKind kind) (h : part.InPlace t id e)
    (h' : other.InPlace t id e) : part = other := by
  have hno {k : TokenKind} (hbehind : t.Behind id k e) : ¬ t.Ahead id k e :=
    hbehind.not_ahead hnodup
  -- With a header the body stands behind its end.
  have hbody (hb : Part.body.InPlace t id e) (hopening : t.Behind id .leftParen e) :
      ¬ t.Ahead id .rightParen e := by
    obtain ⟨a, ha, -⟩ := hopening
    exact hno (hb.1 (by rw [ha]; rfl))
  unfold ofKind at hpart hother
  split at hpart
  · simp only [List.mem_cons, List.not_mem_nil, or_false] at hpart hother
    rcases hpart with rfl | rfl | rfl <;> rcases hother with rfl | rfl | rfl
    · rfl
    · exact absurd h.2.1 (hbody h' h.1)
    · exact absurd h.2.2 (hno h')
    · exact absurd h'.2.1 (hbody h h'.1)
    · rfl
    · exact absurd h.2 (hno h')
    · exact absurd h'.2.2 (hno h)
    · exact absurd h'.2 (hno h)
    · rfl
  · simp only [List.mem_cons, List.not_mem_nil, or_false] at hpart hother
    rcases hpart with rfl | rfl <;> rcases hother with rfl | rfl
    · rfl
    · exact absurd h.2.1 (hbody h' h.1)
    · exact absurd h'.2.1 (hbody h h'.1)
    · rfl
  · simp only [List.mem_cons, List.not_mem_nil, or_false] at hpart hother
    rcases hpart with rfl | rfl | rfl <;> rcases hother with rfl | rfl | rfl
    · rfl
    · exact absurd h.2.1 (hno h'.2.1)
    · exact absurd h.2.2 (hbody h' h.1)
    · exact absurd h'.2.1 (hno h.2.1)
    · rfl
    · exact absurd h.2.2 (hbody h' h.1)
    · exact absurd h'.2.2 (hbody h h'.1)
    · exact absurd h'.2.2 (hbody h h'.1)
    · rfl
  · cases hpart

end Part

/-- The search for a variable needs only the members of the row. -/
theorem target?_eq : target? t id =
    ((t.significantChildren id).takeWhile fun n => !t.isTokenOf .inKeyword n).find?
      (t.isKind .identifierExpression) := by
  refine (SyntaxTree.find?_takeWhile_filter (fun n hn => ?_) (fun n hn => ?_) _).symm
  all_goals rw [Bool.not_eq_false'] at hn
  · rw [SyntaxTree.isTokenOf_of_isLayout rfl hn]
    rfl
  · exact SyntaxTree.isKind_of_isLayout rfl hn

namespace Row

variable (h : Row t id keyword header body rest)
include h

theorem condition_cases (he : condition? t id = some e) :
    Part.condition.InPlace t id e ∨ Part.condition.Missed t id e := by
  have hkeyword := h.isTokenOf_keyword
  obtain ⟨hrow, -, hheader, hbody, hrest⟩ := h
  cases hheader with
  | missing =>
    have hnone : condition? t id = none := SyntaxTree.expressionAfter?_eq_none rfl <| by
      simp [hrow, hkeyword, hbody.isTokenOf_eq, hrest.lacks]
    rw [hnone] at he
    cases he
  | @there opening c range closing hopening hc hrange hclosing =>
    have hfront : t.Lacks .leftParen [keyword] := by simp [hkeyword]
    have hbehind : t.significantChildren id =
        [keyword] ++ opening :: c :: (range ++ closing ++ body :: rest) := by simp [hrow]
    have hahead : t.significantChildren id =
        [keyword, opening] ++ c :: (range ++ closing ++ body :: rest) := by simp [hrow]
    rcases SyntaxTree.expressionAfter?_cases rfl hbehind hfront hopening hc he
      with rfl | ⟨hpast, -⟩
    · refine .inl ⟨SyntaxTree.behind_of_row rfl hbehind hfront hopening List.mem_cons_self,
        SyntaxTree.ahead_of_row rfl hahead ?_, SyntaxTree.ahead_of_row rfl hahead ?_⟩
      all_goals simp [hkeyword, isTokenOf_eq hopening, hc.isTokenOf_eq]
    · exact .inr hpast

theorem range_cases (he : range? t id = some e) :
    Part.range.InPlace t id e ∨ Part.range.Missed t id e := by
  have hkeyword := h.isTokenOf_keyword
  obtain ⟨hrow, -, hheader, hbody, hrest⟩ := h
  have hmissing (hlacks : t.Lacks .inKeyword header) : range? t id = none :=
    SyntaxTree.expressionAfter?_eq_none rfl <| by
      simp [hrow, hkeyword, hlacks, hbody.isTokenOf_eq, hrest.lacks]
  cases hheader with
  | missing =>
    rw [hmissing lacks_nil] at he
    cases he
  | @there opening c range closing hopening hc hrange hclosing =>
    cases hrange with
    | missing =>
      rw [hmissing (by simp [isTokenOf_eq hopening, hc.isTokenOf_eq, lacks_closing hclosing])]
        at he
      cases he
    | @there a g ha hg =>
      have hfirst : t.significantChildren id =
          [keyword] ++ opening :: (c :: a :: g :: (closing ++ body :: rest)) := by simp [hrow]
      have hbehind : t.significantChildren id =
          [keyword, opening, c] ++ a :: g :: (closing ++ body :: rest) := by simp [hrow]
      have hahead : t.significantChildren id =
          [keyword, opening, c, a] ++ g :: (closing ++ body :: rest) := by simp [hrow]
      have hfront : t.Lacks .inKeyword [keyword, opening, c] := by
        simp [hkeyword, isTokenOf_eq hopening, hc.isTokenOf_eq]
      rcases SyntaxTree.expressionAfter?_cases rfl hbehind hfront ha hg he with rfl | ⟨hpast, -⟩
      · refine .inl ⟨SyntaxTree.behind_of_row rfl hfirst (by simp [hkeyword]) hopening (by simp),
          SyntaxTree.behind_of_row rfl hbehind hfront ha List.mem_cons_self,
          SyntaxTree.ahead_of_row rfl hahead ?_⟩
        simp [hkeyword, isTokenOf_eq hopening, isTokenOf_eq ha, hc.isTokenOf_eq, hg.isTokenOf_eq]
      · exact .inr hpast

theorem alternative_inPlace (he : alternative? t id = some e) :
    Part.alternative.InPlace t id e := by
  have hkeyword := h.isTokenOf_keyword
  obtain ⟨hrow, -, hheader, hbody, hrest⟩ := h
  cases hrest with
  | missing =>
    have hnone : alternative? t id = none := SyntaxTree.expressionAfter?_eq_none rfl <| by
      simp [hrow, hkeyword, hheader.lacks_else, hbody.isTokenOf_eq]
    rw [hnone] at he
    cases he
  | @there a c ha hc =>
    have hbehind : t.significantChildren id = (keyword :: header ++ [body]) ++ a :: c :: [] := by
      simp [hrow]
    have hfront : t.Lacks .elseKeyword (keyword :: header ++ [body]) := by
      simp [hkeyword, hheader.lacks_else, hbody.isTokenOf_eq]
    rcases SyntaxTree.expressionAfter?_cases rfl hbehind hfront ha hc he with rfl | ⟨-, hnone⟩
    · exact SyntaxTree.behind_of_row rfl hbehind hfront ha List.mem_cons_self
    · cases hnone

/-- Without a header the body is the first operand of the statement. -/
theorem eq_body_of_missing (hheader : header = []) (he : t.firstExpression? id = some e) :
    e = body := by
  obtain ⟨hrow, ⟨k, -, hkeyword⟩, -, hbody, -⟩ := h
  have hout : (t.isExpression keyword || t.isKind .error keyword) = false := by
    rw [SyntaxTree.isExpression, SyntaxTree.isKind, hkeyword]
    rfl
  have hin : (t.isExpression body || t.isKind .error body) = true := by
    rw [Bool.or_eq_true]
    exact hbody
  rw [SyntaxTree.firstExpression?_eq, hrow, hheader, List.nil_append, List.filter_cons, hout,
    if_neg Bool.false_ne_true, List.filter_cons, hin, if_pos rfl, List.head?_cons,
    Option.filter_eq_some_iff, Option.some.injEq] at he
  exact he.1.symm

theorem body_cases (he : body? t id = some e) :
    Part.body.InPlace t id e ∨ Part.body.Missed t id e := by
  have hkeyword := h.isTokenOf_keyword
  have hfirst := h.eq_body_of_missing (e := e)
  obtain ⟨hrow, -, hheader, hbody, hrest⟩ := h
  rw [body?] at he
  cases hheader with
  | missing =>
    have hnone : t.childToken? id .leftParen = none := SyntaxTree.childToken?_eq_none rfl <| by
      simp [hrow, hkeyword, hbody.isTokenOf_eq, hrest.lacks]
    rw [hnone] at he
    obtain rfl := hfirst rfl he
    have hahead : t.significantChildren id = [keyword] ++ e :: rest := hrow
    refine .inl ⟨fun hsome => ?_, SyntaxTree.ahead_of_row rfl hahead ?_⟩
    · rw [hnone] at hsome
      cases hsome
    · simp [hkeyword, hbody.isTokenOf_eq]
  | @there opening c range closing hopening hc hrange hclosing =>
    have hfront : t.significantChildren id =
        [keyword] ++ opening :: (c :: (range ++ closing ++ body :: rest)) := by simp [hrow]
    rw [SyntaxTree.childToken?_eq_some rfl hfront (by simp [hkeyword]) hopening, Option.isSome_some,
      if_pos rfl] at he
    rcases hclosing with rfl | ⟨r, rfl, hr⟩
    · have hnone : t.expressionAfter? id .rightParen = none :=
        SyntaxTree.expressionAfter?_eq_none rfl <| by
          simp [hrow, hkeyword, isTokenOf_eq hopening, hc.isTokenOf_eq, hrange.lacks,
            hbody.isTokenOf_eq, hrest.lacks]
      rw [hnone] at he
      cases he
    · have hbehind : t.significantChildren id =
          (keyword :: opening :: c :: range) ++ r :: body :: rest := by simp [hrow]
      have hahead : t.significantChildren id =
          (keyword :: opening :: c :: (range ++ [r])) ++ body :: rest := by simp [hrow]
      have hlacks : t.Lacks .rightParen (keyword :: opening :: c :: range) := by
        simp [hkeyword, isTokenOf_eq hopening, hc.isTokenOf_eq, hrange.lacks]
      rcases SyntaxTree.expressionAfter?_cases rfl hbehind hlacks hr hbody he
        with rfl | ⟨hpast, -⟩
      · refine .inl ⟨fun _ => SyntaxTree.behind_of_row rfl hbehind hlacks hr List.mem_cons_self,
          SyntaxTree.ahead_of_row rfl hahead ?_⟩
        simp [hkeyword, isTokenOf_eq hopening, isTokenOf_eq hr, hc.isTokenOf_eq, hrange.lacks,
          hbody.isTokenOf_eq]
      · exact .inr hpast

/-- The variable of a `for` stands first in its header, or an error does. -/
theorem target_cases (hvariable : ∀ c ∈ header[1]?, IsVariable t c)
    (he : target? t id = some e) :
    Part.target.InPlace t id e ∨ Part.target.Missed t id e := by
  have hkeyword := h.isTokenOf_keyword
  obtain ⟨hrow, ⟨k, -, hkind⟩, hheader, hbody, hrest⟩ := h
  cases hheader with
  | missing =>
    refine .inr (.inl (SyntaxTree.childToken?_eq_none rfl ?_))
    simp [hrow, hkeyword, hbody.isTokenOf_eq, hrest.lacks]
  | @there opening c range closing hopening hc hrange hclosing =>
    have hbehind : t.significantChildren id =
        [keyword] ++ opening :: c :: (range ++ closing ++ body :: rest) := by simp [hrow]
    have hahead : t.significantChildren id =
        [keyword, opening] ++ c :: (range ++ closing ++ body :: rest) := by simp [hrow]
    have hfront : t.Lacks .leftParen [keyword] := by simp [hkeyword]
    have hleaf {n : NodeId} {j : TokenKind} (hn : t.kind? n = some (.token j)) :
        t.isKind .identifierExpression n = false := SyntaxTree.isKind_of_leaf hn rfl
    have htaken : target? t id = (keyword :: opening :: c :: (range ++ closing ++ body :: rest
        ).takeWhile fun n => !t.isTokenOf .inKeyword n).find? (t.isKind .identifierExpression) := by
      rw [target?_eq, hbehind]
      simp [hkeyword, isTokenOf_eq hopening, hc.isTokenOf_eq]
    rw [htaken, List.find?_cons, hleaf hkind, List.find?_cons, hleaf hopening,
      List.find?_cons] at he
    cases hname : t.isKind .identifierExpression c with
    | true =>
      rw [hname] at he
      obtain rfl := Option.some.inj he
      refine .inl ⟨SyntaxTree.behind_of_row rfl hbehind hfront hopening List.mem_cons_self,
        SyntaxTree.ahead_of_row rfl hahead ?_, SyntaxTree.ahead_of_row rfl hahead ?_⟩
      all_goals simp [hkeyword, isTokenOf_eq hopening, hc.isTokenOf_eq]
    | false =>
      rw [hname] at he
      have hmem := (List.takeWhile_sublist _).subset (List.mem_of_find?_eq_some he)
      exact .inr (.inr (SyntaxTree.pastError_of_row rfl hbehind hfront hopening
        ((hvariable c rfl).resolve_left (by simp [hname])) hmem))

end Row

/-! ### Statements of a parsed tree -/

variable {tokens : List Token}

theorem Announced.of_reads (h : t.Reads tokens
    (1 + Production.token tokens [k] * Production.operand .lenient) rest) :
    Announced t k rest := by
  rcases SyntaxTree.reads_add.mp h with h | h
  · rw [SyntaxTree.reads_one.mp h]
    exact .missing
  · obtain ⟨_, _, rfl, htoken, hoperand⟩ := SyntaxTree.reads_mul.mp h
    obtain ⟨a, rfl, j, hj, ha⟩ := htoken.token
    obtain ⟨c, rfl, hc⟩ := hoperand.operand
    rw [List.mem_singleton.mp hj] at ha
    exact .there ha hc

theorem Header.of_condition (h : t.Reads tokens (Production.condition tokens .lenient) header) :
    Header t header := by
  rcases SyntaxTree.reads_add.mp h with h | h
  · obtain ⟨_, _, rfl, htoken, h⟩ := SyntaxTree.reads_mul.mp h
    obtain ⟨_, _, rfl, hoperand, hclosing⟩ := SyntaxTree.reads_mul.mp h
    obtain ⟨a, rfl, j, hj, ha⟩ := htoken.token
    obtain ⟨c, rfl, hc⟩ := hoperand.operand
    rw [List.mem_singleton.mp hj] at ha
    exact .there ha hc .missing hclosing.wanted
  · rw [SyntaxTree.reads_one.mp h]
    exact .missing

theorem exists_of_variable {ns : List NodeId} (h : t.Reads tokens
    (Production.node [.identifierExpression] + Production.fault .lenient) ns) :
    ∃ c, ns = [c] ∧ IsVariable t c := by
  rcases SyntaxTree.reads_add.mp h with h | h
  all_goals
    obtain ⟨c, rfl, kind, hkind, hc⟩ := h.node
    obtain rfl := List.mem_singleton.mp hkind
  · exact ⟨c, rfl, .inl (decide_eq_true hc)⟩
  · exact ⟨c, rfl, .inr (decide_eq_true hc)⟩

theorem IsVariable.isOperand (h : IsVariable t c) : t.isOperand c := by
  refine h.imp_left fun hkind => ?_
  rw [SyntaxTree.isKind, decide_eq_true_eq] at hkind
  rw [SyntaxTree.isExpression, hkind]
  rfl

/-- The variable in the header of a `for` is a name or an error. -/
theorem Header.of_loopHeader (h : t.Reads tokens (Production.loopHeader tokens .lenient) header) :
    Header t header ∧ ∀ c ∈ header[1]?, IsVariable t c := by
  rcases SyntaxTree.reads_add.mp h with h | h
  · obtain ⟨_, _, rfl, htoken, h⟩ := SyntaxTree.reads_mul.mp h
    obtain ⟨_, _, rfl, hvariable, h⟩ := SyntaxTree.reads_mul.mp h
    obtain ⟨_, _, rfl, hrange, hclosing⟩ := SyntaxTree.reads_mul.mp h
    obtain ⟨a, rfl, j, hj, ha⟩ := htoken.token
    obtain ⟨c, rfl, hc⟩ := exists_of_variable hvariable
    rw [List.mem_singleton.mp hj] at ha
    rw [add_comm] at hrange
    have hheader : Header t (a :: c :: (_ ++ _)) :=
      .there ha hc.isOperand (.of_reads hrange) hclosing.wanted
    refine ⟨hheader, fun n hn => ?_⟩
    obtain rfl := Option.some.inj hn
    exact hc
  · rw [SyntaxTree.reads_one.mp h]
    exact ⟨.missing, fun c hc => absurd hc (Option.not_mem_none _)⟩

/-- A row of a conditional or a loop. -/
theorem Row.of_reads {kind : NodeKind} (hkind : Part.ofKind kind ≠ [])
    (h : t.Reads tokens (Production.children tokens .lenient kind) (t.significantChildren id)) :
    ∃ keyword header body rest, Row t id keyword header body rest ∧
      (.target ∈ Part.ofKind kind → ∀ c ∈ header[1]?, IsVariable t c) := by
  unfold Part.ofKind at hkind
  split at hkind
  · obtain ⟨_, _, hrow, htoken, h⟩ := SyntaxTree.reads_mul.mp h
    obtain ⟨header, _, rfl, hheader, h⟩ := SyntaxTree.reads_mul.mp h
    obtain ⟨_, rest, rfl, hoperand, hrest⟩ := SyntaxTree.reads_mul.mp h
    obtain ⟨keyword, rfl, j, hj, hkeyword⟩ := htoken.token
    obtain ⟨body, rfl, hbody⟩ := hoperand.operand
    obtain rfl := List.mem_singleton.mp hj
    exact ⟨keyword, header, body, rest, ⟨hrow, ⟨_, by simp, hkeyword⟩, .of_condition hheader,
      hbody, .of_reads hrest⟩, fun h => by simp [Part.ofKind] at h⟩
  · obtain ⟨_, _, hrow, htoken, h⟩ := SyntaxTree.reads_mul.mp h
    obtain ⟨header, _, rfl, hheader, hoperand⟩ := SyntaxTree.reads_mul.mp h
    obtain ⟨keyword, rfl, j, hj, hkeyword⟩ := htoken.token
    obtain ⟨body, rfl, hbody⟩ := hoperand.operand
    obtain rfl := List.mem_singleton.mp hj
    exact ⟨keyword, header, body, [], ⟨hrow, ⟨_, by simp, hkeyword⟩, .of_condition hheader,
      hbody, .missing⟩, fun h => by simp [Part.ofKind] at h⟩
  · obtain ⟨_, _, hrow, htoken, h⟩ := SyntaxTree.reads_mul.mp h
    obtain ⟨header, _, rfl, hheader, hoperand⟩ := SyntaxTree.reads_mul.mp h
    obtain ⟨keyword, rfl, j, hj, hkeyword⟩ := htoken.token
    obtain ⟨body, rfl, hbody⟩ := hoperand.operand
    obtain rfl := List.mem_singleton.mp hj
    obtain ⟨hheader, hvariable⟩ := Header.of_loopHeader hheader
    exact ⟨keyword, header, body, [], ⟨hrow, ⟨_, by simp, hkeyword⟩, hheader, hbody, .missing⟩,
      fun _ => hvariable⟩
  · exact absurd rfl hkind

/-- What is found for a part stands in its place, or the search for it has missed this place. -/
theorem Row.find?_cases {part : Part} (h : Row t id keyword header body rest)
    (hvariable : part = .target → ∀ c ∈ header[1]?, IsVariable t c)
    (he : part.find? t id = some e) : part.InPlace t id e ∨ part.Missed t id e := by
  cases part with
  | condition => exact h.condition_cases he
  | target => exact h.target_cases (hvariable rfl) he
  | range => exact h.range_cases he
  | body => exact h.body_cases he
  | alternative => exact .inl (h.alternative_inPlace he)

/-- What a conditional or a loop of a parsed tree hands out for a part stands in the place of the
part, and it hands out no node for two parts.  The only exception is a search that went past an
error in the place of the part, or for the variable of a `for` without a header. -/
theorem parts_of_parse {text : String} {limit : Nat} {p : Parse} {kind : NodeKind}
    (hp : parse text limit = .ok p) (hid : p.tree.kind? id = some kind) :
    (∀ part ∈ Part.ofKind kind, ∀ e, part.find? p.tree id = some e →
      part.InPlace p.tree id e ∨ part.Missed p.tree id e) ∧
    ∀ part ∈ Part.ofKind kind, ∀ other ∈ Part.ofKind kind, ∀ e,
      part.find? p.tree id = some e → other.find? p.tree id = some e →
      part = other ∨ part.Missed p.tree id e ∨ other.Missed p.tree id e := by
  obtain ⟨os, more, hfound⟩ := Grammar.found (lex text)
  have hbuild := (parseTokens_eq_ok hfound hp).1
  have hparts (part : Part) (hpart : part ∈ Part.ofKind kind) (e : NodeId)
      (he : part.find? p.tree id = some e) :
      part.InPlace p.tree id e ∨ part.Missed p.tree id e := by
    have hsome : Part.ofKind kind ≠ [] := List.ne_nil_of_mem hpart
    have hnode : kind.tokenKind? = none ∧ kind ≠ .file := by
      cases kind <;> first | exact absurd rfl hsome | exact ⟨rfl, by simp⟩
    obtain ⟨keyword, header, body, rest, hrow, hvariable⟩ :=
      Row.of_reads hsome (hfound.reads hbuild hid hnode.1 hnode.2)
    refine hrow.find?_cases (fun htarget => ?_) he
    subst htarget
    exact hvariable hpart
  refine ⟨hparts, fun part hpart other hother e he he' => ?_⟩
  have hnodup := SyntaxTree.nodup_children_of_build hbuild id
  rcases hparts part hpart e he with hplace | hmissed
  · rcases hparts other hother e he' with hplace' | hmissed'
    · exact .inl (hplace.eq hnodup hpart hother hplace')
    · exact .inr (.inr hmissed')
  · exact .inr (.inl hmissed)

/-- A conditional with all its parts has them in place. -/
theorem parts_of_parse_conditional : ∃ p id, parse "if (a) b else c" 1 = .ok p ∧
    p.tree.kind? id = some .ifStatement ∧ ∀ part ∈ Part.ofKind .ifStatement,
      ∃ e, part.find? p.tree id = some e ∧ part.InPlace p.tree id e := by
  have hparse : (parse "if (a) b else c" 1).toOption.any (fun p =>
      (List.range p.tree.size).any fun id => p.tree.kind? id == some .ifStatement &&
        (p.tree.childToken? id .leftParen).isSome &&
        ((p.tree.children id).all fun c => !p.tree.isKind .error c) &&
        (Part.ofKind .ifStatement).all fun part => (part.find? p.tree id).isSome) = true := by
    decide +kernel
  obtain ⟨p, hp, hsome⟩ := exists_of_any_toOption hparse
  obtain ⟨id, -, hid⟩ := List.any_eq_true.mp hsome
  simp only [Bool.and_eq_true, beq_iff_eq, List.all_eq_true, Bool.not_eq_true'] at hid
  obtain ⟨⟨⟨hkind, hheader⟩, herrors⟩, hfound⟩ := hid
  refine ⟨p, id, hp, hkind, fun part hpart => ?_⟩
  obtain ⟨e, he⟩ := Option.isSome_iff_exists.mp (hfound part hpart)
  exact ⟨e, he, ((parts_of_parse hp hkind).1 part hpart e he).resolve_right
    (part.not_missed (Option.isSome_iff_ne_none.mp hheader) herrors)⟩

/-- In the source, a statement of the kind hands out one node for two of its parts. -/
def Shares (text : String) (kind : NodeKind) (part other : Part) : Prop :=
  part ∈ Part.ofKind kind ∧ other ∈ Part.ofKind kind ∧ part ≠ other ∧ ∃ p id e,
    parse text 1 = .ok p ∧ p.tree.kind? id = some kind ∧ part.find? p.tree id = some e ∧
      other.find? p.tree id = some e

theorem shares_of_any {text : String} {kind : NodeKind} {part other : Part}
    (hparts : part ∈ Part.ofKind kind ∧ other ∈ Part.ofKind kind ∧ part ≠ other)
    (hparse : (parse text 1).toOption.any (fun p => (List.range p.tree.size).any fun id =>
      p.tree.kind? id == some kind && (part.find? p.tree id).isSome &&
        other.find? p.tree id == part.find? p.tree id) = true) :
    Shares text kind part other := by
  obtain ⟨p, hp, hsome⟩ := exists_of_any_toOption hparse
  obtain ⟨id, -, hid⟩ := List.any_eq_true.mp hsome
  simp only [Bool.and_eq_true, beq_iff_eq] at hid
  obtain ⟨⟨hkind, hfound⟩, hshared⟩ := hid
  obtain ⟨e, he⟩ := Option.isSome_iff_exists.mp hfound
  exact ⟨hparts.1, hparts.2.1, hparts.2.2, p, id, e, hp, hkind, he, hshared.trans he⟩

/-- An error in the place of a part, or a `for` without a header: one node is handed out for two
parts of the statement. -/
theorem parts_shared :
    Shares "while () x" .whileStatement .condition .body ∧
      Shares "if (a) else b" .ifStatement .body .alternative ∧
      Shares "for (i in ) x" .forStatement .range .body ∧
      Shares "for () i" .forStatement .target .body ∧ Shares "for i" .forStatement .target .body :=
  ⟨shares_of_any (by decide) (by decide +kernel), shares_of_any (by decide) (by decide +kernel),
    shares_of_any (by decide) (by decide +kernel), shares_of_any (by decide) (by decide +kernel),
    shares_of_any (by decide) (by decide +kernel)⟩

end Control

end RSource
