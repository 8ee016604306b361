import RSource.Parser.Basic
import RSource.Proofs.Errors
import RSource.Proofs.Lossless

/-! Limits on errors.  A parser may as well keep its errors in a log that has room for some of them
only: it reads the same items and finds the same outline, and the log holds the first errors of all
that are found.  So the limit of a parse decides how many errors are kept and nothing else. -/

namespace RSource

namespace ErrorLog

/-- A log keeps the first errors that there is room for. -/
theorem kept_foldl_record (es : List ParseError) : ∀ log : ErrorLog,
    log.kept.length ≤ log.limit → (es.foldl record log).kept =
      (log.kept ++ ParseError.firstAtEach log.last es).take log.limit := by
  induction es with
  | nil =>
    intro log hroom
    rw [List.foldl_nil, ParseError.firstAtEach, List.append_nil, List.take_of_length_le hroom]
  | cons e es ih =>
    intro log hroom
    rw [List.foldl_cons, record, ParseError.firstAtEach]
    by_cases hsame : log.last = some e.place
    · rw [if_pos hsame, if_pos hsame, ih log hroom]
    · rw [if_neg hsame, if_neg hsame]
      by_cases hless : log.kept.length < log.limit
      · have hkept : (log.kept ++ [e]).length ≤ log.limit := by
          rw [List.length_append, List.length_singleton]
          exact hless
        rw [if_pos hless, ih _ hkept, List.append_assoc, List.singleton_append]
      · have hfull : log.kept.length = log.limit := by omega
        rw [if_neg hless, ih { log with last := some e.place } hroom, ← hfull, List.take_left,
          List.take_left]

end ErrorLog

namespace Parser

/-- A run of a parser that writes its errors into a log as they come: it starts with a cursor and a
log and ends with a value, a cursor and a log. -/
inductive Runs :
    {α : Type} → Parser α → Context → Cursor → ErrorLog → α → Cursor → ErrorLog → Prop
  | pure {α : Type} {context : Context} {c : Cursor} {log : ErrorLog} (a : α) :
      Runs (Pure.pure a : Parser α) context c log a c log
  | bind {α β : Type} {p : Parser α} {f : α → Parser β} {context : Context} {c d e : Cursor}
      {log log' log'' : ErrorLog} {a : α} {b : β} (hp : Runs p context c log a d log')
      (hf : Runs (f a) context d log' b e log'') : Runs (p >>= f) context c log b e log''
  | look {α : Type} {context : Context} {c : Cursor} {log : ErrorLog} (f : Cursor → α) :
      Runs (look f) context c log (f c) c log
  | newlineBreaks {context : Context} {c : Cursor} {log : ErrorLog} (n : Nat) :
      Runs (newlineBreaks n) context c log
        (context.newlinesTerminate && (c.ahead n).newlineBefore) c log
  | bump {context : Context} {c : Cursor} {log : ErrorLog} :
      Runs bump context c log (if c.atEnd then [] else (c.here.index.map Outline.token).toList)
        c.advance log
  | report {context : Context} {c : Cursor} {log : ErrorLog} (problem : Problem) :
      Runs (report problem) context c log () c (log.record ⟨c.position, problem, c.here.focus⟩)
  | within {α : Type} {p : Parser α} {context : Context} {c d : Cursor} {log log' : ErrorLog}
      {a : α} (change : Context → Context) (hp : Runs p (change context) c log a d log') :
      Runs (within change p) context c log a d log'

variable {α : Type} {p : Parser α} {context : Context} {c d : Cursor} {a : α}
variable {log log' : ErrorLog}

/-- Whatever the log has room for, the run goes where the parser goes. -/
theorem Runs.outcome (h : Runs p context c log a d log') :
    a = (p context c).value ∧ d = (p context c).cursor ∧
      log' = (p context c).errors.foldl ErrorLog.record log := by
  induction h with
  | bind _ _ ihp ihf =>
    obtain ⟨rfl, rfl, rfl⟩ := ihp
    obtain ⟨rfl, rfl, rfl⟩ := ihf
    exact ⟨rfl, rfl, by rw [bind_apply, List.foldl_append]⟩
  | within change _ ih => exact ih
  | _ => exact ⟨rfl, rfl, rfl⟩

/-- Every production can be run with any log. -/
theorem Built.runs {sighted : Prop} (h : Built sighted p) (context : Context) (c : Cursor)
    (log : ErrorLog) :
    Runs p context c log (p context c).value (p context c).cursor
      ((p context c).errors.foldl ErrorLog.record log) := by
  induction h generalizing context c log with
  | pure a => exact .pure a
  | bind hp hf ihp ihf =>
    rw [bind_apply, List.foldl_append]
    exact .bind (ihp context c log) (ihf _ context _ _)
  | look f hf => exact .look f
  | newlineBreaks n => exact .newlineBreaks n
  | bump => exact .bump
  | report problem => exact .report problem
  | within change hp ih => exact .within change (ih (change context) c log)

end Parser

variable {text : String} {tokens : List Token}

/-- A parse of tokens that drops errors while it goes, those for which its log has no room. -/
structure ParsesWithin (limit : Nat) (text : String) (tokens : List Token) (p : Parse) : Prop where
  entry : p.entry = .file
  found : ∃ outline cursor log,
    Grammar.source.Runs .statements (.ofTokens tokens) (.empty limit) outline cursor log ∧
      SyntaxTree.build text tokens outline.events = .ok p.tree ∧ p.errors = log.kept

/-- It makes no difference whether errors are dropped while the parser runs or at the end. -/
theorem parsesWithin_iff {limit : Nat} {p : Parse} (hsize : Text.byteLength text ≤ maxOffset) :
    ParsesWithin limit text tokens p ↔ parseTokens text tokens limit = .ok p := by
  have hbuilt : Parser.Built False Grammar.source := Grammar.built_source
  have hkept : ((Grammar.source .statements (.ofTokens tokens)).errors.foldl ErrorLog.record
      (.empty limit)).kept = (Grammar.source.run .statements tokens).2.take limit :=
    ErrorLog.kept_foldl_record _ (.empty limit) (Nat.zero_le limit)
  rw [parseTokens, parseWith, if_neg (Nat.not_lt.mpr hsize)]
  constructor
  · obtain ⟨tree, errors, entry⟩ := p
    rintro ⟨rfl, outline, cursor, log, hruns, hbuild, herrors⟩
    obtain ⟨rfl, rfl, rfl⟩ := hruns.outcome
    obtain rfl : errors = _ := herrors.trans hkept
    exact bind_eq_ok_iff.mpr ⟨tree, hbuild, rfl⟩
  · intro h
    obtain ⟨tree, hbuild, h⟩ := bind_eq_ok_iff.mp h
    obtain rfl := Except.ok.inj h
    exact ⟨rfl, _, _, _, hbuilt.runs _ _ _, hbuild, hkept.symm⟩

/-- Two parses of the same tokens find the same tree, and the one with the smaller limit has the
first errors of the other.  Both are what a parser finds that drops errors while it goes; only a
text that is too large is not parsed. -/
theorem parseTokens_limits {m n : Nat} (hlimits : m ≤ n) (text : String) (tokens : List Token) :
    (maxOffset < Text.byteLength text ∧
      ∀ limit, parseTokens text tokens limit = .error .sourceTooLarge) ∨
    ∃ p q, parseTokens text tokens m = .ok p ∧ parseTokens text tokens n = .ok q ∧
      p.tree = q.tree ∧ p.errors = q.errors.take m ∧
      (∀ p', ParsesWithin m text tokens p' ↔ p' = p) ∧
      ∀ q', ParsesWithin n text tokens q' ↔ q' = q := by
  rcases Nat.lt_or_ge maxOffset (Text.byteLength text) with hsize | hsize
  · refine .inl ⟨hsize, fun limit => ?_⟩
    rw [parseTokens, parseWith, if_pos hsize]
    rfl
  obtain ⟨os, more, hfound⟩ := Grammar.found tokens
  obtain ⟨p, hp, -⟩ := parseTokens_ok hsize tokens m
  obtain ⟨q, hq, -⟩ := parseTokens_ok hsize tokens n
  obtain ⟨htree, herrors⟩ := parseTokens_eq_ok hfound hp
  obtain ⟨htree', herrors'⟩ := parseTokens_eq_ok hfound hq
  refine .inr ⟨p, q, hp, hq, Except.ok.inj (htree.symm.trans htree'), ?_, fun p' => ?_,
    fun q' => ?_⟩
  · rw [herrors, herrors', List.take_take, Nat.min_eq_left hlimits]
  · rw [parsesWithin_iff hsize, hp, Except.ok.injEq, eq_comm]
  · rw [parsesWithin_iff hsize, hq, Except.ok.injEq, eq_comm]

theorem parseTokens_limits_folded : 1 ≤ 2 ∧
    ∃ p q, parseTokens "x + )\nf(1 2)" (lex "x + )\nf(1 2)") 1 = .ok p ∧
      parseTokens "x + )\nf(1 2)" (lex "x + )\nf(1 2)") 2 = .ok q ∧
      p.tree = q.tree ∧ p.errors = q.errors.take 1 ∧
      q.errors.map ParseError.span = [⟨4, 5⟩, ⟨10, 11⟩] := by
  have hle : 1 ≤ 2 := by decide
  have hboth : (parseTokens "x + )\nf(1 2)" (lex "x + )\nf(1 2)") 2).toOption.any (fun q =>
      q.errors.map ParseError.span == [⟨4, 5⟩, ⟨10, 11⟩]) = true := by
    decide +kernel
  obtain ⟨q, hq, hspans⟩ := exists_of_any_toOption hboth
  rcases parseTokens_limits hle "x + )\nf(1 2)" (lex "x + )\nf(1 2)") with
    ⟨hsize, -⟩ | ⟨p, q', hp, hq', htree, herrors, -, -⟩
  · exact absurd hsize (by decide)
  · obtain rfl := Except.ok.inj (hq.symm.trans hq')
    exact ⟨hle, p, q, hp, hq, htree, herrors, by simpa using hspans⟩

end RSource
