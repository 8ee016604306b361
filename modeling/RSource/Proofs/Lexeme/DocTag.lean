import RSource.Proofs.Lexeme.DocForm
import RSource.Proofs.Lexeme.DocScanned
import RSource.Proofs.Lexeme.ReadBack
import RSource.View.DocComment

/-! Lines that document parameters, as they are written and as lexemes.  The names are words or
stand between backticks; the list goes on behind a comma, and a description may follow the last
name. -/

namespace RSource.Lexeme.Doc

variable {c : Char} {cs rest : List Char} {l : Lexeme}

/-- The characters of words behind the first. -/
def isWordChar (c : Char) : Bool := Unicode.isAlphanumeric c || c = '.' || c = '_'

/-- The name of a parameter as it is documented: a word, or anything between backticks. -/
inductive ParameterName where
  | word (first : Char) (more : List Char) (hfirst : Unicode.isAlphabetic first ∨ first = '.')
      (hmore : ∀ c ∈ more, isWordChar c)
  | quoted (inside : List Char) (hsome : inside ≠ []) (htick : backtick ∉ inside)
      (hline : '\n' ∉ inside)

namespace ParameterName

/-- The name itself. -/
def text : ParameterName → String
  | word first more _ _ => .ofList (first :: more)
  | quoted inside _ _ _ => .ofList inside

/-- The characters that the name is written with. -/
def chars : ParameterName → List Char
  | word first more _ _ => first :: more
  | quoted inside _ _ _ => backtick :: (inside ++ [backtick])

def lexeme (name : ParameterName) : Lexeme := ⟨.docIdentifier, name.chars⟩

end ParameterName

/-- A further name of a list, with the blanks around the comma before it. -/
structure FurtherName where
  before : List Char
  after : List Char
  name : ParameterName
  hbefore : ∀ c ∈ before, isGap c
  hafter : ∀ c ∈ after, isGap c

namespace FurtherName

def chars (further : FurtherName) : List Char :=
  further.before ++ ',' :: (further.after ++ further.name.chars)

def lexemes (further : FurtherName) : List Lexeme :=
  nonempty .docWhitespace further.before ++ ⟨.docComma, [',']⟩ ::
    (nonempty .docWhitespace further.after ++ [further.name.lexeme])

end FurtherName

/-- What may stand behind a list of names: the end of the line, or blanks and a description that
does not go on with the list. -/
def Behind (cs : List Char) : Prop :=
  cs = [] ∨ cs = ['\r'] ∨
    cs.head?.any isGap = true ∧ '\n' ∉ cs ∧ (cs.dropWhile isGap).head? ≠ some ','

/-- What a line that documents parameters begins with. -/
def opening : List Char := "#' @param".toList

/-- A line that documents parameters. -/
structure ParameterLine where
  gap : List Char
  first : ParameterName
  more : List FurtherName
  behind : List Char
  hsome : gap ≠ []
  hgap : ∀ c ∈ gap, isGap c
  hbehind : Behind behind

namespace ParameterLine

/-- The characters of the list of names. -/
def list (line : ParameterLine) : List Char :=
  line.gap ++ (line.first.chars ++ line.more.flatMap FurtherName.chars)

/-- The characters of the line without its line end. -/
def chars (line : ParameterLine) : List Char :=
  opening ++ (line.list ++ line.behind)

/-- The names that the line documents. -/
def names (line : ParameterLine) : List String :=
  line.first.text :: line.more.map (·.name.text)

end ParameterLine

/-- The lines as a text, with a line end behind the last or without one. -/
def written (ended : Bool) : List ParameterLine → List Char
  | [] => []
  | [line] => line.chars ++ if ended then ['\n'] else []
  | line :: lines => line.chars ++ '\n' :: written ended lines

/-! ### Names -/

/-- What begins a word may stand further behind in it. -/
theorem isWordChar_of_first (h : Unicode.isAlphabetic c = true ∨ c = '.') :
    isWordChar c = true := by
  rcases h with h | rfl
  · rw [isWordChar, Unicode.isAlphanumeric, h]
    rfl
  · decide +kernel

theorem ne_of_isWordChar {d : Char} (h : isWordChar c = true) (hd : isWordChar d = false) :
    c ≠ d := by
  rintro rfl
  exact Bool.noConfusion (h.symm.trans hd)

theorem isWordChar_backtick : isWordChar backtick = false := by decide +kernel

namespace ParameterName

variable {name : ParameterName}

/-- A name begins with no blank. -/
theorem exists_cons (name : ParameterName) : ∃ c w, name.chars = c :: w ∧ isGap c = false := by
  have hblank : isWordChar ' ' = false ∧ isWordChar '\t' = false := by decide +kernel
  cases name with
  | word first more hfirst _ =>
    refine ⟨first, more, rfl, ?_⟩
    have hword := isWordChar_of_first hfirst
    rw [isGap, Bool.or_eq_false_iff, decide_eq_false_iff_not, decide_eq_false_iff_not]
    exact ⟨ne_of_isWordChar hword hblank.1, ne_of_isWordChar hword hblank.2⟩
  | quoted inside => exact ⟨backtick, inside ++ [backtick], rfl, rfl⟩

/-- The lexer finds where a name ends. -/
theorem nameLength?_eq (name : ParameterName) (h : Stops isWordChar rest) :
    nameLength? (name.chars ++ rest) = some name.chars.length := by
  cases name with
  | word first more hfirst hmore =>
    have hne : first ≠ backtick :=
      ne_of_isWordChar (isWordChar_of_first hfirst) isWordChar_backtick
    have hlength := runLength_append_of_stops h hmore
    have hstart : (Unicode.isAlphabetic first || first = '.') = true := by simpa using hfirst
    rw [chars, List.cons_append, nameLength?, if_neg hne, if_pos hstart, List.length_cons,
      Nat.add_comm, ← hlength]
    rfl
  | quoted inside hsome htick hline =>
    have hinside : ∀ c ∈ inside, (c ≠ backtick : Bool) = true := fun c hc =>
      decide_eq_true fun heq => htick (heq ▸ hc)
    have hlength : runLength (· ≠ backtick) (inside ++ backtick :: rest) = inside.length :=
      runLength_append_cons hinside rfl rest
    rw [chars, List.cons_append, List.append_assoc, List.singleton_append, nameLength?,
      if_pos rfl]
    dsimp only
    rw [hlength, if_pos (by simp)]
    simp

/-- The backticks around a name are taken off it when it is read. -/
theorem withoutBackticks_chars (name : ParameterName) :
    withoutBackticks (String.ofList name.chars) = name.text := by
  cases name with
  | word first more hfirst hmore =>
    refine Text.trim_eq_self fun c hc => ?_
    have hword : isWordChar c = true := by
      rw [String.toList_ofList] at hc
      rcases List.mem_cons.mp hc with rfl | hc
      · exact isWordChar_of_first hfirst
      · exact hmore c hc
    exact beq_eq_false_iff_ne.mpr (ne_of_isWordChar hword isWordChar_backtick)
  | quoted inside hsome htick hline =>
    rw [chars, withoutBackticks, Text.trim_surrounded (by rfl)]
    refine Text.trim_eq_self fun c hc => ?_
    rw [String.toList_ofList] at hc
    exact beq_eq_false_iff_ne.mpr fun heq : c = backtick => htick (heq ▸ hc)

end ParameterName

/-! ### Lists of names -/

theorem ParameterName.newline_not_mem (name : ParameterName) : '\n' ∉ name.chars := by
  cases name with
  | word first more hfirst hmore =>
    intro hmem
    have hword : isWordChar '\n' = true := by
      rcases List.mem_cons.mp hmem with rfl | hmem
      · exact isWordChar_of_first hfirst
      · exact hmore _ hmem
    exact ne_of_isWordChar hword (by decide +kernel) rfl
  | quoted inside hsome htick hline =>
    simp only [chars, List.mem_cons, List.mem_append, List.not_mem_nil, or_false, not_or]
    exact ⟨by decide, hline, by decide⟩

/-- A name does not end with a carriage return. -/
theorem ParameterName.exists_concat (name : ParameterName) :
    ∃ w c, name.chars = w ++ [c] ∧ c ≠ '\r' := by
  cases name with
  | word first more hfirst hmore =>
    obtain ⟨w, c, hlast⟩ : ∃ w c, first :: more = w ++ [c] :=
      (List.eq_nil_or_concat' _).resolve_left (List.cons_ne_nil _ _)
    have hword : isWordChar c = true := by
      rcases List.mem_cons.mp (hlast ▸ List.mem_concat_self : c ∈ first :: more) with rfl | hmem
      · exact isWordChar_of_first hfirst
      · exact hmore c hmem
    exact ⟨w, c, hlast, ne_of_isWordChar hword (by decide +kernel)⟩
  | quoted inside => exact ⟨backtick :: inside, backtick, rfl, by decide⟩

theorem isWordChar_of_isGap (h : isGap c = true) : isWordChar c = false := by
  have hblank : isWordChar ' ' = false ∧ isWordChar '\t' = false := by decide +kernel
  rw [isGap, Bool.or_eq_true, decide_eq_true_eq, decide_eq_true_eq] at h
  rcases h with rfl | rfl
  · exact hblank.1
  · exact hblank.2

theorem Behind.newline_not_mem (h : Behind cs) : '\n' ∉ cs := by
  rcases h with rfl | rfl | ⟨-, hline, -⟩
  · exact List.not_mem_nil
  · decide
  · exact hline

theorem Behind.stops (h : Behind cs) : Stops isWordChar cs := by
  rcases h with rfl | rfl | ⟨hgap, -, -⟩
  · intro c hc
    cases hc
  · exact stops_cons (by decide +kernel)
  · intro c hc
    rw [Option.mem_def.mp hc] at hgap
    exact isWordChar_of_isGap hgap

theorem Behind.of_return (h : Behind (cs ++ ['\r'])) : Behind cs := by
  rcases h with h | h | ⟨hgap, hline, hcomma⟩
  · simp at h
  · exact .inl (List.append_left_eq_self.mp h)
  · cases cs with
    | nil => exact absurd hgap (by decide)
    | cons c cs =>
      refine .inr (.inr ⟨hgap, fun hmem => hline (List.mem_append_left _ hmem), ?_⟩)
      intro hhead
      refine hcomma ?_
      rw [List.dropWhile_append]
      cases hrest : (c :: cs).dropWhile isGap with
      | nil => rw [hrest] at hhead; cases hhead
      | cons d rest =>
        rw [hrest] at hhead
        exact hhead

theorem stops_further (more : List FurtherName) (h : Stops isWordChar cs) :
    Stops isWordChar (more.flatMap FurtherName.chars ++ cs) := by
  cases more with
  | nil => exact h
  | cons further more =>
    obtain ⟨before, after, name, hbefore, -⟩ := further
    cases before with
    | nil => exact stops_cons (by decide +kernel)
    | cons c before => exact stops_cons (isWordChar_of_isGap (hbefore c List.mem_cons_self))

theorem ParameterName.stops (name : ParameterName) (cs : List Char) :
    Stops isGap (name.chars ++ cs) := by
  obtain ⟨c, w, hchars, hc⟩ := name.exists_cons
  rw [hchars]
  exact stops_cons hc

theorem nextParameter?_further (further : FurtherName) (h : Stops isWordChar rest) :
    nextParameter? (further.chars ++ rest) =
      some (further.before.length, further.after.length, further.name.chars.length) := by
  obtain ⟨before, after, name, hbefore, hafter⟩ := further
  have hcomma : Stops isGap (',' :: (after ++ (name.chars ++ rest))) := stops_cons (by decide)
  simp only [FurtherName.chars, nextParameter?, List.append_assoc, List.cons_append,
    runLength_append_of_stops hcomma hbefore, List.drop_left,
    runLength_append_of_stops (name.stops rest) hafter, name.nameLength?_eq h, Option.map_some]

theorem nextParameter?_behind (h : Behind cs) : nextParameter? cs = none := by
  have hnone : (cs.dropWhile isGap).head? ≠ some ',' := by
    rcases h with rfl | rfl | ⟨-, -, hcomma⟩
    · decide
    · decide
    · exact hcomma
  rw [← drop_length_takeWhile] at hnone
  simp only [nextParameter?, runLength]
  generalize cs.drop _ = left at hnone
  split
  · exact absurd rfl hnone
  · rfl

/-- The further names are read one by one, and what stands behind them is left. -/
theorem moreParameters_further (more : List FurtherName) (h : Behind cs) : ∀ bound,
    (more.flatMap FurtherName.chars ++ cs).length ≤ bound →
      moreParameters bound (more.flatMap FurtherName.chars ++ cs) =
        (more.flatMap FurtherName.lexemes, cs) := by
  induction more with
  | nil =>
    intro bound _
    cases bound with
    | zero => rfl
    | succ bound =>
      rw [List.flatMap_nil, List.nil_append, moreParameters, nextParameter?_behind h]
      rfl
  | cons further more ih =>
    intro bound hbound
    have hnext := nextParameter?_further further (stops_further more h.stops)
    have hpos : 0 < further.chars.length :=
      List.length_pos_of_ne_nil (List.append_ne_nil_of_right_ne_nil _ (List.cons_ne_nil _ _))
    rw [List.flatMap_cons, List.append_assoc] at hbound ⊢
    cases bound with
    | zero =>
      rw [List.length_append] at hbound
      omega
    | succ bound =>
      have hrest := ih bound (by rw [List.length_append] at hbound; omega)
      rw [moreParameters, hnext]
      generalize more.flatMap FurtherName.chars ++ cs = left at hrest
      simp [FurtherName.chars, FurtherName.lexemes, ParameterName.lexeme, hrest]

namespace ParameterLine

variable (line : ParameterLine)

/-- The lexemes of the list of names. -/
def listLexemes : List Lexeme :=
  ⟨.docWhitespace, line.gap⟩ :: line.first.lexeme :: line.more.flatMap FurtherName.lexemes

theorem parameters_list (h : Behind cs) :
    parameters (line.list ++ cs) = (line.listLexemes, cs) := by
  have hgap : runLength isGap (line.gap ++ (line.first.chars ++
      (line.more.flatMap FurtherName.chars ++ cs))) = line.gap.length :=
    runLength_append_of_stops (line.first.stops _) line.hgap
  have hname := line.first.nameLength?_eq (stops_further line.more h.stops)
  have hbound : (line.more.flatMap FurtherName.chars ++ cs).length ≤ (line.list ++ cs).length := by
    simp only [list, List.length_append]
    omega
  have hmore := moreParameters_further line.more h _ hbound
  have hsome : line.gap.length ≠ 0 := fun hzero => line.hsome (List.length_eq_zero_iff.mp hzero)
  rw [list, List.append_assoc, List.append_assoc] at hmore ⊢
  simp only [parameters, hgap, List.drop_left, hname, if_neg hsome, hmore, List.take_left]
  rfl

/-! ### Lines -/

/-- The line up to what stands behind the names. -/
theorem line_list (h : Behind cs) : Doc.line (opening ++ (line.list ++ cs)) =
    ⟨.docMarker, ['#', '\x27']⟩ :: ⟨.docWhitespace, [' ']⟩ ::
      ⟨.docTagName, "@param".toList⟩ :: (line.listLexemes ++ content cs) := by
  have htag : ("param".toList ++ (line.list ++ cs)).takeWhile isTagChar = "param".toList := by
    obtain ⟨c, gap, hgap⟩ := List.exists_cons_of_ne_nil line.hsome
    have hc : isTagChar c = false := by
      have hblank := line.hgap c (hgap ▸ List.mem_cons_self)
      rw [isGap, Bool.or_eq_true, decide_eq_true_eq, decide_eq_true_eq] at hblank
      rcases hblank with rfl | rfl <;> decide
    have hword : ("param".toList).all isTagChar = true := by decide
    rw [List.takeWhile_append_of_pos (List.all_eq_true.mp hword), list, hgap, List.append_assoc,
      List.cons_append, List.takeWhile_cons_of_neg (by simp [hc]), List.append_nil]
  have hsome : ("param".toList).isEmpty = false := by decide
  have hline : opening ++ (line.list ++ cs) =
      '#' :: '\x27' :: ' ' :: '@' :: ("param".toList ++ (line.list ++ cs)) := rfl
  rw [hline]
  generalize hrest : "param".toList ++ (line.list ++ cs) = rest at htag
  have hmarked : marked ('@' :: rest) =
      ⟨.docTagName, "@param".toList⟩ :: (line.listLexemes ++ content cs) := by
    simp only [marked, htag, hsome, Bool.false_eq_true, if_false, if_true]
    rw [← hrest, List.drop_left, line.parameters_list h]
    rfl
  rw [← hmarked]
  rfl

/-- The list ends with a name. -/
theorem exists_list_eq : ∃ w c, line.list = w ++ [c] ∧ c ≠ '\r' := by
  rw [list]
  rcases List.eq_nil_or_concat' line.more with hmore | ⟨more, further, hmore⟩
  · obtain ⟨w, c, hname, hc⟩ := line.first.exists_concat
    exact ⟨line.gap ++ w, c, by simp [hmore, hname], hc⟩
  · obtain ⟨w, c, hname, hc⟩ := further.name.exists_concat
    refine ⟨line.gap ++ (line.first.chars ++ (more.flatMap FurtherName.chars ++
      (further.before ++ ',' :: (further.after ++ w)))), c, ?_, hc⟩
    simp [hmore, FurtherName.chars, hname]

/-- A carriage return at the end of the line stands behind the names. -/
theorem exists_unreturned : ∃ left, Behind left ∧
    (if line.chars.getLast? = some '\r' then line.chars.dropLast else line.chars) =
      opening ++ (line.list ++ left) := by
  by_cases hreturned : line.chars.getLast? = some '\r'
  · rw [if_pos hreturned]
    rw [chars, ← List.append_assoc] at hreturned ⊢
    rcases List.eq_nil_or_concat' line.behind with hnil | ⟨left, c, hleft⟩
    · obtain ⟨w, c, hlist, hc⟩ := line.exists_list_eq
      rw [hnil, List.append_nil, hlist, ← List.append_assoc, List.getLast?_concat] at hreturned
      exact absurd (Option.some.inj hreturned) hc
    · rw [hleft, ← List.append_assoc, List.getLast?_concat] at hreturned
      obtain rfl := Option.some.inj hreturned
      refine ⟨left, .of_return (hleft ▸ line.hbehind), ?_⟩
      rw [hleft, ← List.append_assoc, List.dropLast_concat, List.append_assoc]
  · rw [if_neg hreturned]
    exact ⟨line.behind, line.hbehind, rfl⟩

theorem newline_not_mem : '\n' ∉ line.chars := by
  have hblank : ∀ w : List Char, (∀ c ∈ w, isGap c) → '\n' ∉ w := fun w hw hmem =>
    absurd (hw _ hmem) (by decide)
  have hmore : ∀ further ∈ line.more, '\n' ∉ further.chars := by
    intro further _ hmem
    simp only [FurtherName.chars, List.mem_append, List.mem_cons] at hmem
    rcases hmem with hmem | hmem | hmem | hmem
    · exact hblank _ further.hbefore hmem
    · exact absurd hmem (by decide)
    · exact hblank _ further.hafter hmem
    · exact further.name.newline_not_mem hmem
  intro hmem
  simp only [chars, list, List.mem_append, List.mem_flatMap] at hmem
  rcases hmem with hmem | (hmem | hmem | ⟨further, hfurther, hmem⟩) | hmem
  · exact absurd hmem (by decide)
  · exact hblank _ line.hgap hmem
  · exact line.first.newline_not_mem hmem
  · exact hmore further hfurther hmem
  · exact line.hbehind.newline_not_mem hmem

end ParameterLine

/-! ### The names in lexemes -/

/-- The names that lexemes are read as. -/
def listed (ls : List Lexeme) : List String :=
  (ls.filter (·.kind == .docIdentifier)).map fun l => withoutBackticks (.ofList l.chars)

theorem listed_append (ls ms : List Lexeme) : listed (ls ++ ms) = listed ls ++ listed ms := by
  rw [listed, List.filter_append, List.map_append]
  rfl

theorem listed_cons (h : l.kind ≠ .docIdentifier) (ls : List Lexeme) :
    listed (l :: ls) = listed ls := by
  rw [listed, List.filter_cons_of_neg (by simpa using h)]
  rfl

theorem listed_identifier (h : l.kind = .docIdentifier) (ls : List Lexeme) :
    listed (l :: ls) = withoutBackticks (.ofList l.chars) :: listed ls := by
  rw [listed, List.filter_cons_of_pos (by simpa using h), List.map_cons]
  rfl

theorem listed_gap (w : List Char) : listed (nonempty .docWhitespace w) = [] := by
  rw [nonempty]
  split <;> rfl

theorem listed_lexeme (name : ParameterName) (ls : List Lexeme) :
    listed (name.lexeme :: ls) = name.text :: listed ls := by
  rw [listed_identifier rfl, ParameterName.lexeme, name.withoutBackticks_chars]

theorem listed_further (more : List FurtherName) :
    listed (more.flatMap FurtherName.lexemes) = more.map (·.name.text) := by
  induction more with
  | nil => rfl
  | cons further more ih =>
    rw [List.flatMap_cons, listed_append, ih, FurtherName.lexemes, listed_append, listed_gap,
      List.nil_append, listed_cons (by decide), listed_append, listed_gap, listed_lexeme]
    rfl

theorem moreNames_further (more : List FurtherName) :
    MoreNames (more.flatMap FurtherName.lexemes) := by
  induction more with
  | nil => exact .nil
  | cons further more ih =>
    rw [List.flatMap_cons, FurtherName.lexemes, List.append_assoc, List.cons_append,
      List.append_assoc]
    exact .cons (gap_nonempty _) rfl (gap_nonempty _) rfl ih

/-- The lexemes of a line that documents parameters, without its line end, and the names. -/
inductive Lists : List Lexeme → List String → Prop
  | mk {marker space tag gap name : Lexeme} {ms ls : List Lexeme}
      (hmarker : marker.kind = .docMarker) (hspace : space.kind = .docWhitespace)
      (htag : tag.kind = .docTagName) (hparam : tag.chars = "@param".toList)
      (hgap : gap.kind = .docWhitespace) (hname : name.kind = .docIdentifier)
      (hms : MoreNames ms) (hls : Content ls) :
    Lists (marker :: space :: tag :: gap :: name :: (ms ++ ls)) (listed (name :: ms))

/-- The lexemes of such lines, and all their names. -/
inductive ListLines : List Lexeme → List String → Prop
  | nil : ListLines [] []
  | last {ls : List Lexeme} {names : List String} (h : Lists ls names) : ListLines ls names
  | cons {ls ms : List Lexeme} {newline : Lexeme} {names more : List String} (h : Lists ls names)
      (hnewline : newline.kind = .docNewline) (hms : ListLines ms more) :
    ListLines (ls ++ newline :: ms) (names ++ more)

theorem ParameterLine.exists_lists (line : ParameterLine) (ended : Bool) : ∃ ls newline,
    Lists ls line.names ∧ newline.kind = .docNewline ∧
      lineWithEnd line.chars ended = ls ++ if ended then [newline] else [] := by
  obtain ⟨left, hleft, hchars⟩ := line.exists_unreturned
  have hnames : line.names =
      listed (line.first.lexeme :: line.more.flatMap FurtherName.lexemes) := by
    rw [listed_lexeme, listed_further, names]
  have hlists (returned : Bool) :
      Lists (Doc.line (opening ++ (line.list ++ left)) ++ ending returned) line.names := by
    rw [line.line_list hleft, hnames, listLexemes]
    simp only [List.cons_append, List.append_assoc]
    exact .mk rfl rfl rfl rfl rfl rfl (moreNames_further line.more)
      ((content_content left).append (content_ending returned))
  simp only [lineWithEnd, hchars]
  by_cases hreturned : line.chars.getLast? = some '\r'
  · cases ended with
    | true => exact ⟨_, ⟨.docNewline, ['\r', '\n']⟩, hlists false, rfl, by simp [hreturned, ending]⟩
    | false => exact ⟨_, ⟨.docNewline, ['\n']⟩, hlists true, rfl, by simp [hreturned, ending]⟩
  · exact ⟨_, ⟨.docNewline, ['\n']⟩, hlists false, rfl, by cases ended <;> simp [hreturned, ending]⟩

theorem linesFrom_ended {w : List Char} (hw : '\n' ∉ w) (cs : List Char) :
    linesFrom [] (w ++ '\n' :: cs) = lineWithEnd w true ++ linesFrom [] cs := by
  rw [DocScan.linesFrom_append hw, linesFrom, if_pos rfl, List.append_nil, List.reverse_reverse]

theorem linesFrom_last {w : List Char} (hw : '\n' ∉ w) : linesFrom [] w = lineWithEnd w false := by
  have hlast := DocScan.linesFrom_append hw [] []
  rwa [List.append_nil, List.append_nil, linesFrom, List.reverse_reverse] at hlast

/-- The lexemes of the lines as they are written list the names of all of them. -/
theorem listLines_written (ended : Bool) (lines : List ParameterLine) :
    ListLines (ofChars (written ended lines)) (lines.flatMap ParameterLine.names) := by
  rw [ofChars]
  induction lines with
  | nil => exact .nil
  | cons line lines ih =>
    obtain ⟨ls, newline, hls, hnewline, hended⟩ := line.exists_lists true
    cases lines with
    | cons next lines =>
      rw [written, linesFrom_ended line.newline_not_mem, hended, if_pos rfl, List.append_assoc]
      · exact .cons hls hnewline ih
      · exact List.cons_ne_nil _ _
    | nil =>
      rw [written]
      cases ended with
      | true =>
        rw [if_pos rfl, linesFrom_ended line.newline_not_mem, hended, if_pos rfl,
          List.append_assoc]
        exact .cons hls hnewline .nil
      | false =>
        obtain ⟨ms, _, hms, _, hlast⟩ := line.exists_lists false
        have hnames : [line].flatMap ParameterLine.names = line.names := by simp
        rw [if_neg Bool.false_ne_true, List.append_nil, linesFrom_last line.newline_not_mem, hlast,
          if_neg Bool.false_ne_true, List.append_nil, hnames]
        exact .last hms

end RSource.Lexeme.Doc
