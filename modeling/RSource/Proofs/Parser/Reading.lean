import RSource.Parser.Basic

/-! What a parser reads.  The items of a cursor come from tokens and end with an end of file
(`Over`), and a parser goes from one cursor to another over items none of which is an end of file
(`Reads`). -/

namespace RSource

/-- A line end stands among the layout directly before the token with an index. -/
def startsLine (tokens : List Token) (index : Nat) : Bool :=
  ((tokens.take index).reverse.takeWhile (·.kind.isLayout)).any (·.kind == .newline)

/-- The indices of the tokens that are not layout; the first token has the index `place`. -/
def significant (place : Nat) : List Token → List Nat
  | [] => []
  | t :: ts =>
    if t.kind.isLayout then significant (place + 1) ts
    else place :: significant (place + 1) ts

theorem significant_append (place : Nat) (xs ys : List Token) :
    significant place (xs ++ ys) = significant place xs ++ significant (place + xs.length) ys := by
  induction xs generalizing place with
  | nil => rfl
  | cons x xs ih =>
    rw [List.cons_append, significant, significant, ih, List.length_cons, Nat.add_right_comm,
      Nat.add_assoc]
    split <;> rfl

theorem significant_eq_nil {xs : List Token} (h : ∀ x ∈ xs, x.kind.isLayout = true)
    (place : Nat) : significant place xs = [] := by
  induction xs generalizing place with
  | nil => rfl
  | cons x xs ih =>
    rw [significant, if_pos (h x List.mem_cons_self)]
    exact ih (fun y hy => h y (List.mem_cons_of_mem _ hy)) _

/-- Before the first token that is not layout stands layout. -/
theorem significant_eq_cons {index : Nat} {more : List Nat} (xs : List Token) : ∀ place : Nat,
    significant place xs = index :: more →
    ∃ layout x rest, xs = layout ++ x :: rest ∧ (∀ y ∈ layout, y.kind.isLayout = true) ∧
      x.kind.isLayout = false ∧ index = place + layout.length ∧
      more = significant (index + 1) rest := by
  induction xs with
  | nil => intro place h; cases h
  | cons x xs ih =>
    intro place h
    rw [significant] at h
    split at h
    · next hx =>
      obtain ⟨layout, y, rest, rfl, hlayout, hy, hindex, hmore⟩ := ih _ h
      refine ⟨x :: layout, y, rest, rfl, ?_, hy, ?_, hmore⟩
      · exact List.forall_mem_cons.mpr ⟨hx, hlayout⟩
      · rw [List.length_cons]; omega
    · next hx =>
      obtain ⟨rfl, rfl⟩ := List.cons.inj h
      exact ⟨[], x, xs, rfl, by simp, by simpa using hx, rfl, rfl⟩

theorem mem_significant {index : Nat} {xs : List Token} : ∀ {place : Nat},
    index ∈ significant place xs ↔
      ∃ i x, index = place + i ∧ xs[i]? = some x ∧ x.kind.isLayout = false := by
  induction xs with
  | nil => simp [significant]
  | cons x xs ih =>
    intro place
    have hrest : index ∈ significant (place + 1) xs ↔
        ∃ i y, index = place + (i + 1) ∧ (x :: xs)[i + 1]? = some y ∧ y.kind.isLayout = false := by
      simp only [ih, List.getElem?_cons_succ, Nat.add_right_comm, Nat.add_assoc]
    rw [significant]
    split
    · next hx =>
      rw [hrest]
      constructor
      · rintro ⟨i, y, hy⟩
        exact ⟨i + 1, y, hy⟩
      · rintro ⟨_ | i, y, rfl, hy, hlayout⟩
        · obtain rfl : x = y := by simpa using hy
          simp [hx] at hlayout
        · exact ⟨i, y, rfl, hy, hlayout⟩
    · next hx =>
      rw [List.mem_cons, hrest]
      constructor
      · rintro (rfl | ⟨i, y, hy⟩)
        · exact ⟨0, x, rfl, rfl, by simpa using hx⟩
        · exact ⟨i + 1, y, hy⟩
      · rintro ⟨_ | i, y, rfl, hy, hlayout⟩
        · exact .inl rfl
        · exact .inr ⟨i, y, rfl, hy, hlayout⟩

namespace Item

/-- The item is one of the tokens, or an end of file after them. -/
structure Of (tokens : List Token) (item : Item) : Prop where
  token : ∀ i, item.index = some i → tokens[i]? = some item.token
  line : ∀ i, item.index = some i → startsLine tokens i = item.newlineBefore
  ending : item.index = none → item.token.kind = .endOfFile

theorem of_ofTokens (ts : List Token) : ∀ (before : List Token) (newline : Bool)
    (last : Option Token),
    newline = (before.reverse.takeWhile (·.kind.isLayout)).any (·.kind == .newline) →
    ∀ item ∈ ofTokens before.length newline last ts, item.Of (before ++ ts) := by
  induction ts with
  | nil =>
    intro before newline last _ item hitem
    rw [ofTokens] at hitem
    split at hitem
    · simp at hitem
    · obtain rfl := List.mem_singleton.mp hitem
      exact ⟨fun _ h => by simp [ending] at h, fun _ h => by simp [ending] at h, fun _ => rfl⟩
  | cons t ts ih =>
    intro before newline last hnewline item hitem
    have hnext := ih (before ++ [t])
    rw [List.length_append, List.append_assoc] at hnext
    rw [ofTokens] at hitem
    split at hitem
    · next ht =>
      exact hnext true _ (by simp [TokenKind.isLayout, beq_iff_eq.mp ht]) item hitem
    · next ht =>
      split at hitem
      · next htrivia =>
        exact hnext newline _ (by simp [TokenKind.isLayout, htrivia, hnewline, ht]) item hitem
      · next htrivia =>
        rcases List.mem_cons.mp hitem with rfl | hitem
        · refine ⟨fun i h => ?_, fun i h => ?_, fun h => by simp at h⟩ <;>
            obtain rfl := Option.some.inj h
          · simp
          · simp [startsLine, hnewline]
        · exact hnext false _ (by simp [TokenKind.isLayout, htrivia, ht]) item hitem

theorem filterMap_index_ofTokens (ts : List Token) : ∀ (place : Nat) (newline : Bool)
    (last : Option Token),
    (ofTokens place newline last ts).filterMap Item.index = significant place ts := by
  induction ts with
  | nil =>
    intro place newline last
    rw [ofTokens]
    split <;> rfl
  | cons t ts ih =>
    intro place newline last
    rw [ofTokens, significant]
    split
    · next ht => simp [TokenKind.isLayout, ht, ih]
    · next ht =>
      split
      · next htrivia => simp [TokenKind.isLayout, htrivia, ih]
      · next htrivia => simp [TokenKind.isLayout, htrivia, ht, ih]

/-- Items are closed by an end of file. -/
theorem getLast?_ofTokens (ts : List Token) : ∀ (place : Nat) (newline : Bool)
    (last : Option Token), (ts = [] → last.any (·.kind == .endOfFile) = false) →
    ∃ item, (ofTokens place newline last ts).getLast? = some item ∧
      item.token.kind = .endOfFile := by
  induction ts with
  | nil =>
    intro place newline last hlast
    exact ⟨ending last newline, by simp [ofTokens, hlast rfl], rfl⟩
  | cons t ts ih =>
    intro place newline last _
    rw [ofTokens]
    split
    · next ht => exact ih _ _ _ fun _ => by simp [beq_iff_eq.mp ht]
    · split
      · next htrivia =>
        refine ih _ _ _ fun _ => ?_
        cases hk : t.kind <;> simp_all [TokenKind.isTrivia]
      · by_cases hend : ts = [] ∧ t.kind = .endOfFile
        · obtain ⟨rfl, hk⟩ := hend
          exact ⟨⟨some place, t, newline⟩, by simp [ofTokens, hk], hk⟩
        · obtain ⟨item, hitem, hkind⟩ := ih (place + 1) false (some t) fun h => by
            simpa using fun hk => hend ⟨h, hk⟩
          exact ⟨item, by simp [List.getLast?_cons, hitem], hkind⟩

/-- Only the last item can lack an index. -/
theorem index_ne_none_of_mem_dropLast (ts : List Token) : ∀ (place : Nat) (newline : Bool)
    (last : Option Token),
    ∀ item ∈ (ofTokens place newline last ts).dropLast, item.index ≠ none := by
  induction ts with
  | nil =>
    intro place newline last item hitem
    rw [ofTokens] at hitem
    split at hitem
    · simp at hitem
    · simp at hitem
  | cons t ts ih =>
    intro place newline last item hitem
    rw [ofTokens] at hitem
    split at hitem
    · exact ih _ _ _ item hitem
    · split at hitem
      · exact ih _ _ _ item hitem
      · cases hrest : ofTokens (place + 1) false (some t) ts with
        | nil => simp [hrest] at hitem
        | cons other others =>
          rw [hrest, List.dropLast_cons_of_ne_nil (List.cons_ne_nil _ _)] at hitem
          rcases List.mem_cons.mp hitem with rfl | hitem
          · simp
          · exact ih _ _ _ item (hrest ▸ hitem)

/-! ### One token -/

section

variable {t : Token} {ts : List Token} {place : Nat} {newline : Bool} {last : Option Token}

theorem ofTokens_newline (h : t.kind = .newline) :
    ofTokens place newline last (t :: ts) = ofTokens (place + 1) true (some t) ts := by
  rw [ofTokens, if_pos (beq_iff_eq.mpr h)]

theorem ofTokens_trivia (h : t.kind.isTrivia = true) :
    ofTokens place newline last (t :: ts) = ofTokens (place + 1) newline (some t) ts := by
  have hnewline : t.kind ≠ .newline := by
    intro hkind
    rw [hkind] at h
    cases h
  rw [ofTokens, if_neg (by simpa using hnewline), if_pos h]

theorem ofTokens_seen (h : t.kind.isLayout = false) : ofTokens place newline last (t :: ts) =
    ⟨some place, t, newline⟩ :: ofTokens (place + 1) false (some t) ts := by
  obtain ⟨htrivia, hnewline⟩ := Bool.or_eq_false_iff.mp h
  rw [ofTokens, hnewline, htrivia]
  rfl

end

end Item

namespace Cursor

/-- The items from the cursor on come from tokens, and the last of them is an end of file. -/
structure Over (tokens : List Token) (c : Cursor) : Prop where
  of : ∀ item ∈ c.items, item.Of tokens
  indexed : ∀ item ∈ c.items.dropLast, item.index ≠ none
  closed : ∃ item, c.items.getLast? = some item ∧ item.token.kind = .endOfFile

/-- From `c` one reads the items `xs`, none of which is an end of file, and comes to `d`. -/
structure Reads (c : Cursor) (xs : List Item) (d : Cursor) : Prop where
  items : c.items = xs ++ d.items
  before : d.before = xs.reverse ++ c.before
  inside : ∀ item ∈ xs, item.token.kind ≠ .endOfFile

theorem items_ne_nil (c : Cursor) : c.items ≠ [] := List.cons_ne_nil _ _

theorem ofTokens_items (tokens : List Token) :
    (ofTokens tokens).items = Item.ofTokens 0 false none tokens ∧ (ofTokens tokens).before = [] := by
  obtain ⟨item, hitem, -⟩ := Item.getLast?_ofTokens tokens 0 false none fun _ => rfl
  rw [ofTokens]
  split
  · next h => exact ⟨h.symm, rfl⟩
  · next h => simp [h] at hitem

theorem over_ofTokens (tokens : List Token) : (ofTokens tokens).Over tokens := by
  refine ⟨?_, ?_, ?_⟩ <;> rw [(ofTokens_items tokens).1]
  · simpa using Item.of_ofTokens tokens [] false none rfl
  · exact Item.index_ne_none_of_mem_dropLast tokens 0 false none
  · exact Item.getLast?_ofTokens tokens 0 false none fun _ => rfl

variable {tokens : List Token} {c d e : Cursor} {xs ys : List Item}

theorem Reads.refl (c : Cursor) : c.Reads [] c := ⟨rfl, rfl, fun _ h => by simp at h⟩

theorem Reads.trans (h : c.Reads xs d) (h' : d.Reads ys e) : c.Reads (xs ++ ys) e :=
  ⟨by rw [h.items, h'.items, List.append_assoc],
    by rw [h'.before, h.before, List.reverse_append, List.append_assoc],
    fun item hitem => (List.mem_append.mp hitem).elim (h.inside item) (h'.inside item)⟩

/-- Who reads nothing stays. -/
theorem Reads.eq_of_nil (h : c.Reads [] d) : d = c := by
  obtain ⟨hitems, hbefore, -⟩ := h
  simp only [List.nil_append, Cursor.items, List.cons.injEq, List.reverse_nil] at hitems hbefore
  cases c; cases d; simp_all

theorem Reads.remaining (h : c.Reads xs d) : c.remaining = xs.length + d.remaining := by
  have := congrArg List.length h.items
  simp only [Cursor.items, List.length_cons, List.length_append] at this
  simp only [Cursor.remaining]
  omega

theorem Over.reads (h : c.Over tokens) (hr : c.Reads xs d) : d.Over tokens := by
  refine ⟨fun item hitem => h.of item (by rw [hr.items]; exact List.mem_append_right _ hitem),
    fun item hitem => h.indexed item ?_, ?_⟩
  · rw [hr.items, List.dropLast_append_of_ne_nil d.items_ne_nil]
    exact List.mem_append_right _ hitem
  obtain ⟨item, hlast, hkind⟩ := h.closed
  rw [hr.items, List.getLast?_append, List.getLast?_eq_some_getLast d.items_ne_nil,
    Option.some_or] at hlast
  exact ⟨item, by rw [List.getLast?_eq_some_getLast d.items_ne_nil, hlast], hkind⟩

theorem Over.here (h : c.Over tokens) : c.here.Of tokens := h.of _ List.mem_cons_self

/-- What is read has an index. -/
theorem Over.index (h : c.Over tokens) (hr : c.Reads xs d) {item : Item} (hitem : item ∈ xs) :
    ∃ i, item.index = some i := by
  refine Option.ne_none_iff_exists'.mp fun hnone => hr.inside item hitem ?_
  exact (h.of item (by rw [hr.items]; exact List.mem_append_left _ hitem)).ending hnone

/-- At an end of file that the tokens lack, nothing comes after. -/
theorem Over.after_eq_nil (h : c.Over tokens) (hnone : c.here.index = none) : c.after = [] := by
  cases hafter : c.after with
  | nil => rfl
  | cons item items =>
    refine absurd hnone (h.indexed c.here ?_)
    rw [Cursor.items, hafter, List.dropLast_cons_of_ne_nil (List.cons_ne_nil _ _)]
    exact List.mem_cons_self

theorem Over.eq_nil (h : c.Over tokens) (hr : c.Reads xs d)
    (hnone : xs.filterMap Item.index = []) : xs = [] := by
  refine List.eq_nil_iff_forall_not_mem.mpr fun item hitem => ?_
  obtain ⟨i, hi⟩ := h.index hr hitem
  rw [List.filterMap_eq_nil_iff] at hnone
  simp [hnone item hitem] at hi

/-- One looks ahead at where one moves to. -/
theorem here_advance (hend : c.atEnd = false) : c.advance.here = c.ahead 1 := by
  rw [Cursor.advance, if_neg (by simp [hend])]
  split
  · next hafter => simp [ahead, Cursor.items, hafter]
  · next hafter => simp [ahead, Cursor.items, hafter]

theorem kind_advance (hend : c.atEnd = false) : c.advance.kind = c.kindAhead 1 := by
  rw [kind, here_advance hend, kindAhead]

/-- Before the end, the cursor moves over the item it stands at. -/
theorem Over.advance (h : c.Over tokens) (hend : c.atEnd = false) :
    c.Reads [c.here] c.advance := by
  have hkind : c.here.token.kind ≠ .endOfFile := by simpa [atEnd, kind] using hend
  obtain ⟨item, hlast, hitem⟩ := h.closed
  rw [Cursor.advance, if_neg (by simp [hend])]
  split
  · next hafter =>
    simp only [Cursor.items, hafter, List.getLast?_singleton, Option.some.injEq] at hlast
    exact absurd (hlast ▸ hitem) hkind
  · next hafter =>
    exact ⟨by simp [Cursor.items, hafter], rfl, by simpa using hkind⟩

/-- After a move, the item before the cursor is the one it stood at. -/
theorem Over.previousSpan_advance (h : c.Over tokens) (hend : c.atEnd = false) :
    c.advance.previousSpan = c.span := by
  rw [previousSpan, (h.advance hend).before]
  rfl

end Cursor

end RSource
