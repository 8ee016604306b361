import Mathlib.Data.List.Basic
import RSource.Diagnostic.Queue
import RSource.Proofs.Errors
import RSource.Proofs.Lossless
import RSource.Proofs.Text.Lines

/-! What users see of the errors of a parse.  Errors of later places are no repetitions and are in
order already, so that a queue keeps the first of them, as many as its limit lets through. -/

namespace RSource

namespace QueueEntry

variable {e f : QueueEntry}

/-- The first entry stands before the second. -/
def Before (e f : QueueEntry) : Prop := e.line < f.line ∨ e.line = f.line ∧ e.column < f.column

theorem Before.notAfter (h : e.Before f) : e.notAfter f = true := by
  simp only [QueueEntry.notAfter, Bool.or_eq_true, Bool.and_eq_true, decide_eq_true_iff, beq_iff_eq]
  rcases h with hline | ⟨hline, hcolumn⟩
  · exact .inl hline
  · exact .inr ⟨hline, Nat.le_of_lt hcolumn⟩

theorem Before.not_repeats (h : e.Before f) : f.repeats e = false := by
  rw [repeats, Bool.and_assoc, Bool.and_eq_false_iff]
  refine .inr (Bool.eq_false_iff.mpr fun hplace => ?_)
  rw [Bool.and_eq_true, beq_iff_eq, beq_iff_eq] at hplace
  rcases h with hline | ⟨-, hcolumn⟩
  · omega
  · omega

end QueueEntry

namespace DiagnosticQueue

variable {q : DiagnosticQueue} {e : QueueEntry}

theorem errorCount_eq_length (h : ∀ f ∈ q.entries, f.diagnostic.isError = true) :
    q.errorCount = q.entries.length := List.countP_eq_length.mpr h

/-- Only the limit keeps an error out that stands behind what is queued. -/
theorem takes_eq (hqueued : ∀ f ∈ q.entries, f.diagnostic.isError = true)
    (hbefore : ∀ f ∈ q.entries, f.Before e) :
    q.takes e = decide (q.config.limit = 0 ∨ q.entries.length < q.config.limit) := by
  have hnew : q.entries.any e.repeats = false := by
    rw [List.any_eq_false]
    intro f hf
    rw [(hbefore f hf).not_repeats]
    exact Bool.false_ne_true
  rw [takes, hnew, Bool.and_false, Bool.not_false, Bool.and_true, limitReached,
    errorCount_eq_length hqueued]
  by_cases hlimit : q.config.limit = 0
  · rw [hlimit]
    rfl
  · by_cases hroom : q.entries.length < q.config.limit
    · simp [hroom]
    · simp [hlimit, hroom, Nat.le_of_not_lt hroom]

/-- Errors of later and later places are queued as long as the limit allows. -/
theorem entries_foldl_add {es : List QueueEntry}
    (herrors : ∀ f ∈ q.entries ++ es, f.diagnostic.isError = true)
    (hordered : (q.entries ++ es).Pairwise QueueEntry.Before) :
    (es.foldl add q).entries = q.entries ++
      es.take (if q.config.limit = 0 then es.length else q.config.limit - q.entries.length) := by
  induction es generalizing q with
  | nil => rw [List.take_nil, List.append_nil, List.foldl_nil]
  | cons e es ih =>
    have hqueued : ∀ f ∈ q.entries, f.diagnostic.isError = true := fun f hf =>
      herrors f (List.mem_append_left _ hf)
    have hbefore : ∀ f ∈ q.entries, f.Before e := fun f hf =>
      (List.pairwise_append.mp hordered).2.2 f hf e List.mem_cons_self
    have htakes := takes_eq hqueued hbefore
    rw [List.foldl_cons]
    by_cases hroom : q.config.limit = 0 ∨ q.entries.length < q.config.limit
    · rw [decide_eq_true hroom] at htakes
      have hadd : q.add e = { q with entries := q.entries ++ [e] } := by rw [add, if_pos htakes]
      rw [hadd, ih (by simpa using herrors) (by simpa using hordered)]
      show q.entries ++ [e] ++ _ = _
      rw [List.append_assoc, List.singleton_append]
      by_cases hlimit : q.config.limit = 0
      · rw [if_pos hlimit, if_pos hlimit, List.length_cons, List.take_succ_cons]
      · have hsucc : q.config.limit - q.entries.length =
            q.config.limit - (q.entries ++ [e]).length + 1 := by
          rw [List.length_append, List.length_singleton]
          omega
        rw [if_neg hlimit, if_neg hlimit, hsucc, List.take_succ_cons]
    · rw [decide_eq_false hroom] at htakes
      have hadd : q.add e = q := by rw [add, if_neg (by rw [htakes]; exact Bool.false_ne_true)]
      have hlimit : q.config.limit ≠ 0 := fun h => hroom (.inl h)
      have hfull : q.config.limit - q.entries.length = 0 := by omega
      have hsub : (q.entries ++ es).Sublist (q.entries ++ e :: es) :=
        (List.Sublist.refl _).append (List.sublist_cons_self e es)
      rw [hadd, ih (fun f hf => herrors f (hsub.subset hf)) (hordered.sublist hsub), if_neg hlimit,
        if_neg hlimit, hfull, List.take_zero, List.take_zero]

theorem diagnostic_entryIn (text : String) (d : Diagnostic) : (entryIn text d).diagnostic = d := by
  rw [entryIn]
  split
  · rfl
  · rfl

/-- A fresh queue gives back the first errors of a text, in the order they came in. -/
theorem diagnostics_addAll {config : QueueConfig} {text : String} {ds : List Diagnostic}
    (herrors : ∀ d ∈ ds, d.isError = true)
    (hordered : (ds.map (entryIn text)).Pairwise QueueEntry.Before) :
    ((empty config).addAll text ds).diagnostics =
      ds.take (if config.limit = 0 then ds.length else config.limit) := by
  have hentries := entries_foldl_add (q := empty config)
    (fun f (hf : f ∈ [] ++ ds.map (entryIn text)) => by
      obtain ⟨d, hd, rfl⟩ := List.mem_map.mp hf
      rw [diagnostic_entryIn]
      exact herrors d hd) hordered
  rw [List.foldl_map] at hentries
  change ((empty config).addAll text ds).entries = _ at hentries
  have hsorted := (hordered.sublist (List.take_sublist (if config.limit = 0 then ds.length
    else config.limit) _)).imp QueueEntry.Before.notAfter
  rw [diagnostics, hentries]
  show (List.mergeSort (List.take (if config.limit = 0 then (ds.map (entryIn text)).length
    else config.limit) _) _).map _ = _
  rw [List.length_map, List.mergeSort_of_pairwise hsorted, ← List.map_take, List.map_map]
  exact (List.map_congr_left fun d _ => diagnostic_entryIn text d).trans (List.map_id _)

end DiagnosticQueue

theorem ParseError.entryIn_diagnostic (text : String) (e : ParseError) :
    DiagnosticQueue.entryIn text e.diagnostic =
      ⟨(Text.positionIn text e.span.start).1, (Text.positionIn text e.span.start).2,
        e.diagnostic⟩ := rfl

/-- Errors along a text stand at later and later positions. -/
theorem ErrorsAlong.entries {text : String} {tokens : List Token} {errors : List ParseError}
    (h : ErrorsAlong text tokens errors) (hsize : Text.byteLength text < maxOffset) :
    ((errors.map ParseError.diagnostic).map (DiagnosticQueue.entryIn text)).Pairwise
      QueueEntry.Before := by
  rw [List.map_map, List.pairwise_map]
  refine h.ordered.imp_of_mem fun {e e'} he he' hlt => ?_
  rw [Function.comp_apply, Function.comp_apply, e.entryIn_diagnostic, e'.entryIn_diagnostic]
  have hboundary := h.boundary e' he' _ List.mem_cons_self
  exact Text.positionIn_lt (h.boundary e he _ List.mem_cons_self) hboundary
    (Nat.lt_of_le_of_lt (Text.le_of_isBoundary hboundary) hsize) hlt

/-- Of the errors of a parse only those over the limit are kept from the user; the others are shown
in their order. -/
theorem parse_reported {text : String} (hsize : Text.byteLength text < maxOffset) (limit : Nat) :
    ∃ p, parse text limit = .ok p ∧ ∀ config : QueueConfig,
      ((DiagnosticQueue.empty config).addAll p.tree.text p.diagnostics).diagnostics =
        (p.errors.take (if config.limit = 0 then p.errors.length
          else min config.limit p.errors.length)).map ParseError.diagnostic := by
  obtain ⟨p, hp, htext, -⟩ := parseTokens_ok (Nat.le_of_lt hsize) (lex text) limit
  refine ⟨p, hp, fun config => ?_⟩
  have hordered := (errorsAlong_of_parse hp).entries hsize
  have herrors : ∀ d ∈ p.diagnostics, d.isError = true := fun d hd => by
    obtain ⟨e, -, rfl⟩ := List.mem_map.mp hd
    rfl
  rw [htext, DiagnosticQueue.diagnostics_addAll herrors hordered, Parse.diagnostics,
    List.length_map, ← List.map_take]
  split
  · rfl
  · rw [List.take_eq_take_min]

theorem parse_reported_two : Text.byteLength "f(é y\n)) 1 2" < maxOffset ∧
    ∃ p, parse "f(é y\n)) 1 2" 10 = .ok p ∧ 2 ≤ p.errors.length ∧
      ((DiagnosticQueue.empty ⟨2, true⟩).addAll p.tree.text p.diagnostics).diagnostics =
        (p.errors.take (if 2 = 0 then p.errors.length else min 2 p.errors.length)).map
          ParseError.diagnostic := by
  have hsize : Text.byteLength "f(é y\n)) 1 2" < maxOffset := by decide
  have herrors : (parse "f(é y\n)) 1 2" 10).toOption.any (fun p => 2 ≤ p.errors.length) = true := by
    decide +kernel
  obtain ⟨p, hp, hlength⟩ := exists_of_any_toOption herrors
  obtain ⟨p', hp', hshown⟩ := parse_reported hsize 10
  obtain rfl := Except.ok.inj (hp.symm.trans hp')
  exact ⟨hsize, p, hp, by simpa using hlength, hshown ⟨2, true⟩⟩

end RSource
