import Dataflow.Proofs.Grammar.ViablePrefix
import Dataflow.Proofs.Program.Collect
import Dataflow.Proofs.Text.Position
import Dataflow.Proofs.Token.Coverage

/-!
# Where a syntax error points

A text that is rejected for its tokens is rejected at the first of them that no program can have there:
the tokens before it are viable and with it they are not
(`syntax_error_at_first_impossible_token`). When all tokens are viable but no program, the error is at
the end of the last one.

The error has a line and a column only. They determine the place, because places in a text have
different lines or columns (`Text.LineIndex.position_injective`) and tokens have different places
(`offsetAt_lt`).
-/

set_option autoImplicit false

namespace Dataflow

namespace Program

open Grammar Reading

/-! ## Places -/

/-- The offset of a token, or the end of the last token for an index beyond them. -/
def offsetAt (tokens : List Located) (k : Nat) : Nat :=
  match tokens[k]? with
  | some t => t.start
  | none => (tokens.getLast?.map (·.stop)).getD 0

/-- Tokens have text and stand one after the other. -/
structure Ordered (tokens : List Located) : Prop where
  nonempty : ∀ t ∈ tokens, t.start < t.stop
  disjoint : tokens.Pairwise fun a b => a.stop ≤ b.start

theorem ordered_locate (index : Text.LineIndex) (text : List Char) :
    Ordered (locate index (readTokens text)) := by
  have spaced := spaced_readTokens text
  constructor
  · intro t listed
    obtain ⟨item, member, located⟩ := List.mem_filterMap.mp listed
    obtain ⟨token, -, rfl⟩ := Option.map_eq_some_iff.mp located
    exact spaced.nonempty item member
  · refine spaced.disjoint.filterMap _ ?_
    intro a b before t located t' located'
    obtain ⟨token, -, rfl⟩ := Option.map_eq_some_iff.mp located
    obtain ⟨token', -, rfl⟩ := Option.map_eq_some_iff.mp located'
    exact before

/-- **Later tokens have greater offsets**, and the end of the last one has the greatest. -/
theorem offsetAt_lt {tokens : List Located} (ordered : Ordered tokens) {j k : Nat} (before : j < k)
    (inside : k ≤ tokens.length) : offsetAt tokens j < offsetAt tokens k := by
  have known : j < tokens.length := by omega
  have width := ordered.nonempty tokens[j] (List.getElem_mem known)
  have apart := List.pairwise_iff_getElem.mp ordered.disjoint
  unfold offsetAt
  rw [List.getElem?_eq_getElem known]
  by_cases last : k = tokens.length
  · -- The last token ends where it does or later.
    have final : tokens.length - 1 < tokens.length := by omega
    have wide := ordered.nonempty tokens[tokens.length - 1] (List.getElem_mem final)
    rw [List.getElem?_eq_none (Nat.le_of_eq last.symm), List.getLast?_eq_getElem?,
      List.getElem?_eq_getElem final]
    simp only [Option.map_some, Option.getD_some]
    by_cases same : j = tokens.length - 1
    · subst same
      exact width
    · have later := apart j (tokens.length - 1) known final (by omega)
      omega
  · have here : k < tokens.length := by omega
    rw [List.getElem?_eq_getElem here]
    exact Nat.lt_of_lt_of_le width (apart j k known here before)

/-! ## Where reading stops -/

/-- A run that stops has read the tokens before the one it stops at. -/
theorem run_eq_error {reading : Reading} {tokens : List Located} {stuck : Stuck}
    (stopped : reading.run tokens = .error stuck) :
    ∃ k, k < tokens.length ∧ reading.after? (tokens.take k) = some stuck.reading ∧
      stuck.found = tokens[k]? ∧ ∀ t, tokens[k]? = some t → stuck.reading.next? t = none := by
  induction tokens generalizing reading with
  | nil => cases stopped
  | cons t rest ih =>
    rw [run] at stopped
    cases next : reading.next? t with
    | none =>
      rw [next] at stopped
      cases stopped
      refine ⟨0, Nat.zero_lt_succ _, rfl, rfl, ?_⟩
      rintro u same
      cases same
      exact next
    | some after =>
      rw [next] at stopped
      obtain ⟨k, inside, read, found, impossible⟩ := ih stopped
      refine ⟨k + 1, Nat.succ_lt_succ inside, ?_, found, impossible⟩
      rw [List.take_succ_cons, after?, next]
      exact read

theorem finish_eq_error {reading : Reading} {stuck : Stuck} (stopped : reading.finish = .error stuck) :
    stuck = ⟨reading, none⟩ := by
  obtain ⟨done, phase⟩ := reading
  cases phase <;> cases stopped <;> rfl

/-- **Reading stops at the first token that is impossible, or after all of them.** -/
theorem readDefinitions_eq_error {tokens : List Located} {stuck : Stuck}
    (stopped : readDefinitions tokens = .error stuck) :
    ∃ k, k ≤ tokens.length ∧ initial.after? (tokens.take k) = some stuck.reading ∧
      stuck.found = tokens[k]? ∧ ∀ t, tokens[k]? = some t → stuck.reading.next? t = none := by
  unfold readDefinitions at stopped
  cases outcome : initial.run tokens with
  | error early =>
    rw [outcome] at stopped
    cases stopped
    obtain ⟨k, inside, rest⟩ := run_eq_error outcome
    exact ⟨k, Nat.le_of_lt inside, rest⟩
  | ok reading =>
    rw [outcome] at stopped
    obtain rfl := finish_eq_error stopped
    have none_left : tokens[tokens.length]? = none := List.getElem?_eq_none (Nat.le_refl _)
    refine ⟨tokens.length, Nat.le_refl _, ?_, none_left.symm, ?_⟩
    · rw [List.take_length]
      exact run_eq_ok_iff.mp outcome
    · intro t known
      rw [none_left] at known
      cases known

/-- The error for the place where reading stopped. -/
theorem stuckError_eq (index : Text.LineIndex) {tokens : List Located} {stuck : Stuck} {k : Nat}
    (found : stuck.found = tokens[k]?) :
    stuckError index tokens stuck = .unexpected (index.position (offsetAt tokens k))
      (tokens[k]?.map (·.token)) stuck.reading.phase.expected := by
  unfold stuckError offsetAt
  rw [found]
  cases tokens[k]? <;> rfl

/-- Definitions are never rejected for their tokens. -/
theorem collect_ne_unexpected (text : List Char) {definitions : List Definition} {position : Text.Position}
    {found : Option Token} {expected : List String} :
    collect text [] definitions ≠ .error (.unexpected position found expected) := by
  intro rejected
  obtain ⟨_, _, _, -, -, offends⟩ := collect_eq_error_iff.mp rejected
  cases offends

/-- When every piece is a token, the located tokens are those of the readings. -/
theorem map_value_readings (index : Text.LineIndex) {readings : List (Spanned (Option Token))}
    (readable : readings.find? (·.value.isNone) = none) :
    readings.map (·.value) = (words (locate index readings)).map some := by
  induction readings with
  | nil => rfl
  | cons item rest ih =>
    obtain ⟨here, later⟩ := List.forall_mem_cons.mp (List.find?_eq_none.mp readable)
    obtain ⟨reading, start, stop⟩ := item
    cases reading with
    | none => exact absurd rfl here
    | some token =>
      have tail := ih (List.find?_eq_none.mpr later)
      exact congrArg (some token :: ·) tail

/-- What is known of a text that is rejected for its tokens. -/
theorem exists_stuck_of_rejected {text : List Char} {position : Text.Position} {found : Option Token}
    {expected : List String} (rejected : parseText text = .error (.unexpected position found expected)) :
    (readTokens text).find? (·.value.isNone) = none ∧
      ∃ stuck, readDefinitions (locate (.ofText text) (readTokens text)) = .error stuck ∧
        stuckError (.ofText text) (locate (.ofText text) (readTokens text)) stuck =
          .unexpected position found expected := by
  unfold parseText at rejected
  dsimp only at rejected
  split at rejected
  · cases rejected
  · next readable =>
    refine ⟨readable, ?_⟩
    split at rejected
    · next stuck stopped => exact ⟨stuck, stopped, Except.error.inj rejected⟩
    · exact absurd rejected (collect_ne_unexpected text)

/-- **A syntax error points at the first impossible token.** The reported position is that of exactly one
token, or of the end of the last token when all are read; the tokens before it are viable, and with it
they are not. -/
theorem syntax_error_at_first_impossible_token (text : String) (position : Text.Position)
    (found : Option Token) (expected : List String)
    (rejected : parse text = .error (.unexpected position found expected)) :
    ∃ tokens, tokens = locate (.ofText text.toList) (readTokens text.toList) ∧
      (readTokens text.toList).map (·.value) = (words tokens).map some ∧
      ∃ k ≤ tokens.length, found = (words tokens)[k]? ∧
        (∀ j ≤ tokens.length,
          (Text.LineIndex.ofText text.toList).position (offsetAt tokens j) = position ↔ j = k) ∧
        Viable ((words tokens).take k) ∧
        (k < tokens.length → ¬ Viable ((words tokens).take (k + 1))) := by
  obtain ⟨readable, stuck, stopped, same⟩ := exists_stuck_of_rejected rejected
  refine ⟨_, rfl, map_value_readings _ readable, ?_⟩
  have ordered := ordered_locate (.ofText text.toList) text.toList
  generalize locate (.ofText text.toList) (readTokens text.toList) = tokens at stopped same ordered
  obtain ⟨k, inside, read, stop, impossible⟩ := readDefinitions_eq_error stopped
  rw [stuckError_eq _ stop] at same
  cases same
  refine ⟨k, inside, ?_, ?_, ?_, ?_⟩
  · exact List.getElem?_map.symm
  · intro j within
    constructor
    · intro samePosition
      have sameOffset := Text.LineIndex.position_injective _ samePosition
      -- Two places with one offset are one place.
      rcases Nat.lt_trichotomy j k with before | equal | after
      · exact absurd sameOffset (Nat.ne_of_lt (offsetAt_lt ordered before inside))
      · exact equal
      · exact absurd sameOffset.symm (Nat.ne_of_lt (offsetAt_lt ordered after within))
    · rintro rfl
      rfl
  · rw [words, ← List.map_take]
    exact viable_of_after? read
  · intro here
    have next := impossible tokens[k] (List.getElem?_eq_getElem here)
    rw [words, ← List.map_take, List.take_succ_eq_append_getElem here]
    exact not_viable_of_stuck read next

/-- In `x = ;` the semicolon is impossible and what stands before it is not, as the error at the
semicolon says. -/
theorem missing_value_rejected :
    parse "function main() \x7b\n  x = ;\n\x7d" =
      .error (.unexpected ⟨2, 7⟩ (some (.symbol .semicolon)) ["expression"]) ∧
    Viable [.keyword .function, .identifier "main", .symbol .leftParen, .symbol .rightParen,
      .symbol .leftBrace, .identifier "x", .symbol .assign] ∧
    ¬ Viable [.keyword .function, .identifier "main", .symbol .leftParen, .symbol .rightParen,
      .symbol .leftBrace, .identifier "x", .symbol .assign, .symbol .semicolon] := by
  have rejected : parse "function main() \x7b\n  x = ;\n\x7d" =
      .error (.unexpected ⟨2, 7⟩ (some (.symbol .semicolon)) ["expression"]) := by decide +kernel
  obtain ⟨tokens, rfl, -, k, -, -, place, viable, impossible⟩ :=
    syntax_error_at_first_impossible_token _ _ _ _ rejected
  obtain rfl : 7 = k := (place 7 (by decide +kernel)).mp (by decide +kernel)
  exact ⟨rejected, viable, impossible (by decide +kernel)⟩

end Program

end Dataflow
