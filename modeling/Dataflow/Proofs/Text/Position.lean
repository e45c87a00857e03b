import Dataflow.Text.Position
import Mathlib.Data.List.Induction
import Mathlib.Data.List.TakeWhile
import Mathlib.Data.Prod.Lex
import Mathlib.Order.Monotone.Basic

/-!
# Lines and columns in bytes

Places are counted in the bytes of a text, of which a line feed is one and no other character has it among
its own (`feed_mem_iff`). So the lines of a text start after the line feeds among its bytes
(`starts_ofText`), in ascending order. An offset up to the end of the text is on the line after the line
feeds before it, in the column after the bytes since the last of them (`position_ofText`).

For any line index, later offsets have later places when lines are compared before columns
(`strictMono_position`), so that no two offsets share a place (`position_injective`). Together this makes
the line index of a text exact (`LineIndex.exact_ofText`).
-/

set_option autoImplicit false

namespace Dataflow.Text

/-! ## Bytes -/

/-- The byte of a line feed. -/
def feed : UInt8 := 10

/-- The bytes of the UTF-8 form of a text. -/
def bytes (text : List Char) : List UInt8 := text.flatMap String.utf8EncodeChar

theorem bytes_toList (text : String) : bytes text.toList = text.toUTF8.data.toList := by
  rw [String.toUTF8_eq_toByteArray, ← String.utf8Encode_toList, List.utf8Encode,
    List.toList_data_toByteArray, bytes]

theorem bytes_cons (c : Char) (rest : List Char) :
    bytes (c :: rest) = String.utf8EncodeChar c ++ bytes rest :=
  List.flatMap_cons

theorem length_bytes (text : List Char) : (bytes text).length = byteLength text := by
  induction text with
  | nil => rfl
  | cons c rest ih => rw [bytes_cons, List.length_append, String.length_utf8EncodeChar, ih]; rfl

theorem bytes_append (as bs : List Char) : bytes (as ++ bs) = bytes as ++ bytes bs :=
  List.flatMap_append

theorem feed_eq_ofNat_iff (n : Nat) : feed = UInt8.ofNat n ↔ n % 256 = 10 := by
  rw [← UInt8.toNat_inj, UInt8.toNat_ofNat']
  exact eq_comm

/-- **A line feed is a byte of no other character.** -/
theorem feed_mem_iff {c : Char} : feed ∈ String.utf8EncodeChar c ↔ c = '\n' := by
  have char : c = '\n' ↔ c.val.toNat = 10 := by
    rw [Char.ext_iff, ← UInt32.toNat_inj]
    rfl
  rw [char]
  unfold String.utf8EncodeChar
  dsimp only
  split
  · rw [List.mem_singleton, feed_eq_ofNat_iff]
    omega
  · next long =>
    have other : c.val.toNat ≠ 10 := by omega
    -- Every byte of a longer form is at least 128.
    refine iff_of_false ?_ other
    split
    · simp only [List.mem_cons, List.not_mem_nil, feed_eq_ofNat_iff, or_false]
      omega
    · split <;> simp only [List.mem_cons, List.not_mem_nil, feed_eq_ofNat_iff, or_false] <;> omega

theorem count_feed_bytes (text : List Char) : (bytes text).count feed = text.count '\n' := by
  induction text with
  | nil => rfl
  | cons c rest ih =>
    rw [bytes_cons, List.count_append, ih]
    by_cases here : c = '\n'
    · subst here
      rw [List.count_cons_self, Nat.add_comm]
      rfl
    · rw [List.count_cons_of_ne here, List.count_eq_zero_of_not_mem (mt feed_mem_iff.mp here),
        Nat.zero_add]

/-! ## Line starts -/

/-- The offsets after the line feeds among bytes, the first of which is at `offset`. -/
def startsIn : Nat → List UInt8 → List Nat
  | _, [] => []
  | offset, b :: rest =>
    if b = feed then (offset + 1) :: startsIn (offset + 1) rest else startsIn (offset + 1) rest

theorem startsIn_append (offset : Nat) (as bs : List UInt8) :
    startsIn offset (as ++ bs) = startsIn offset as ++ startsIn (offset + as.length) bs := by
  induction as generalizing offset with
  | nil => rfl
  | cons a as ih =>
    have shift : offset + (a :: as).length = offset + 1 + as.length := by
      rw [List.length_cons]
      omega
    rw [List.cons_append, startsIn, startsIn, ih, shift]
    split <;> rfl

theorem startsIn_eq_nil {bs : List UInt8} (none : feed ∉ bs) (offset : Nat) : startsIn offset bs = [] := by
  induction bs generalizing offset with
  | nil => rfl
  | cons b bs ih =>
    obtain ⟨here, later⟩ := not_or.mp (mt List.mem_cons.mpr none)
    rw [startsIn, if_neg (Ne.symm here), ih later]

theorem length_startsIn (offset : Nat) (bs : List UInt8) :
    (startsIn offset bs).length = bs.count feed := by
  induction bs generalizing offset with
  | nil => rfl
  | cons b bs ih =>
    rw [startsIn, List.count_cons]
    split
    · next here => simp [here, ih]
    · next other => simp [other, ih]

theorem lt_of_mem_startsIn {offset start : Nat} {bs : List UInt8} (listed : start ∈ startsIn offset bs) :
    offset < start := by
  induction bs generalizing offset with
  | nil => cases listed
  | cons b bs ih =>
    rw [startsIn] at listed
    split at listed
    · rcases List.mem_cons.mp listed with rfl | later
      · exact Nat.lt_succ_self offset
      · exact Nat.lt_of_succ_lt (ih later)
    · exact Nat.lt_of_succ_lt (ih listed)

theorem pairwise_startsIn (offset : Nat) (bs : List UInt8) : (startsIn offset bs).Pairwise (· < ·) := by
  induction bs generalizing offset with
  | nil => exact .nil
  | cons b bs ih =>
    rw [startsIn]
    split
    · exact List.pairwise_cons.mpr ⟨fun _ later => lt_of_mem_startsIn later, ih _⟩
    · exact ih _

/-- The line starts up to an offset are those among the bytes before it. -/
theorem takeWhile_startsIn (offset count : Nat) (bs : List UInt8) :
    (startsIn offset bs).takeWhile (· ≤ offset + count) = startsIn offset (bs.take count) := by
  induction bs generalizing offset count with
  | nil => rw [List.take_nil]; rfl
  | cons b bs ih =>
    cases count with
    | zero =>
      -- The starts among the bytes from an offset on are beyond it.
      cases starts : startsIn offset (b :: bs) with
      | nil => rfl
      | cons start later =>
        have beyond : offset < start := lt_of_mem_startsIn (by rw [starts]; exact List.mem_cons_self)
        rw [List.takeWhile_cons, if_neg (by simpa using beyond)]
        rfl
    | succ count =>
      have shift : offset + (count + 1) = offset + 1 + count := by omega
      have counted : offset + 1 ≤ offset + 1 + count := Nat.le_add_right _ _
      rw [List.take_succ_cons, startsIn, startsIn, ← ih, shift]
      split
      · rw [List.takeWhile_cons, if_pos (decide_eq_true counted)]
      · rfl

/-- After the last line start come the bytes since the last line feed. -/
theorem getLastD_startsIn (offset : Nat) (bs : List UInt8) :
    (startsIn offset bs).getLastD offset + (bs.reverse.takeWhile (· ≠ feed)).length =
      offset + bs.length := by
  induction bs using List.reverseRecOn with
  | nil => rfl
  | append_singleton bs b ih =>
    rw [startsIn_append, List.reverse_append, List.reverse_singleton, List.singleton_append,
      List.takeWhile_cons, List.length_append, List.length_singleton, startsIn]
    by_cases here : b = feed
    · rw [if_pos here, if_neg (by simpa using here)]
      simp only [startsIn, List.getLastD_concat, List.length_nil]
      omega
    · rw [if_neg here, if_pos (by simpa using here)]
      simp only [startsIn, List.append_nil, List.length_cons]
      omega

/-- The lines of a text start after the line feeds among its bytes. -/
theorem startsAfter_eq (offset : Nat) (text : List Char) :
    LineIndex.startsAfter offset text = startsIn offset (bytes text) := by
  induction text generalizing offset with
  | nil => rfl
  | cons c rest ih =>
    rw [LineIndex.startsAfter, bytes_cons, startsIn_append, String.length_utf8EncodeChar, ih]
    by_cases here : c = '\n'
    · subst here
      rfl
    · rw [startsIn_eq_nil (mt feed_mem_iff.mp here)]
      exact if_neg here

theorem starts_ofText (text : List Char) :
    (LineIndex.ofText text).starts = 0 :: startsIn 0 (bytes text) := by
  rw [LineIndex.ofText, startsAfter_eq]

theorem LineIndex.pairwise_starts_ofText (text : List Char) :
    (ofText text).starts.Pairwise (· < ·) := by
  rw [starts_ofText]
  exact List.pairwise_cons.mpr ⟨fun _ later => lt_of_mem_startsIn later, pairwise_startsIn 0 _⟩

theorem LineIndex.upTo_ofText (text : List Char) (offset : Nat) :
    (ofText text).upTo offset = 0 :: startsIn 0 ((bytes text).take offset) := by
  have later := takeWhile_startsIn 0 offset (bytes text)
  rw [Nat.zero_add] at later
  rw [upTo, starts_ofText, List.takeWhile_cons, if_pos (decide_eq_true (Nat.zero_le offset)), later]

/-! ## Positions -/

/-- The place right after some bytes from the start of a text. -/
def Position.after (before : List UInt8) : Position :=
  ⟨1 + before.count feed, 1 + (before.reverse.takeWhile (· ≠ feed)).length⟩

theorem LineIndex.line_ofText (text : List Char) (offset : Nat) :
    (ofText text).line offset = 1 + ((bytes text).take offset).count feed := by
  rw [line, upTo_ofText, List.length_cons, length_startsIn, Nat.add_comm]

/-- **The place of an offset is read off the bytes before it.** -/
theorem LineIndex.position_ofText {text : List Char} {offset : Nat} (inside : offset ≤ (bytes text).length) :
    (ofText text).position offset = .after ((bytes text).take offset) := by
  have since := getLastD_startsIn 0 ((bytes text).take offset)
  rw [List.length_take_of_le inside] at since
  rw [position, line_ofText, upTo_ofText, List.getLastD_cons, Position.after]
  congr 1
  omega

/-- Lines are compared before columns. -/
def Position.key (p : Position) : Nat ×ₗ Nat := toLex (p.line, p.column)

namespace LineIndex

/-- The line that holds an offset starts at or before it. -/
theorem getLastD_upTo_le (index : LineIndex) (offset : Nat) :
    (index.upTo offset).getLastD 0 ≤ offset := by
  rw [List.getLastD_eq_getLast?]
  cases last : (index.upTo offset).getLast? with
  | none => exact Nat.zero_le offset
  | some start =>
    have listed : start ∈ index.starts.takeWhile (· ≤ offset) := List.mem_of_getLast? last
    exact of_decide_eq_true (List.all_eq_true.mp (List.all_takeWhile ..) start listed)

theorem upTo_prefix_upTo (index : LineIndex) {a b : Nat} (before : a ≤ b) :
    index.upTo a <+: index.upTo b := by
  have nested : (index.upTo b).takeWhile (· ≤ a) = index.upTo a := by
    rw [upTo, upTo, List.takeWhile_takeWhile]
    congr 1
    funext start
    simp only [decide_eq_true_eq, decide_eq_decide]
    omega
  exact nested ▸ List.takeWhile_prefix _

theorem monotone_line (index : LineIndex) : Monotone index.line :=
  fun _ _ before => (index.upTo_prefix_upTo before).length_le

/-- **Later offsets have later places.** -/
theorem strictMono_position (index : LineIndex) : StrictMono fun offset => (index.position offset).key := by
  intro a b before
  have starts := index.upTo_prefix_upTo (Nat.le_of_lt before)
  refine Prod.Lex.toLex_lt_toLex.mpr ?_
  rcases Nat.lt_or_eq_of_le starts.length_le with earlier | same
  · exact .inl earlier
  · -- They are on one line, which starts at or before the first.
    have begins := index.getLastD_upTo_le a
    refine .inr ⟨same, ?_⟩
    simp only [position, ← starts.eq_of_length same]
    omega

/-- **Two offsets have different lines or columns.** -/
theorem position_injective (index : LineIndex) : Function.Injective index.position :=
  Function.Injective.of_comp (f := Position.key) index.strictMono_position.injective

/-- The lines and columns of an index are those of a text with some bytes. -/
structure Exact (index : LineIndex) (content : List UInt8) : Prop where
  ascending : index.starts.Pairwise (· < ·)
  position_eq : ∀ offset ≤ content.length, index.position offset = .after (content.take offset)
  -- So the subtraction in a column is never cut off at zero.
  begins_le : ∀ offset, (index.upTo offset).getLastD 0 ≤ offset
  injective : Function.Injective index.position
  increasing : StrictMono fun offset => (index.position offset).key

/-- **The line index of a text is exact.** -/
theorem exact_ofText (text : String) : (ofText text.toList).Exact text.toUTF8.data.toList where
  ascending := pairwise_starts_ofText _
  position_eq offset inside := by
    rw [← bytes_toList] at inside ⊢
    exact position_ofText inside
  begins_le := getLastD_upTo_le _
  injective := position_injective _
  increasing := strictMono_position _

end LineIndex

end Dataflow.Text
