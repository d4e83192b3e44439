import Mathlib.Data.List.TakeWhile
import TopicRegistry.Document.Standard
import TopicRegistry.Proofs.Json.Tokens

/-!
# Compact objects are read

The tokens of the compact text of an object are put together to one object whose members are the
entries, in their order. A member gives back the name and the value of its entry: no name needs an
escape, and a number is spelled with the digits from which it is computed, whatever 64-bit number
it is.
-/

namespace TopicRegistry

namespace Json

/-! ## Names -/

theorem codes?_of_unescaped {text : List Char} (unescaped : Unescaped text) :
    codes? text = some (text.map Char.toNat) := by
  induction text with
  | nil => rw [codes?, List.map_nil]
  | cons c text ih =>
    obtain ⟨⟨-, -, unslashed⟩, others⟩ := List.forall_mem_cons.mp unescaped
    simp [codes?, unslashed, ih others]

/-- No character is half of a pair of surrogates. -/
theorem decode?_map_toNat (text : List Char) : decode? (text.map Char.toNat) = some text := by
  induction text with
  | nil => rfl
  | cons c text ih =>
    have valid : c.toNat.isValidChar := c.valid
    have single : ¬(0xD800 ≤ c.toNat ∧ c.toNat < 0xDC00) := by
      rcases valid with low | high <;> omega
    cases text with
    | nil => simp [decode?, valid]
    | cons d text =>
      rw [List.map_cons] at ih
      simp only [List.map_cons, decode?, valid, if_true, ih, Option.map_some, Char.ofNat_toNat]
      rw [if_neg fun pair => single ⟨pair.1, pair.2.1⟩]

/-! ## Values -/

/-- Only the number zero has a decimal form that begins with a zero. -/
theorem head?_toDigits_ne_zero {n : Nat} (positive : 0 < n) :
    (Nat.toDigits 10 n).head? ≠ some '0' := by
  induction n using Nat.strongRecOn with
  | ind n ih =>
    by_cases small : n < 10
    · rw [Nat.toDigits_of_lt_base small, List.head?_cons, ne_eq, Option.some.injEq,
        Nat.digitChar_eq_zero]
      exact positive.ne'
    · rw [Nat.toDigits_of_base_le (by decide) (Nat.le_of_not_lt small),
        List.head?_append, Option.or_of_isSome (List.isSome_head?.mpr Nat.toDigits_ne_nil)]
      exact ih (n / 10) (Nat.div_lt_self positive (by decide)) (by omega)

theorem all_isDigit_toDigits (n : Nat) : ∀ c ∈ Nat.toDigits 10 n, c.isDigit :=
  fun _ there => Nat.isDigit_of_mem_toDigits (by decide) (by decide) there

theorem isWhole_toDigits (n : Nat) : isWhole (Nat.toDigits 10 n) := by
  have digits : (Nat.toDigits 10 n).all Char.isDigit :=
    List.all_eq_true.mpr (all_isDigit_toDigits n)
  rcases Nat.eq_zero_or_pos n with rfl | positive
  · decide
  · simp [isWhole, digits, head?_toDigits_ne_zero positive]

theorem isNumber_of_isWhole {word : List Char} (whole : isWhole word) : isNumber word := by
  have digits : ∀ c ∈ word, c.isDigit := by
    simp only [isWhole, Bool.and_eq_true, List.all_eq_true] at whole
    exact whole.1.2
  have taken : word.takeWhile Char.isDigit = word := List.takeWhile_eq_self_iff.mpr digits
  have left : word.dropWhile Char.isDigit = [] := List.dropWhile_eq_nil_iff.mpr digits
  unfold isNumber
  split
  · exact absurd (digits '-' List.mem_cons_self) (by decide)
  · simp [taken, left, whole, isFraction, isExponent]

theorem isLiteral_spellScalar (scalar : Scalar) : isLiteral (spellScalar scalar) := by
  cases scalar with
  | flag value => cases value <;> decide
  | count value => simp [isLiteral, spellScalar, isNumber_of_isWhole (isWhole_toDigits _)]

theorem count?_spellScalar (value : UInt64) : count? (spellScalar (.count value)) = some value := by
  simp [count?, spellScalar, isWhole_toDigits, value.toNat_lt]

theorem datumOfWord_spellScalar (scalar : Scalar) :
    datumOfWord (spellScalar scalar) = .scalar scalar := by
  cases scalar with
  | flag value => cases value <;> decide
  | count value =>
    have whole : isWhole (spellScalar (.count value)) := isWhole_toDigits value.toNat
    have apart : ∀ word, isWhole word = false → spellScalar (.count value) ≠ word := by
      rintro _ broken rfl
      rw [whole] at broken
      cases broken
    rw [datumOfWord, if_neg (apart _ (by decide)), if_neg (apart _ (by decide)),
      if_neg (apart _ (by decide)), count?_spellScalar]

/-! ## Members -/

def member (entry : String × Scalar) : List Nat × Value :=
  (entry.1.toList.map Char.toNat, .word (spellScalar entry.2))

namespace Value

/-- What may stand where the next member of an object begins. -/
def awaiting : List (List Nat × Value) → Expected
  | [] => .firstKey
  | members => .key members

theorem step_awaiting (members : List (List Nat × Value)) (outer : List Unclosed)
    (raw : List Char) :
    step (awaiting members, outer) (.text raw) =
      (codes? raw).map fun key => (.colon members key, outer) := by
  cases members <;> rfl

theorem foldlM_entryTokens {entry : String × Scalar} (unescaped : Unescaped entry.1.toList)
    (members : List (List Nat × Value)) (outer : List Unclosed) :
    (entryTokens entry).foldlM step (awaiting members, outer) =
      some (.afterMember (member entry :: members), outer) := by
  have colon : ∀ key, step (.colon members key, outer) .colon =
      some (.value, .object members key :: outer) := fun _ => rfl
  have value : step (.value, .object members (entry.1.toList.map Char.toNat) :: outer)
      (.word (spellScalar entry.2)) = some (.afterMember (member entry :: members), outer) := by
    simp [step, start, isLiteral_spellScalar, place, member]
  simp [entryTokens, step_awaiting, codes?_of_unescaped unescaped, colon, value]

/-- The members that are still to come are put behind those that were read. Nothing but the end
of the object may come if there is none of either. -/
theorem foldlM_entries {entries : Entries} {members : List (List Nat × Value)}
    (outer : List Unclosed)
    (unescaped : ∀ entry ∈ entries, Unescaped entry.1.toList)
    (started : entries ≠ [] ∨ members = []) :
    ([Token.comma].intercalate (entries.map entryTokens) ++ [Token.closing .curly]).foldlM step
        (awaiting members, outer) =
      some (place (.object (members.reverse ++ entries.map member)) outer) := by
  induction entries generalizing members with
  | nil =>
    obtain rfl : members = [] := by simpa using started
    rfl
  | cons entry entries ih =>
    obtain ⟨here, others⟩ := List.forall_mem_cons.mp unescaped
    have first := foldlM_entryTokens here members outer
    -- A comma stands between two members only, so the last one is a case of its own.
    cases entries with
    | nil =>
      have closed : step (.afterMember (member entry :: members), outer) (.closing .curly) =
          some (place (.object (member entry :: members).reverse) outer) := rfl
      simp [List.foldlM_append, first, closed]
    | cons next entries =>
      have comma : step (.afterMember (member entry :: members), outer) .comma =
          some (awaiting (member entry :: members), outer) := rfl
      have rest := @ih (member entry :: members) others (.inl (List.cons_ne_nil _ _))
      rw [List.map_cons, List.map_cons, List.intercalate_cons_cons, ← List.map_cons,
        List.append_assoc, List.append_assoc, List.foldlM_append, first]
      simp only [List.singleton_append, List.foldlM_cons, Option.bind_eq_bind, Option.bind_some,
        comma, rest]
      simp

theorem ofText?_compact {entries : Entries}
    (unescaped : ∀ entry ∈ entries, Unescaped entry.1.toList) :
    ofText? (compact entries) = some (.object (entries.map member)) := by
  have opened : step (.value, []) (.opening .curly) = some (awaiting [], []) := rfl
  have all := foldlM_entries [] unescaped (.inr rfl)
  rw [ofText?, tokens?_compact unescaped, Option.bind_some, ofTokens?, List.foldlM_cons, opened]
  simp only [Option.bind_eq_bind, Option.bind_some, all]
  rfl

end Value

/-- All that is seen of a compact object are its entries. -/
theorem outline_object_map_member (entries : Entries) :
    (Value.object (entries.map member)).outline =
      .object (entries.map fun entry => (some entry.1, .scalar entry.2)) := by
  rw [Value.outline, List.map_map]
  congr 1
  apply List.map_congr_left
  intro entry _
  simp [member, decode?_map_toNat, Value.datum, datumOfWord_spellScalar]

end Json

end TopicRegistry
