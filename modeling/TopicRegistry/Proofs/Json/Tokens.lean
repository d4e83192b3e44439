import TopicRegistry.Document
import TopicRegistry.Json.Token

/-!
# The tokens of a written record

A word goes on until some other character ends it, so the value at the end of a field is a token
only together with the comma or the bracket after it. With that one more character a field has
completed all its tokens and left nothing open, and the tokens of a whole record are those of its
fields, separated as the fields are.
-/

namespace TopicRegistry

namespace Text

variable {π τ : Type} {advance : π → Char → Option (List τ × π)} {p q r : π}
  {cs ds : List Char} {ts us : List τ}

/-- Two scans of which one goes on where the other ended are one scan. -/
theorem scan_append_eq_some (first : scan advance p cs = some (ts, q))
    (second : scan advance q ds = some (us, r)) :
    scan advance p (cs ++ ds) = some (ts ++ us, r) := by
  simp [scan_append, first, second]

theorem scan_cons_eq_some {c : Char} (here : advance p c = some (ts, q))
    (rest : scan advance q cs = some (us, r)) :
    scan advance p (c :: cs) = some (ts ++ us, r) := by
  simp [scan, here, rest]

end Text

namespace Json

/-- No character of the text ends a word. -/
def Unbroken (text : List Char) : Prop :=
  ∀ c ∈ text, isBlank c = false ∧ c ≠ '"' ∧ punctuation? c = none

/-! ## What the values of fields are made of -/

theorem unbroken_of_isDigit {word : List Char} (digits : ∀ c ∈ word, c.isDigit) :
    Unbroken word := by
  intro c there
  -- All characters that end a word are written out in the model, and none is a digit.
  refine ⟨?blank, ?quote, ?mark⟩ <;> have digit := digits c there
  case blank =>
    rw [Bool.eq_false_iff]
    intro blank
    simp only [isBlank, Bool.or_eq_true, beq_iff_eq] at blank
    obtain ((rfl | rfl) | rfl) | rfl := blank <;> simp at digit
  case quote =>
    rintro rfl
    simp at digit
  case mark =>
    revert digit
    unfold punctuation?
    split <;> simp

theorem unbroken_spellScalar (scalar : Scalar) : Unbroken (spellScalar scalar) := by
  cases scalar with
  | flag value => cases value <;> simp [spellScalar, Unbroken, isBlank, punctuation?]
  | count value =>
    exact unbroken_of_isDigit fun c there =>
      Nat.isDigit_of_mem_toDigits (by decide) (by decide) there

theorem spellScalar_ne_nil (scalar : Scalar) : spellScalar scalar ≠ [] := by
  cases scalar with
  | flag value => cases value <;> decide
  | count value => exact Nat.toDigits_ne_nil

/-! ## Scanning a field -/

theorem scan_word {text : List Char} (unbroken : Unbroken text) (word : List Char) :
    Text.scan advance (.plain word) text = some ([], .plain (text.reverse ++ word)) := by
  induction text generalizing word with
  | nil => rfl
  | cons c text ih =>
    obtain ⟨⟨filled, unquoted, inside⟩, others⟩ := List.forall_mem_cons.mp unbroken
    have here : advance (.plain word) c = some ([], .plain (c :: word)) := by
      simp [advance, filled, unquoted, inside]
    simpa using Text.scan_cons_eq_some here (ih others (c :: word))

theorem scan_quoted {text : List Char} (unescaped : Unescaped text) (done : List Char) :
    Text.scan advance (.quoted done false) text =
      some ([], .quoted (text.reverse ++ done) false) := by
  induction text generalizing done with
  | nil => rfl
  | cons c text ih =>
    obtain ⟨⟨visible, unquoted, unslashed⟩, others⟩ := List.forall_mem_cons.mp unescaped
    have here : advance (.quoted done false) c = some ([], .quoted (c :: done) false) := by
      simp [advance, visible, unquoted, unslashed]
    simpa using Text.scan_cons_eq_some here (ih others (c :: done))

theorem scan_quote {name : String} (unescaped : Unescaped name.toList) :
    Text.scan advance (.plain []) (quote name) = some ([.text name.toList], .plain []) := by
  have opened : advance (.plain []) '"' = some ([], .quoted [] false) := by decide
  have closed : Text.scan advance (.quoted name.toList.reverse false) ['"'] =
      some ([.text name.toList], .plain []) := by
    simp [Text.scan, advance]
  have inside := scan_quoted unescaped []
  rw [List.append_nil] at inside
  exact Text.scan_cons_eq_some opened (Text.scan_append_eq_some inside closed)

def entryTokens (entry : String × Scalar) : List Token :=
  [.text entry.1.toList, .colon, .word (spellScalar entry.2)]

/-- A field is read to its end with the character after it. -/
theorem scan_entry {entry : String × Scalar} (unescaped : Unescaped entry.1.toList) {c : Char}
    {mark : Token}
    (ends : ∀ word, advance (.plain word) c = some (finish word ++ [mark], .plain [])) :
    Text.scan advance (.plain []) (spellMember entry ++ [c]) =
      some (entryTokens entry ++ [mark], .plain []) := by
  have colon : advance (.plain []) ':' = some ([.colon], .plain []) := by decide
  have value := scan_word (unbroken_spellScalar entry.2) []
  have finished : finish (spellScalar entry.2).reverse = [.word (spellScalar entry.2)] := by
    cases reversed : (spellScalar entry.2).reverse with
    | nil => exact absurd (List.reverse_eq_nil_iff.mp reversed) (spellScalar_ne_nil entry.2)
    | cons c cs => rw [finish, ← reversed, List.reverse_reverse]; simp
  have last : Text.scan advance (.plain ((spellScalar entry.2).reverse ++ [])) [c] =
      some ([.word (spellScalar entry.2), mark], .plain []) := by
    rw [List.append_nil]
    simp [Text.scan, ends, finished]
  have rest := Text.scan_cons_eq_some colon (Text.scan_append_eq_some value last)
  have whole := Text.scan_append_eq_some (scan_quote unescaped) rest
  simpa [spellMember, entryTokens] using whole

/-! ## Scanning a record -/

theorem scan_entries {entries : Entries}
    (unescaped : ∀ entry ∈ entries, Unescaped entry.1.toList) :
    Text.scan advance (.plain []) ([','].intercalate (entries.map spellMember) ++ ['}']) =
      some ([Token.comma].intercalate (entries.map entryTokens) ++ [.closing .curly],
        .plain []) := by
  induction entries with
  | nil => decide
  | cons entry entries ih =>
    obtain ⟨here, others⟩ := List.forall_mem_cons.mp unescaped
    cases entries with
    | nil => simpa using scan_entry here fun _ => rfl
    | cons next entries =>
      have first := scan_entry (c := ',') here fun _ => rfl
      have all := Text.scan_append_eq_some first (ih others)
      simpa [List.intercalate_cons_cons] using all

theorem tokens?_compact {entries : Entries}
    (unescaped : ∀ entry ∈ entries, Unescaped entry.1.toList) :
    tokens? (compact entries).toList =
      some (.opening .curly ::
        ([Token.comma].intercalate (entries.map entryTokens) ++ [.closing .curly])) := by
  have opened : advance (.plain []) '{' = some ([.opening .curly], .plain []) := by decide
  have blank : Text.scan advance (.plain []) [' '] = some ([], .plain []) := by decide
  have record := Text.scan_cons_eq_some opened (scan_entries unescaped)
  have padded := Text.scan_append_eq_some record blank
  rw [tokens?, compact, String.toList_ofList]
  simp only [List.cons_append, List.append_assoc, List.nil_append, List.append_nil] at padded ⊢
  rw [padded]

end Json

end TopicRegistry
