import SchemaMigration.Number.Layout
import SchemaMigration.Proofs.SqlTokens
import Mathlib.Data.List.Forall2

/-!
# Numbers and tokens as SQL texts

A number is one word, and tokens with blanks between them are read one by one.
-/

namespace SchemaMigration

open Sql

/-! ## Numbers -/

/-- A number as a text writes it: a word without a capital R, which is in every keyword that
could end an expression or a definition. -/
structure Sql.Numeric (chars : List Char) : Prop where
  isWord : Sql.isWord chars
  notMem : 'R' ∉ chars

/-- Digits and points after a minus or none. -/
theorem numeric_digits (negative : Bool) {digits : List Char} (hne : digits ≠ [])
    (hdigits : ∀ c ∈ digits, c.isDigit ∨ c = '.') :
    Numeric (if negative then '-' :: digits else digits) := by
  have hall : digits.all Scan.isWordChar := List.all_eq_true.mpr fun c hc => by
    rcases hdigits c hc with hdigit | rfl
    · simp [Scan.isWordChar, Char.isAlphanum, hdigit]
    · rfl
  have hnotMem : 'R' ∉ digits := fun hmem => absurd (hdigits 'R' hmem) (by decide)
  cases negative with
  | true =>
    refine ⟨?_, fun hmem => ?_⟩
    · simp [Sql.isWord, hall, hne]
    · rcases List.mem_cons.mp hmem with hminus | hmem
      · exact absurd hminus (by decide)
      · exact hnotMem hmem
  | false =>
    refine ⟨?_, hnotMem⟩
    rw [if_neg Bool.false_ne_true]
    unfold Sql.isWord
    split
    · exact absurd rfl hne
    · exact absurd (hdigits '-' List.mem_cons_self) (by decide)
    · exact hall

theorem numeric_toString (n : Int) : Numeric (toString n).toList := by
  have hdigits (m : Nat) : ∀ c ∈ Nat.toDigits 10 m, c.isDigit ∨ c = '.' :=
    fun c hc => Or.inl (Nat.isDigit_of_mem_toDigits (by decide) (by decide) hc)
  cases n with
  | ofNat m =>
    have hchars : (toString (Int.ofNat m)).toList = Nat.toDigits 10 m := by
      change (Nat.repr m).toList = _
      rw [Nat.repr_eq_ofList_toDigits, String.toList_ofList]
    rw [hchars]
    exact numeric_digits false Nat.toDigits_ne_nil (hdigits m)
  | negSucc m =>
    have hchars : (toString (Int.negSucc m)).toList = '-' :: Nat.toDigits 10 (m + 1) := by
      change ("-" ++ Nat.repr (m + 1)).toList = _
      rw [String.toList_append, Nat.repr_eq_ofList_toDigits]
      simp
    rw [hchars]
    exact numeric_digits true Nat.toDigits_ne_nil (hdigits (m + 1))

namespace Number.Decimal

theorem isDigit_significant (d : Decimal) : ∀ c ∈ d.significant, c.isDigit := by
  intro c hc
  rw [significant, List.mem_reverse] at hc
  have hmem := List.mem_reverse.mp ((List.dropWhile_sublist _).subset hc)
  exact Nat.isDigit_of_mem_toDigits (by decide) (by decide) hmem

theorem isDigit_whole (d : Decimal) : ∀ c ∈ d.whole, c.isDigit := by
  intro c hc
  rw [whole] at hc
  split at hc
  · rw [List.mem_singleton.mp hc]
    rfl
  · rcases List.mem_append.mp hc with hc | hc
    · exact isDigit_significant d c (List.mem_of_mem_take hc)
    · rw [List.eq_of_mem_replicate hc]
      rfl

theorem isDigit_fraction (d : Decimal) : ∀ c ∈ d.fraction, c.isDigit := by
  intro c hc
  rw [fraction] at hc
  split at hc
  · rcases List.mem_append.mp hc with hc | hc
    · rw [List.eq_of_mem_replicate hc]
      rfl
    · exact isDigit_significant d c hc
  · exact isDigit_significant d c (List.mem_of_mem_drop hc)

theorem whole_ne_nil (d : Decimal) : d.whole ≠ [] := by
  rw [whole]
  split
  · exact List.cons_ne_nil _ _
  · intro hnil
    have hlength := congrArg List.length hnil
    simp only [List.length_rightpad, List.length_nil] at hlength
    omega

/-- The digits of a decimal with the point between them. -/
theorem digits_spelled (d : Decimal) :
    (if d.fraction.isEmpty then d.whole else d.whole ++ '.' :: d.fraction) ≠ [] ∧
      ∀ c ∈ if d.fraction.isEmpty then d.whole else d.whole ++ '.' :: d.fraction,
        c.isDigit ∨ c = '.' := by
  have hwhole : ∀ c ∈ d.whole, c.isDigit ∨ c = '.' := fun c hc => Or.inl (d.isDigit_whole c hc)
  have hfraction : ∀ c ∈ d.fraction, c.isDigit ∨ c = '.' :=
    fun c hc => Or.inl (d.isDigit_fraction c hc)
  split
  · exact ⟨d.whole_ne_nil, hwhole⟩
  · exact ⟨List.append_ne_nil_of_left_ne_nil d.whole_ne_nil _,
      List.forall_mem_append.mpr ⟨hwhole, List.forall_mem_cons.mpr ⟨Or.inr rfl, hfraction⟩⟩⟩

end Number.Decimal

theorem numeric_positional (x : Float) : Numeric (Number.positional x).toList := by
  unfold Number.positional
  split
  · split_ifs <;> exact ⟨by decide, by decide⟩
  · rename_i negative magnitude hfinite
    rw [String.toList_ofList]
    cases magnitude with
    | none =>
      exact numeric_digits negative (List.cons_ne_nil _ _)
        (List.forall_mem_singleton.mpr (Or.inl rfl))
    | some magnitude =>
      obtain ⟨hne, hdigits⟩ := (magnitude.shortest .up).digits_spelled
      exact numeric_digits negative hne hdigits

/-! ## Tokens between blanks -/

namespace Sql

/-- A token as SQL writes it. -/
def Token.text : Token → String
  | .identifier name => Text.identifier name
  | .string text => Text.stringLiteral text
  | .word text => text
  | .openParen => "("
  | .closeParen => ")"
  | .comma => ","
  | .semicolon => ";"

/-- A name, a string or a well-formed word. -/
def Token.isSpelled : Token → Bool
  | .identifier _ | .string _ => true
  | .word text => isWord text.toList
  | _ => false

theorem intercalate_singletons (tokens : List Token) :
    List.intercalate [] (tokens.map fun token => [token]) = tokens := by
  induction tokens with
  | nil => rfl
  | cons first rest ih =>
    cases rest with
    | nil => rfl
    | cons second rest =>
      rw [List.map_cons] at ih ⊢
      rw [List.map_cons, List.intercalate_cons_cons, ih, List.append_nil, List.singleton_append]

theorem phrase_text {token : Token} (htoken : token.isSpelled) : Phrase token.text [token] := by
  cases token with
  | identifier name => exact phrase_identifier name
  | string text => exact phrase_stringLiteral text
  | word text => exact phrase_word htoken
  | _ => cases htoken

/-- Tokens with blanks between them are read one by one. -/
theorem phrase_tokens {tokens : List Token} (htokens : ∀ token ∈ tokens, token.isSpelled) :
    Phrase (String.intercalate " " (tokens.map Token.text)) tokens := by
  have hphrases : List.Forall₂ Phrase (tokens.map Token.text)
      (tokens.map fun token => [token]) := by
    rw [List.forall₂_map_left_iff, List.forall₂_map_right_iff]
    exact List.forall₂_same.mpr fun token htoken => phrase_text (htokens token htoken)
  have hphrase := Phrase.intercalate Link.blank hphrases
  rwa [intercalate_singletons] at hphrase

/-- Texts that are the texts of tokens, whatever stands in front. -/
def Joined (texts : List String) (tokens : List Token) : Prop :=
  ∀ first, String.intercalate " " (first :: texts) =
    String.intercalate " " (first :: tokens.map Token.text)

theorem intercalate_append (separator first : String) (texts others : List String) :
    String.intercalate separator (first :: (texts ++ others)) =
      String.intercalate separator (String.intercalate separator (first :: texts) :: others) := by
  induction texts generalizing first with
  | nil => rw [List.nil_append, String.intercalate_singleton]
  | cons second texts ih =>
    rw [List.cons_append, String.intercalate_cons_cons, String.intercalate_cons_cons, ih,
      String.intercalate_cons_append]

theorem joined_single {text : String} {tokens : List Token} (hne : tokens ≠ [])
    (htext : text = String.intercalate " " (tokens.map Token.text)) : Joined [text] tokens := by
  intro first
  have hne : tokens.map Token.text ≠ [] := fun hnil => hne (List.map_eq_nil_iff.mp hnil)
  rw [String.intercalate_cons_cons, String.intercalate_singleton,
    String.intercalate_cons_of_ne_nil hne, htext]

theorem Joined.append {texts others : List String} {tokens otherTokens : List Token}
    (htexts : Joined texts tokens) (hothers : Joined others otherTokens) :
    Joined (texts ++ others) (tokens ++ otherTokens) := by
  intro first
  rw [List.map_append, intercalate_append, intercalate_append, htexts, hothers]

end Sql

end SchemaMigration
