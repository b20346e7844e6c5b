import SchemaMigration.Json.Reader
import SchemaMigration.Json.Record
import SchemaMigration.Json.Writer
import Mathlib.Data.List.Chain
import Mathlib.Data.List.TakeWhile

/-!
# Scanning written tokens

The characters of a list of tokens scan to the same list, provided that the strings
have texts, that the numbers are integers, and that no two words stand side by
side: nothing would tell where the first of them ends.
-/

namespace SchemaMigration.Json

open SchemaMigration.Number

namespace Numeral

theorem all_isDigit_toDigits (n : Nat) : ∀ c ∈ Nat.toDigits 10 n, c.isDigit :=
  fun _ hc => Nat.isDigit_of_mem_toDigits (by decide) (by decide) hc

theorem digitsValue_toDigits (n : Nat) : digitsValue (Nat.toDigits 10 n) = n :=
  Nat.ofDigitChars_ten_toDigits

theorem digitChar_ne_zero : ∀ n < 10, 0 < n → Nat.digitChar n ≠ '0' := by
  decide

theorem head?_toDigits_ne_zero {n : Nat} (hpos : 0 < n) :
    (Nat.toDigits 10 n).head? ≠ some '0' := by
  induction n using Nat.strongRecOn with
  | _ n ih =>
    rw [Nat.toDigits_eq_if (by decide)]
    split
    · rename_i hsmall
      simpa using digitChar_ne_zero n hsmall hpos
    · rename_i hlarge
      rw [List.head?_append_of_ne_nil _ Nat.toDigits_ne_nil]
      exact ih (n / 10) (by omega) (by omega)

theorem isWhole_toDigits (n : Nat) : isWhole (Nat.toDigits 10 n) := by
  unfold isWhole
  split
  · rename_i hnil
    exact absurd hnil Nat.toDigits_ne_nil
  · rfl
  · rename_i hnil hzero
    have hpos : 0 < n := by
      by_contra hn
      rw [Nat.eq_zero_of_not_pos hn, Nat.toDigits_zero] at hzero
      exact hzero rfl
    rw [Bool.and_eq_true_iff]
    exact ⟨List.all_eq_true.mpr (all_isDigit_toDigits n),
      bne_iff_ne.mpr (head?_toDigits_ne_zero hpos)⟩

theorem takeWhile_toDigits (n : Nat) :
    (Nat.toDigits 10 n).takeWhile Char.isDigit = Nat.toDigits 10 n :=
  List.takeWhile_eq_self_iff.mpr (all_isDigit_toDigits n)

theorem dropWhile_toDigits (n : Nat) : (Nat.toDigits 10 n).dropWhile Char.isDigit = [] :=
  List.dropWhile_eq_nil_iff.mpr (all_isDigit_toDigits n)

theorem chars_ofInt (n : Int) :
    (ofInt n).chars = (if n < 0 then ['-'] else []) ++ Nat.toDigits 10 n.natAbs := by
  simp [chars, ofInt]

/-- Digits are no sign. -/
theorem toDigits_ne_minus (n : Nat) (rest : List Char) : Nat.toDigits 10 n ≠ '-' :: rest := by
  intro heq
  have hminus := all_isDigit_toDigits n '-' (by rw [heq]; exact List.mem_cons_self)
  exact absurd hminus (by decide)

theorem parse?_chars_ofInt (n : Int) : parse? (ofInt n).chars = some (ofInt n) := by
  rw [chars_ofInt]
  by_cases hneg : n < 0
  · simp [parse?, hneg, takeWhile_toDigits, dropWhile_toDigits, isWhole_toDigits, exponentPart?,
      ofInt]
  · unfold parse?
    rw [if_neg hneg, List.nil_append]
    split
    rename_i negative unsigned hsign
    have hunsigned : negative = false ∧ unsigned = Nat.toDigits 10 n.natAbs := by
      split at hsign
      · rename_i heq
        exact absurd heq (toDigits_ne_minus _ _)
      · cases hsign
        exact ⟨rfl, rfl⟩
    obtain ⟨rfl, rfl⟩ := hunsigned
    simp [takeWhile_toDigits, dropWhile_toDigits, isWhole_toDigits, exponentPart?, ofInt, hneg]

theorem integer?_ofInt (n : Int) : (ofInt n).integer? = some n := by
  have hvalue : (digitsValue (ofInt n).whole : Int) = n.natAbs :=
    congrArg Nat.cast (digitsValue_toDigits n.natAbs)
  have hwhole : (!(ofInt n).fraction.isEmpty || (ofInt n).exponent.isSome) = false := rfl
  rw [integer?, hvalue, if_neg (Bool.eq_false_iff.mp hwhole)]
  by_cases hneg : n < 0
  · have hnegative : (ofInt n).negative = true := decide_eq_true hneg
    rw [hnegative, if_neg (by decide), if_neg (by omega)]
    exact congrArg some (by omega)
  · have hpositive : (ofInt n).negative = false := decide_eq_false hneg
    rw [hpositive, Bool.not_false, if_pos rfl]
    exact congrArg some (by omega)

/-! ## Integers as doubles -/

theorem le_ofDigitChars (digits : List Char) (n : Nat) : n ≤ Nat.ofDigitChars 10 digits n := by
  induction digits generalizing n with
  | nil => exact le_rfl
  | cons digit digits ih =>
    rw [Nat.ofDigitChars_cons]
    exact le_trans (by omega) (ih (10 * n + (digit.toNat - '0'.toNat)))

/-- Digits whose value stays within the limit are all absorbed. -/
theorem absorb_eq {digits : List Char} {significand : Nat} (count : Nat)
    (hlimit : Nat.ofDigitChars 10 digits significand ≤ significandLimit) :
    absorb significand count digits =
      (Nat.ofDigitChars 10 digits significand, count + digits.length) := by
  induction digits generalizing significand count with
  | nil => rfl
  | cons digit digits ih =>
    rw [Nat.ofDigitChars_cons] at hlimit ⊢
    have hnext := le_trans (le_ofDigitChars digits _) hlimit
    rw [absorb, if_pos hnext, ih (count + 1) hlimit, List.length_cons, Nat.add_assoc,
      Nat.add_comm 1]

theorem scaled_ofInt {n : Int} (hword : Decoder.isWord n) :
    (ofInt n).scaled = (n.natAbs, 0) := by
  have hlimit : Nat.ofDigitChars 10 (Nat.toDigits 10 n.natAbs) 0 ≤ significandLimit := by
    rw [Nat.ofDigitChars_ten_toDigits, significandLimit]
    simp only [Decoder.isWord, Bool.and_eq_true, decide_eq_true_eq] at hword
    omega
  have hwhole := absorb_eq 0 hlimit
  rw [Nat.ofDigitChars_ten_toDigits] at hwhole
  simp [scaled, ofInt, hwhole, absorb]

theorem isSome_real?_ofInt {n : Int} (hword : Decoder.isWord n) : (ofInt n).real?.isSome := by
  have hscale (x : Float) : scale? x 0 = some x := by
    rw [scale?, if_pos rfl]
  rw [real?, scaled_ofInt hword]
  simp [ofInt, exponentLimit, hscale]

end Numeral

/-! ## Strings -/

/-- How a character of a string is read back: the control characters without an escape
of their own are written as code units. -/
def Piece.ofChar (c : Char) : Piece :=
  if c < ' ' ∧ c ∉ ['\x08', '\x0c', '\n', '\r', '\t'] then .unit c.toNat else .char c

namespace Piece

theorem text?_unit {code : Nat} (hcode : code < 0xD800) (rest : List Piece) :
    text? (.unit code :: rest) = (text? rest).map (Char.ofNat code :: ·) := by
  have hhigh : ¬ (0xD800 ≤ code) := by omega
  have hlow : ¬ (0xDC00 ≤ code) := by omega
  cases rest with
  | nil => simp [text?, hhigh]
  | cons piece rest => cases piece <;> simp [text?, hhigh, hlow]

theorem text?_map_ofChar (text : List Char) : text? (text.map ofChar) = some text := by
  induction text with
  | nil => rfl
  | cons c text ih =>
    rw [List.map_cons, ofChar]
    split
    · rename_i hcontrol
      have hcode : c.toNat < 32 := hcontrol.1
      rw [text?_unit (by omega), ih, Option.map_some, Char.ofNat_toNat]
    · rw [text?, ih, Option.map_some]

end Piece

namespace Scan

theorem hexValue?_digitChar : ∀ n < 16, hexValue? (Nat.digitChar n) = some n := by
  decide

theorem foldlM_controlEscape (tokens : List Token) (read : List Piece) {c : Char} (hc : c < ' ') :
    (controlEscape c).foldlM next? ⟨tokens, .string read⟩ =
      some ⟨tokens, .string (.unit c.toNat :: read)⟩ := by
  have hcode : c.toNat < 32 := hc
  have hsum : 16 * (c.toNat / 16) + c.toNat % 16 = c.toNat := Nat.div_add_mod _ 16
  have hzero : hexValue? '0' = some 0 := rfl
  simp [controlEscape, next?, hzero, hexValue?_digitChar _ (show c.toNat / 16 < 16 by omega),
    hexValue?_digitChar _ (show c.toNat % 16 < 16 by omega), hsum]

theorem foldlM_escapeChar (tokens : List Token) (read : List Piece) (c : Char) :
    (escapeChar c).foldlM next? ⟨tokens, .string read⟩ =
      some ⟨tokens, .string (.ofChar c :: read)⟩ := by
  unfold escapeChar
  split_ifs with hquote hslash hb hf hn hr ht hcontrol
  · subst c; rfl
  · subst c; rfl
  · subst c; rfl
  · subst c; rfl
  · subst c; rfl
  · subst c; rfl
  · subst c; rfl
  · have hspelled : c < ' ' ∧ c ∉ ['\x08', '\x0c', '\n', '\r', '\t'] :=
      ⟨hcontrol, by simp [hb, hf, hn, hr, ht]⟩
    rw [foldlM_controlEscape tokens read hcontrol, Piece.ofChar, if_pos hspelled]
  · rw [Piece.ofChar, if_neg (fun h => hcontrol h.1)]
    simp [next?, hquote, hslash, hcontrol]

theorem foldlM_stringChars (tokens : List Token) (text : String) :
    (stringChars (some text)).foldlM next? ⟨tokens, .nothing⟩ =
      some ⟨.scalar (.string (some text)) :: tokens, .nothing⟩ := by
  -- The pieces of a string are kept in reverse, whatever has been read of it.
  have hchars : ∀ (chars : List Char) (read : List Piece),
      (chars.flatMap escapeChar).foldlM next? ⟨tokens, .string read⟩ =
        some ⟨tokens, .string ((chars.map Piece.ofChar).reverse ++ read)⟩ := by
    intro chars
    induction chars with
    | nil => intro read; rfl
    | cons c chars ih =>
      intro read
      rw [List.flatMap_cons, List.foldlM_append, foldlM_escapeChar]
      simpa using ih (.ofChar c :: read)
  have hopen : next? ⟨tokens, .nothing⟩ '"' = some ⟨tokens, .string []⟩ := rfl
  have hclose (read : List Piece) :
      next? ⟨tokens, .string read⟩ '"' = some ⟨stringToken read :: tokens, .nothing⟩ := rfl
  have htoken : stringToken (text.toList.map Piece.ofChar).reverse =
      .scalar (.string (some text)) := by
    rw [stringToken, List.reverse_reverse, Piece.text?_map_ofChar, Option.map_some,
      String.ofList_toList]
  change ('"' :: (text.toList.flatMap escapeChar ++ ['"'])).foldlM next? ⟨tokens, .nothing⟩ = _
  rw [List.foldlM_cons, hopen, Option.bind_eq_bind, Option.bind_some, List.foldlM_append, hchars,
    List.append_nil, Option.bind_eq_bind, Option.bind_some, List.foldlM_cons, hclose, htoken]
  rfl

end Scan

/-! ## Tokens -/

namespace Token

/-- A word ends only where something else begins. -/
def isWord : Token → Bool
  | .scalar (.string _) => false
  | .scalar _ => true
  | _ => false

/-- No two words stand side by side. -/
def Apart (tokens : List Token) : Prop :=
  tokens.IsChain fun last token => last.isWord → token.isWord = false

/-- A token that is read back as written. -/
def Readable : Token → Prop
  | .scalar (.number numeral) => ∃ n, numeral = Numeral.ofInt n
  | .scalar (.string text) => text.isSome
  | _ => True

end Token

namespace Scan

open Token

/-- A scan that has come to the end of the given tokens, in reverse.  A word at their end
may still be open. -/
inductive Holds : Scan → List Token → Prop
  | closed (tokens : List Token) : Holds ⟨tokens, .nothing⟩ tokens
  | word {read : List Char} {scalar : Scalar} (tokens : List Token)
      (hword : wordScalar? read.reverse = some scalar) :
      Holds ⟨tokens, .word read⟩ (.scalar scalar :: tokens)

variable {scan : Scan} {tokens : List Token}

theorem Holds.finish? (hholds : scan.Holds tokens) : scan.finish? = some tokens.reverse := by
  cases hholds with
  | closed => rfl
  | word tokens hword => simp [Scan.finish?, hword]

/-- What ends a word comes after it as it comes after anything else. -/
theorem Holds.next? (hholds : scan.Holds tokens) {c : Char} (hc : isWordChar c = false) :
    scan.next? c = between? tokens c := by
  cases hholds with
  | closed => rfl
  | word tokens hword => simp [Scan.next?, hc, hword]

theorem isWord_of_wordScalar? {word : List Char} {scalar : Scalar}
    (hword : wordScalar? word = some scalar) : (Token.scalar scalar).isWord := by
  unfold wordScalar? at hword
  split_ifs at hword
  · cases hword; rfl
  · cases hword; rfl
  · cases hword; rfl
  · obtain ⟨numeral, -, rfl⟩ := Option.map_eq_some_iff.mp hword
    rfl

theorem Holds.eq_closed (hholds : scan.Holds tokens)
    (hlast : ∀ token ∈ tokens.head?, token.isWord = false) : scan = ⟨tokens, .nothing⟩ := by
  cases hholds with
  | closed => rfl
  | word tokens hword =>
    have hnot := hlast _ rfl
    rw [isWord_of_wordScalar? hword] at hnot
    cases hnot

theorem not_blank_of_isWordChar {c : Char} (hc : isWordChar c) : isBlank c = false ∧ c ≠ '"' := by
  constructor
  · by_contra hblank
    simp only [isBlank, Bool.or_eq_true, decide_eq_true_eq, Bool.not_eq_false] at hblank
    rcases hblank with ((rfl | rfl) | rfl) | rfl <;> exact absurd hc (by decide)
  · rintro rfl
    exact absurd hc (by decide)

/-- A word is read to its end. -/
theorem foldlM_word {word : List Char} (hne : word ≠ []) (hchars : ∀ c ∈ word, isWordChar c)
    (tokens : List Token) :
    word.foldlM Scan.next? ⟨tokens, .nothing⟩ = some ⟨tokens, .word word.reverse⟩ := by
  have hrest : ∀ (rest read : List Char), (∀ c ∈ rest, isWordChar c) →
      rest.foldlM Scan.next? ⟨tokens, .word read⟩ =
        some ⟨tokens, .word (rest.reverse ++ read)⟩ := by
    intro rest
    induction rest with
    | nil => intro read _; rfl
    | cons c rest ih =>
      intro read hrest
      have hc := hrest c List.mem_cons_self
      have hnext : Scan.next? ⟨tokens, .word read⟩ c = some ⟨tokens, .word (c :: read)⟩ := by
        simp [Scan.next?, hc]
      rw [List.foldlM_cons, hnext]
      simpa using ih (c :: read) fun d hd => hrest d (List.mem_cons_of_mem c hd)
  cases word with
  | nil => exact absurd rfl hne
  | cons c word =>
    have hc := hchars c List.mem_cons_self
    obtain ⟨hblank, hquote⟩ := not_blank_of_isWordChar hc
    have hnext : Scan.next? ⟨tokens, .nothing⟩ c = some ⟨tokens, .word [c]⟩ := by
      simp [Scan.next?, between?, hc, hblank, hquote]
    rw [List.foldlM_cons, hnext]
    simpa using hrest word [c] fun d hd => hchars d (List.mem_cons_of_mem c hd)

theorem isWordChar_chars_ofInt (n : Int) : ∀ c ∈ (Numeral.ofInt n).chars, isWordChar c := by
  intro c hc
  rw [Numeral.chars_ofInt, List.mem_append] at hc
  rcases hc with hsign | hdigit
  · have hminus : c = '-' := by
      split at hsign
      · simpa using hsign
      · cases hsign
    rw [hminus]
    rfl
  · have hdigit := Numeral.all_isDigit_toDigits _ c hdigit
    simp [isWordChar, Char.isAlphanum, hdigit]

theorem wordScalar?_chars_ofInt (n : Int) :
    wordScalar? (Numeral.ofInt n).chars = some (.number (Numeral.ofInt n)) := by
  have hname : ∀ name ∈ ["null".toList, "true".toList, "false".toList],
      (Numeral.ofInt n).chars ≠ name := by
    intro name hname heq
    have hparse := Numeral.parse?_chars_ofInt n
    rw [heq] at hparse
    simp only [List.mem_cons, List.not_mem_nil, or_false] at hname
    rcases hname with rfl | rfl | rfl <;> cases hparse
  rw [wordScalar?, if_neg (hname _ (by simp)), if_neg (hname _ (by simp)),
    if_neg (hname _ (by simp)), Numeral.parse?_chars_ofInt]
  rfl

/-- A word token is read to its end and then stands for its scalar. -/
theorem wordScalar?_chars {scalar : Scalar} (hword : (Token.scalar scalar).isWord)
    (hreadable : (Token.scalar scalar).Readable) :
    (∀ c ∈ (Token.scalar scalar).chars, isWordChar c) ∧
      wordScalar? (Token.scalar scalar).chars = some scalar := by
  cases scalar with
  | null => exact ⟨List.all_eq_true.mp rfl, rfl⟩
  | bool value => cases value <;> exact ⟨List.all_eq_true.mp rfl, rfl⟩
  | number numeral =>
    obtain ⟨n, rfl⟩ := hreadable
    exact ⟨isWordChar_chars_ofInt n, wordScalar?_chars_ofInt n⟩
  | string text => cases hword

theorem Holds.foldlM_cons (hholds : scan.Holds tokens) {c : Char} (hc : isWordChar c = false)
    (rest : List Char) :
    (c :: rest).foldlM Scan.next? scan = (c :: rest).foldlM Scan.next? ⟨tokens, .nothing⟩ := by
  rw [List.foldlM_cons, List.foldlM_cons, hholds.next? hc, (Holds.closed tokens).next? hc]

theorem Holds.token (hholds : scan.Holds tokens) {token : Token} (hreadable : token.Readable)
    (hapart : ∀ last ∈ tokens.head?, last.isWord → token.isWord = false) :
    ∃ next, token.chars.foldlM Scan.next? scan = some next ∧ next.Holds (token :: tokens) := by
  by_cases hword : token.isWord
  -- An open word would go on into this one, so the scan has to be closed.
  · have hclosed : scan = ⟨tokens, .nothing⟩ := by
      refine hholds.eq_closed fun last hlast => ?_
      by_contra hlastWord
      rw [hapart last hlast (Bool.not_eq_false _ ▸ hlastWord)] at hword
      cases hword
    cases token with
    | scalar scalar =>
      obtain ⟨hchars, hscalar⟩ := wordScalar?_chars hword hreadable
      have hne : (Token.scalar scalar).chars ≠ [] := by
        intro hnil
        rw [hnil] at hscalar
        cases hscalar
      refine ⟨_, by rw [hclosed, foldlM_word hne hchars], .word tokens ?_⟩
      rw [List.reverse_reverse, hscalar]
    | _ => cases hword
  · refine ⟨⟨token :: tokens, .nothing⟩, ?_, .closed _⟩
    cases token with
    | scalar scalar =>
      cases scalar with
      | string text =>
        obtain ⟨text, rfl⟩ := Option.isSome_iff_exists.mp hreadable
        rw [← foldlM_stringChars tokens text]
        exact hholds.foldlM_cons rfl _
      | _ => exact absurd rfl hword
    | _ => exact hholds.foldlM_cons rfl []

theorem Holds.append (hholds : scan.Holds tokens) (rest : List Token)
    (hreadable : ∀ token ∈ rest, token.Readable)
    (hapart : Apart (tokens.head?.toList ++ rest)) :
    ∃ next, (rest.flatMap Token.chars).foldlM Scan.next? scan = some next ∧
      next.Holds (rest.reverse ++ tokens) := by
  induction rest generalizing scan tokens with
  | nil => exact ⟨scan, rfl, hholds⟩
  | cons token rest ih =>
    have hfirst : ∀ last ∈ tokens.head?, last.isWord → token.isWord = false := by
      intro last hlast
      rw [Option.mem_def.mp hlast] at hapart
      exact (List.isChain_cons_cons.mp hapart).1
    obtain ⟨next, hnext, hnextHolds⟩ := hholds.token (hreadable token List.mem_cons_self) hfirst
    obtain ⟨last, hlast, hlastHolds⟩ := ih hnextHolds
      (fun other hother => hreadable other (List.mem_cons_of_mem token hother))
      (List.isChain_append.mp hapart).2.1
    refine ⟨last, ?_, ?_⟩
    · rw [List.flatMap_cons, List.foldlM_append, hnext]
      exact hlast
    · rw [List.reverse_cons, List.append_assoc]
      exact hlastHolds

end Scan

/-- Tokens are read back from their characters. -/
theorem Token.scan?_chars {tokens : List Token} (hreadable : ∀ token ∈ tokens, token.Readable)
    (hapart : Apart tokens) : Token.scan? (tokens.flatMap Token.chars) = some tokens := by
  obtain ⟨scan, hscan, hholds⟩ := (Scan.Holds.closed []).append tokens hreadable hapart
  rw [scan?, Scan.start, hscan, Option.bind_some, hholds.finish?, List.append_nil,
    List.reverse_reverse]

end SchemaMigration.Json
