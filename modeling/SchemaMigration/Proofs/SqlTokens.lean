import SchemaMigration.Text.Quoted
import Mathlib.Data.List.Basic

/-!
# Reading SQL texts

A text is read character by character into tokens: names between double quotes,
strings between single quotes, words and punctuation.  Inside quotes a doubled mark
stands for itself and everything else is part of the text.  A minus may only begin a
word, so that no comment begins anywhere.
-/

namespace SchemaMigration.Sql

inductive Token
  | identifier (name : String)
  | string (text : String)
  | word (text : String)
  | openParen
  | closeParen
  | comma
  | semicolon
deriving DecidableEq

/-- Where in a token the reading stands.  What has been read of it is kept in reverse.
After a mark inside quotes the text has ended, unless another mark follows. -/
inductive Inside
  | nothing
  | word (read : List Char)
  | quoted (mark : Char) (read : List Char)
  | marked (mark : Char) (read : List Char)

/-- The tokens read so far, in reverse, and the token being read. -/
structure Scan where
  tokens : List Token
  inside : Inside

namespace Scan

def isBlank (c : Char) : Bool := c = ' ' || c = '\t' || c = '\n' || c = '\r'

def isWordChar (c : Char) : Bool := c.isAlphanum || c = '_' || c = '.'

def punctuation? : Char → Option Token
  | '(' => some .openParen
  | ')' => some .closeParen
  | ',' => some .comma
  | ';' => some .semicolon
  | _ => none

/-- The token of a quoted text. -/
def quotedToken (mark : Char) (read : List Char) : Token :=
  if mark = '"' then .identifier (String.ofList read.reverse)
  else .string (String.ofList read.reverse)

/-- One character between tokens. -/
def between? (tokens : List Token) (c : Char) : Option Scan :=
  if isBlank c then some ⟨tokens, .nothing⟩
  else if c = '"' ∨ c = '\'' then some ⟨tokens, .quoted c []⟩
  else if isWordChar c ∨ c = '-' then some ⟨tokens, .word [c]⟩
  else (punctuation? c).map fun token => ⟨token :: tokens, .nothing⟩

/-- The token of a finished word; a minus alone is none. -/
def wordToken? (read : List Char) : Option Token :=
  if read = ['-'] then none else some (.word (String.ofList read.reverse))

/-- Reads one more character. -/
def next? (scan : Scan) (c : Char) : Option Scan :=
  match scan.inside with
  | .nothing => between? scan.tokens c
  | .word read =>
      if isWordChar c then some ⟨scan.tokens, .word (c :: read)⟩
      else if c = '"' ∨ c = '\'' ∨ c = '-' then none
      else (wordToken? read).bind fun token => between? (token :: scan.tokens) c
  | .quoted mark read =>
      if c = mark then some ⟨scan.tokens, .marked mark read⟩
      else some ⟨scan.tokens, .quoted mark (c :: read)⟩
  | .marked mark read =>
      if c = mark then some ⟨scan.tokens, .quoted mark (mark :: read)⟩
      else between? (quotedToken mark read :: scan.tokens) c

/-- The tokens once the text has ended. -/
def finish? (scan : Scan) : Option (List Token) :=
  match scan.inside with
  | .nothing => some scan.tokens.reverse
  | .word read => (wordToken? read).map fun token => (token :: scan.tokens).reverse
  | .quoted _ _ => none
  | .marked mark read => some (quotedToken mark read :: scan.tokens).reverse

end Scan

/-- The tokens of a text. -/
def tokens? (text : String) : Option (List Token) :=
  (text.toList.foldlM Scan.next? ⟨[], .nothing⟩).bind Scan.finish?

/-! ## Texts and their tokens -/

/-- A character that ends whatever stands before it outside quotes. -/
def isBreak (c : Char) : Bool := Scan.isBlank c || (Scan.punctuation? c).isSome

/-- A scan that has come to the end of the given tokens, in reverse.  The last of them may
still be open. -/
inductive Scan.Holds : Scan → List Token → Prop
  | closed (tokens : List Token) : Holds ⟨tokens, .nothing⟩ tokens
  | word {read : List Char} {token : Token} (tokens : List Token)
      (hword : wordToken? read = some token) : Holds ⟨tokens, .word read⟩ (token :: tokens)
  | quoted (mark : Char) (read : List Char) (tokens : List Token)
      (hmark : mark = '"' ∨ mark = '\'') :
      Holds ⟨tokens, .marked mark read⟩ (quotedToken mark read :: tokens)

namespace Scan

variable {scan : Scan} {tokens : List Token}

theorem Holds.finish? (hholds : scan.Holds tokens) : scan.finish? = some tokens.reverse := by
  cases hholds with
  | closed => rfl
  | word tokens hword => simp [Scan.finish?, hword]
  | quoted mark read tokens => rfl

theorem isBreak_cases {c : Char} (hc : isBreak c) :
    c ∈ [' ', '\t', '\n', '\r', '(', ')', ',', ';'] := by
  rw [isBreak, Bool.or_eq_true] at hc
  rcases hc with hblank | hpunctuation
  · simp only [isBlank, Bool.or_eq_true, decide_eq_true_eq] at hblank
    rcases hblank with ((rfl | rfl) | rfl) | rfl <;> simp
  · unfold punctuation? at hpunctuation
    split at hpunctuation
    · simp
    · simp
    · simp
    · simp
    · cases hpunctuation

theorem ne_of_isBreak {c : Char} (hc : isBreak c) :
    isWordChar c = false ∧ c ≠ '"' ∧ c ≠ '\'' ∧ c ≠ '-' := by
  have hbreak := isBreak_cases hc
  simp only [List.mem_cons, List.not_mem_nil, or_false] at hbreak
  rcases hbreak with rfl | rfl | rfl | rfl | rfl | rfl | rfl | rfl <;> decide

theorem Holds.next? (hholds : scan.Holds tokens) {c : Char} (hc : isBreak c) :
    scan.next? c = between? tokens c := by
  obtain ⟨hword, hdouble, hsingle, hminus⟩ := ne_of_isBreak hc
  cases hholds with
  | closed => rfl
  | word tokens hread => simp [Scan.next?, hword, hdouble, hsingle, hminus, hread]
  | quoted mark read tokens hmark =>
    have hne : c ≠ mark := by
      rcases hmark with rfl | rfl
      · exact hdouble
      · exact hsingle
    simp [Scan.next?, hne]

end Scan

/-- A text that reads as the given tokens where nothing is open. -/
def Phrase (text : String) (tokens : List Token) : Prop :=
  ∀ before, ∃ scan, text.toList.foldlM Scan.next? ⟨before, .nothing⟩ = some scan ∧
    scan.Holds (tokens.reverse ++ before)

/-- A phrase that leaves nothing open. -/
def Lead (text : String) (tokens : List Token) : Prop :=
  ∀ before, text.toList.foldlM Scan.next? ⟨before, .nothing⟩ =
    some ⟨tokens.reverse ++ before, .nothing⟩

/-- A text that also ends whatever stands before it. -/
def Link (text : String) (tokens : List Token) : Prop :=
  ∀ scan before, scan.Holds before →
    text.toList.foldlM Scan.next? scan = some ⟨tokens.reverse ++ before, .nothing⟩

variable {first second : String} {firstTokens secondTokens : List Token}

theorem Lead.toPhrase (hfirst : Lead first firstTokens) : Phrase first firstTokens :=
  fun before => ⟨_, hfirst before, .closed _⟩

theorem Phrase.tokens?_eq (hphrase : Phrase first firstTokens) :
    tokens? first = some firstTokens := by
  obtain ⟨scan, hscan, hholds⟩ := hphrase []
  rw [tokens?, hscan, Option.bind_some, hholds.finish?, List.append_nil, List.reverse_reverse]

theorem Lead.phrase (hfirst : Lead first firstTokens) (hsecond : Phrase second secondTokens) :
    Phrase (first ++ second) (firstTokens ++ secondTokens) := by
  intro before
  obtain ⟨scan, hscan, hholds⟩ := hsecond (firstTokens.reverse ++ before)
  refine ⟨scan, ?_, ?_⟩
  · rw [String.toList_append, List.foldlM_append, hfirst before]
    exact hscan
  · rw [List.reverse_append, List.append_assoc]
    exact hholds

theorem Phrase.link (hfirst : Phrase first firstTokens) (hsecond : Link second secondTokens) :
    Lead (first ++ second) (firstTokens ++ secondTokens) := by
  intro before
  obtain ⟨scan, hscan, hholds⟩ := hfirst before
  rw [String.toList_append, List.foldlM_append, hscan, List.reverse_append, List.append_assoc]
  exact hsecond scan _ hholds

/-- Phrases with links between them. -/
theorem Phrase.intercalate {separator : String} {between : List Token}
    (hlink : Link separator between) {texts : List String} {tokens : List (List Token)}
    (hphrases : List.Forall₂ Phrase texts tokens) :
    Phrase (String.intercalate separator texts) (List.intercalate between tokens) := by
  induction hphrases with
  | nil => exact fun before => ⟨_, rfl, .closed before⟩
  | cons hfirst hrest ih =>
    cases hrest with
    | nil =>
      rw [String.intercalate_singleton, List.intercalate_singleton]
      exact hfirst
    | cons hsecond hothers =>
      rw [String.intercalate_cons_cons, List.intercalate_cons_cons]
      exact (hfirst.link hlink).phrase ih

/-- A fixed text is a link when it begins with a break. -/
theorem Link.of_break {c : Char} {rest : List Char} (htext : first.toList = c :: rest)
    (hbreak : isBreak c)
    (hlead : ∀ before, (c :: rest).foldlM Scan.next? ⟨before, .nothing⟩ =
      some ⟨firstTokens.reverse ++ before, .nothing⟩) : Link first firstTokens := by
  intro scan before hholds
  have hnext := (Scan.Holds.closed before).next? hbreak
  rw [htext, ← hlead before, List.foldlM_cons, List.foldlM_cons, hholds.next? hbreak, hnext]

theorem Link.blank : Link " " [] := .of_break rfl rfl fun _ => rfl

theorem Link.comma : Link ", " [.comma] := .of_break rfl rfl fun _ => rfl

/-! ## Quoted texts and words -/

/-- A doubled text is read up to the mark that ends it. -/
theorem foldlM_double (mark : Char) (text read : List Char) (before : List Token) :
    (Text.double mark text).foldlM Scan.next? ⟨before, .quoted mark read⟩ =
      some ⟨before, .quoted mark (text.reverse ++ read)⟩ := by
  induction text generalizing read with
  | nil => rfl
  | cons c text ih =>
    by_cases hc : c = mark
    · subst hc
      simp [Text.double, Scan.next?, ih]
    · simp [Text.double, Scan.next?, hc, ih]

theorem phrase_enclose {mark : Char} (hmark : mark = '"' ∨ mark = '\'') (text : String) :
    Phrase (Text.enclose mark text) [Scan.quotedToken mark text.toList.reverse] := by
  intro before
  -- What follows could still double the last mark, so the token stays open.
  refine ⟨⟨before, .marked mark text.toList.reverse⟩, ?_, .quoted mark _ before hmark⟩
  have hopen : Scan.next? ⟨before, .nothing⟩ mark = some ⟨before, .quoted mark []⟩ := by
    rcases hmark with rfl | rfl <;> rfl
  rw [Text.enclose, String.toList_ofList, List.foldlM_cons, hopen, Option.bind_eq_bind,
    Option.bind_some, List.foldlM_append, foldlM_double, List.append_nil]
  simp [Scan.next?]

theorem phrase_identifier (name : String) : Phrase (Text.identifier name) [.identifier name] := by
  have hphrase := phrase_enclose (Or.inl rfl) name
  rwa [Scan.quotedToken, if_pos rfl, List.reverse_reverse, String.ofList_toList] at hphrase

theorem phrase_stringLiteral (text : String) :
    Phrase (Text.stringLiteral text) [.string text] := by
  have hphrase := phrase_enclose (Or.inr rfl) text
  rwa [Scan.quotedToken, if_neg (by decide), List.reverse_reverse, String.ofList_toList] at hphrase

/-- Whether characters form a word: letters, digits, points and underscores after a minus or
none. -/
def isWord : List Char → Bool
  | [] => false
  | '-' :: rest => !rest.isEmpty && rest.all Scan.isWordChar
  | chars => chars.all Scan.isWordChar

theorem between?_word {c : Char} (hc : Scan.isWordChar c ∨ c = '-') (before : List Token) :
    Scan.between? before c = some ⟨before, .word [c]⟩ := by
  have hblank : Scan.isBlank c = false := by
    by_contra hblank
    have hbreak : isBreak c := by simp [isBreak, Bool.not_eq_false _ ▸ hblank]
    obtain ⟨hword, -, -, hminus⟩ := Scan.ne_of_isBreak hbreak
    rcases hc with hc | hc
    · rw [hword] at hc
      cases hc
    · exact hminus hc
  have hquote : ¬ (c = '"' ∨ c = '\'') := by
    rintro (rfl | rfl)
    · exact absurd hc (by decide)
    · exact absurd hc (by decide)
  rw [Scan.between?, hblank, if_neg Bool.false_ne_true, if_neg hquote, if_pos hc]

theorem foldlM_wordChars {chars : List Char} (hchars : chars.all Scan.isWordChar)
    (read : List Char) (before : List Token) :
    chars.foldlM Scan.next? ⟨before, .word read⟩ =
      some ⟨before, .word (chars.reverse ++ read)⟩ := by
  induction chars generalizing read with
  | nil => rfl
  | cons c chars ih =>
    rw [List.all_cons, Bool.and_eq_true] at hchars
    have hnext : Scan.next? ⟨before, .word read⟩ c = some ⟨before, .word (c :: read)⟩ := by
      simp [Scan.next?, hchars.1]
    rw [List.foldlM_cons, hnext, Option.bind_eq_bind, Option.bind_some, ih hchars.2,
      List.reverse_cons, List.append_assoc, List.singleton_append]

theorem phrase_word {text : String} (hword : isWord text.toList) : Phrase text [.word text] := by
  have hcases : ∃ c rest, text.toList = c :: rest ∧ (Scan.isWordChar c ∨ c = '-') ∧
      rest.all Scan.isWordChar ∧ c :: rest ≠ ['-'] := by
    unfold isWord at hword
    split at hword
    · cases hword
    · rename_i rest heq
      rw [Bool.and_eq_true] at hword
      refine ⟨'-', rest, heq, Or.inr rfl, hword.2, ?_⟩
      rintro ⟨⟩
      exact absurd hword.1 (by decide)
    · rename_i hnil hminus
      cases hchars : text.toList with
      | nil => exact absurd hchars hnil
      | cons c rest =>
        rw [hchars, List.all_cons, Bool.and_eq_true] at hword
        refine ⟨c, rest, rfl, Or.inl hword.1, hword.2, ?_⟩
        rintro ⟨⟩
        exact absurd hword.1 (by decide)
  obtain ⟨c, rest, htext, hc, hrest, hne⟩ := hcases
  intro before
  refine ⟨⟨before, .word (c :: rest).reverse⟩, ?_, .word before ?_⟩
  · have hnext : Scan.next? ⟨before, .nothing⟩ c = some ⟨before, .word [c]⟩ :=
      between?_word hc before
    rw [htext, List.foldlM_cons, hnext, Option.bind_eq_bind, Option.bind_some,
      foldlM_wordChars hrest, List.reverse_cons]
  · have hreverse : (c :: rest).reverse ≠ ['-'] := by
      rintro heq
      exact hne (List.reverse_eq_iff.mp heq)
    rw [Scan.wordToken?, if_neg hreverse, List.reverse_reverse, ← htext, String.ofList_toList]

end SchemaMigration.Sql
