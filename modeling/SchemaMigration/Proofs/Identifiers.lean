import Mathlib
import SchemaMigration.RowTypes

/-!
# Names that are identifiers

The names in the row types are made of names that may hold any characters.  A type name is
an identifier whatever it is made of, and depends on nothing but the runs of letters and
digits in that name.  A field name has the form of an identifier, too, but is not always one
that a field may have: the table of keywords lacks some, others have no raw form, and a
single underscore is no name.
-/

namespace SchemaMigration.RowTypes

/-! ## Identifiers and keywords -/

/-- A word of ASCII letters, digits and underscores that begins with no digit. -/
structure IsIdentifier (text : String) : Prop where
  ne_empty : text ≠ ""
  plain : ∀ c ∈ text.toList, c.isAlphanum = true ∨ c = '_'
  head : ∀ c ∈ text.toList.head?, c.isDigit = false

/-- The keywords that the language uses, in its edition of 2021. -/
def strictKeywords : List String :=
  ["as", "async", "await", "break", "const", "continue", "crate", "dyn", "else", "enum",
   "extern", "false", "fn", "for", "if", "impl", "in", "let", "loop", "match", "mod",
   "move", "mut", "pub", "ref", "return", "self", "Self", "static", "struct", "super",
   "trait", "true", "type", "unsafe", "use", "where", "while"]

/-- The keywords that the edition keeps for later use. -/
def reservedKeywords : List String :=
  ["abstract", "become", "box", "do", "final", "macro", "override", "priv", "try",
   "typeof", "unsized", "virtual", "yield"]

def languageKeywords : List String := strictKeywords ++ reservedKeywords

/-- The keywords that begin paths.  They have no raw form. -/
def pathKeywords : List String := ["crate", "self", "super", "Self"]

/-- The texts that may name a field: identifiers other than keywords and the lone
underscore, and keywords in their raw form. -/
inductive IsFieldName : String → Prop
  | plain {text : String} (identifier : IsIdentifier text) (named : text ≠ "_")
      (free : text ∉ languageKeywords) : IsFieldName text
  | raw {word : String} (keyword : word ∈ languageKeywords) (escapable : word ∉ pathKeywords) :
      IsFieldName ("r#" ++ word)

theorem IsIdentifier.notMem {text : String} (hidentifier : IsIdentifier text) {c : Char}
    (hc : c.isAlphanum = false) (hne : c ≠ '_') : c ∉ text.toList := by
  intro hmem
  rcases hidentifier.plain c hmem with hplain | rfl
  · exact Bool.false_ne_true (hc.symm.trans hplain)
  · exact hne rfl

theorem isIdentifier_ofList {chars : List Char} (hne : chars ≠ [])
    (hplain : ∀ c ∈ chars, c.isAlphanum = true ∨ c = '_')
    (hhead : startsWithDigit chars = false) : IsIdentifier (String.ofList chars) where
  ne_empty := by simpa using hne
  plain := by simpa using hplain
  head := by
    intro c hc
    rw [String.toList_ofList] at hc
    simpa [startsWithDigit, Option.mem_def.mp hc] using hhead

/-! ## Characters -/

/-- A character as a name keeps it. -/
def keptChar (c : Char) : Char := if c.isAlphanum then c else '_'

theorem keptChar_of_isAlphanum {c : Char} (hc : c.isAlphanum = true) : keptChar c = c :=
  if_pos hc

theorem keptChar_of_not_isAlphanum {c : Char} (hc : c.isAlphanum = false) : keptChar c = '_' :=
  if_neg (by simp [hc])

theorem isDigit_keptChar (c : Char) : (keptChar c).isDigit = c.isDigit := by
  cases hc : c.isAlphanum with
  | true => rw [keptChar_of_isAlphanum hc]
  | false =>
    rw [keptChar_of_not_isAlphanum hc]
    rw [Char.isAlphanum, Bool.or_eq_false_iff] at hc
    exact hc.2.symm

theorem isDigit_of_isAlpha {c : Char} (hc : c.isAlpha = true) : c.isDigit = false := by
  have hrange : 65 ≤ c.toNat ∧ c.toNat ≤ 90 ∨ 97 ≤ c.toNat ∧ c.toNat ≤ 122 := by
    simpa [Char.isAlpha, Char.isUpper, Char.isLower, UInt32.le_iff_toNat_le] using hc
  simp [Char.isDigit, UInt32.le_iff_toNat_le]
  omega

theorem toLower_of_not_isAlpha {c : Char} (hc : c.isAlpha = false) : c.toLower = c := by
  rw [Char.isAlpha, Bool.or_eq_false_iff] at hc
  exact Char.toLower_eq_of_not_isUpper (by simp [hc.1])

theorem toUpper_of_not_isAlpha {c : Char} (hc : c.isAlpha = false) : c.toUpper = c := by
  rw [Char.isAlpha, Bool.or_eq_false_iff] at hc
  exact Char.toUpper_eq_of_not_isLower (by simp [hc.2])

theorem isDigit_toLower (c : Char) : c.toLower.isDigit = c.isDigit := by
  cases hc : c.isAlpha with
  | true => rw [isDigit_of_isAlpha hc, isDigit_of_isAlpha (by simpa using hc)]
  | false => rw [toLower_of_not_isAlpha hc]

theorem isAlphanum_toLower (c : Char) : c.toLower.isAlphanum = c.isAlphanum := by
  simp [Char.isAlphanum, isDigit_toLower]

theorem isAlphanum_toUpper (c : Char) : c.toUpper.isAlphanum = c.isAlphanum := by
  cases hc : c.isAlpha with
  | true => simp [Char.isAlphanum, hc]
  | false => rw [toUpper_of_not_isAlpha hc]

/-! ## What is kept of a name -/

/-- A name with an underscore in front of it where it could not begin an identifier. -/
def padded (name : String) : List Char :=
  if name.toList.isEmpty || startsWithDigit name.toList then '_' :: name.toList
  else name.toList

theorem startsWithDigit_map_keptChar (chars : List Char) :
    startsWithDigit (chars.map keptChar) = startsWithDigit chars := by
  cases chars with
  | nil => rfl
  | cons c rest => exact isDigit_keptChar c

theorem asciiName_eq (name : String) : asciiName name = (padded name).map keptChar := by
  have hcleaned : (name.toList.map fun c => if c.isAlphanum then c else '_') =
      name.toList.map keptChar := rfl
  rw [asciiName, hcleaned, List.isEmpty_map, startsWithDigit_map_keptChar, padded]
  split
  · rfl
  · rfl

theorem padded_ne_nil (name : String) : padded name ≠ [] := by
  rw [padded]
  split
  · exact List.cons_ne_nil _ _
  next hkept =>
    rw [Bool.or_eq_true, not_or, List.isEmpty_iff] at hkept
    exact hkept.1

theorem startsWithDigit_padded (name : String) : startsWithDigit (padded name) = false := by
  rw [padded]
  split
  · rfl
  next hkept =>
    rw [Bool.or_eq_true, not_or] at hkept
    exact Bool.eq_false_iff.mpr hkept.2

theorem padded_eq_self {name : String} (hne : name.toList ≠ [])
    (hhead : startsWithDigit name.toList = false) : padded name = name.toList := by
  rw [padded, hhead, List.isEmpty_eq_false_iff.mpr hne]
  rfl

theorem underscore_mem_padded {name : String} (hpadded : padded name ≠ name.toList) :
    '_' ∈ padded name := by
  rw [padded] at hpadded ⊢
  split at hpadded
  next hmark =>
    rw [if_pos hmark]
    exact List.mem_cons_self
  · exact absurd rfl hpadded

/-! ## Field names -/

/-- A name as a field takes it over, before keywords are made raw. -/
def lowered (name : String) : String := String.ofList ((asciiName name).map Char.toLower)

theorem toList_lowered (name : String) :
    (lowered name).toList = (padded name).map fun c => (keptChar c).toLower := by
  rw [lowered, String.toList_ofList, asciiName_eq, List.map_map]
  rfl

theorem fieldName_eq (name : String) :
    fieldName name = if lowered name ∈ keywords then "r#" ++ lowered name else lowered name :=
  rfl

theorem isIdentifier_lowered (name : String) : IsIdentifier (lowered name) := by
  rw [← String.ofList_toList (s := lowered name), toList_lowered]
  apply isIdentifier_ofList
  · simpa using padded_ne_nil name
  · intro c hc
    obtain ⟨original, -, rfl⟩ := List.mem_map.mp hc
    rw [isAlphanum_toLower]
    cases horiginal : original.isAlphanum with
    | true => exact .inl (by rw [keptChar_of_isAlphanum horiginal, horiginal])
    | false => exact .inr (by rw [keptChar_of_not_isAlphanum horiginal]; rfl)
  · have hhead := startsWithDigit_padded name
    cases hpadded : padded name with
    | nil => rfl
    | cons c rest =>
      rw [hpadded] at hhead
      exact (isDigit_toLower _).trans ((isDigit_keptChar c).trans hhead)

theorem raw_ne {text : String} (hidentifier : IsIdentifier text) (word : String) :
    text ≠ "r#" ++ word := by
  rintro rfl
  exact hidentifier.notMem (c := '#') rfl (by decide) (by simp)

theorem isFieldName_raw_iff {word : String} (hkeyword : word ∈ languageKeywords) :
    IsFieldName ("r#" ++ word) ↔ word ∉ pathKeywords := by
  constructor
  · intro hname
    generalize htext : "r#" ++ word = text at hname
    cases hname with
    | plain identifier => exact absurd htext.symm (raw_ne identifier word)
    | raw keyword escapable =>
      rw [String.append_right_inj] at htext
      rwa [htext]
  · exact .raw hkeyword

theorem isFieldName_plain_iff {text : String} (hidentifier : IsIdentifier text) :
    IsFieldName text ↔ text ≠ "_" ∧ text ∉ languageKeywords := by
  constructor
  · intro hname
    cases hname with
    | plain _ named free => exact ⟨named, free⟩
    | @raw word => exact absurd rfl (raw_ne hidentifier word)
  · exact fun hplain => .plain hidentifier hplain.1 hplain.2

/-- A name of letters is taken over letter by letter. -/
theorem toList_lowered_of_letters {name : String} (hne : name.toList ≠ [])
    (hletters : ∀ c ∈ name.toList, c.isAlpha = true) :
    (lowered name).toList = name.toList.map Char.toLower := by
  obtain ⟨c, rest, hname⟩ := List.exists_cons_of_ne_nil hne
  have hhead : startsWithDigit name.toList = false := by
    rw [hname]
    exact isDigit_of_isAlpha (hletters c (by simp [hname]))
  rw [toList_lowered, padded_eq_self hne hhead]
  refine List.map_congr_left fun c hc => ?_
  rw [keptChar_of_isAlphanum (by simp [Char.isAlphanum, hletters c hc])]

theorem isAlpha_of_isLower_keptChar {c : Char} (hlower : (keptChar c).toLower.isLower = true) :
    c.isAlpha = true := by
  rw [Char.isLower_toLower_eq_isAlpha] at hlower
  cases hc : c.isAlphanum with
  | true => rwa [keptChar_of_isAlphanum hc] at hlower
  | false =>
    rw [keptChar_of_not_isAlphanum hc] at hlower
    exact absurd hlower (by decide)

/-- A word of lower-case letters is what a field takes over exactly if the name spells it. -/
theorem lowered_eq_iff {name word : String} (hne : word ≠ "")
    (hletters : ∀ c ∈ word.toList, c.isLower = true) :
    lowered name = word ↔ name.toList.map Char.toLower = word.toList := by
  constructor
  · intro hword
    have halpha : ∀ c ∈ padded name, c.isAlpha = true := by
      intro c hc
      refine isAlpha_of_isLower_keptChar (hletters _ ?_)
      rw [← hword, toList_lowered]
      exact List.mem_map_of_mem hc
    have hpadded : padded name = name.toList := by
      by_contra hmarked
      exact absurd (halpha '_' (underscore_mem_padded hmarked)) (by decide)
    rw [← toList_lowered_of_letters (hpadded ▸ padded_ne_nil name) (hpadded ▸ halpha), hword]
  · intro hword
    have halpha : ∀ c ∈ name.toList, c.isAlpha = true := by
      intro c hc
      have hlower := hletters c.toLower (hword ▸ List.mem_map_of_mem hc)
      rwa [Char.isLower_toLower_eq_isAlpha] at hlower
    have hname : name.toList ≠ [] := by
      intro hnil
      rw [hnil, List.map_nil, eq_comm, String.toList_eq_nil_iff] at hword
      exact hne hword
    rw [← String.toList_inj, toList_lowered_of_letters hname halpha, hword]

theorem keptChar_toLower_eq_underscore_iff (c : Char) :
    (keptChar c).toLower = '_' ↔ c.isAlphanum = false := by
  cases hc : c.isAlphanum with
  | true =>
    rw [keptChar_of_isAlphanum hc]
    refine iff_of_false (fun hsame => ?_) (by simp)
    rw [← isAlphanum_toLower, hsame] at hc
    exact absurd hc (by decide)
  | false =>
    rw [keptChar_of_not_isAlphanum hc]
    exact iff_of_true rfl rfl

/-- Nothing but an underscore is left of a name that is empty or a single character other
than a letter or a digit. -/
theorem lowered_eq_underscore_iff (name : String) :
    lowered name = "_" ↔
      name.toList.length ≤ 1 ∧ ∀ c ∈ name.toList, c.isAlphanum = false := by
  have hsingle : lowered name = "_" ↔ ∃ c, padded name = [c] ∧ c.isAlphanum = false := by
    rw [← String.toList_inj, toList_lowered]
    refine List.map_eq_singleton_iff.trans (exists_congr fun c => and_congr_right fun _ => ?_)
    exact keptChar_toLower_eq_underscore_iff c
  rw [hsingle, padded]
  match name.toList with
  | [] => simp
  | [c] =>
    cases hdigit : c.isDigit with
    | true => simp [startsWithDigit, hdigit, Char.isAlphanum]
    | false => simp [startsWithDigit, hdigit]
  | c :: d :: rest =>
    refine iff_of_false ?_ (by simp)
    split <;> simp

/-- The keywords that come out as no field name.  The table has the first two, which have no
raw form, and lacks the others. -/
def unfitWords : List String :=
  ["crate", "super", "self", "abstract", "become", "do", "final", "macro", "override",
   "priv", "try", "typeof", "unsized", "virtual"]

theorem lowered_mem_unfitWords_iff (name : String) :
    lowered name ∈ unfitWords ↔ String.ofList (name.toList.map Char.toLower) ∈ unfitWords := by
  have hletters : ∀ word ∈ unfitWords,
      word ≠ "" ∧ word.toList.all Char.isLower = true := by decide
  have hiff : ∀ word ∈ unfitWords,
      (lowered name = word ↔ String.ofList (name.toList.map Char.toLower) = word) := by
    intro word hword
    obtain ⟨hne, hlower⟩ := hletters word hword
    rw [lowered_eq_iff hne (List.all_eq_true.mp hlower), ← String.toList_inj,
      String.toList_ofList]
  constructor
  · intro hmem
    rwa [(hiff _ hmem).mp rfl]
  · intro hmem
    rwa [(hiff _ hmem).mpr rfl]

theorem mem_pathKeywords_iff {word : String} (hword : word ∈ keywords) :
    word ∈ pathKeywords ↔ word ∈ unfitWords := by
  have hall : ∀ word ∈ keywords, (word ∈ pathKeywords ↔ word ∈ unfitWords) := by decide +kernel
  exact hall word hword

theorem lowered_mem_languageKeywords_iff (name : String) :
    lowered name ∈ languageKeywords ↔ lowered name ∈ keywords ∨ lowered name ∈ unfitWords := by
  have hlower : lowered name ≠ "Self" := by
    intro hself
    have hmem : 'S' ∈ (lowered name).toList := by simp [hself]
    rw [toList_lowered] at hmem
    obtain ⟨c, -, hc⟩ := List.mem_map.mp hmem
    have hupper := Char.isUpper_toLower_eq_false (keptChar c)
    rw [hc] at hupper
    cases hupper
  have hcovered : ∀ word ∈ languageKeywords,
      word = "Self" ∨ word ∈ keywords ∨ word ∈ unfitWords := by decide +kernel
  have hheld : ∀ word ∈ keywords ++ unfitWords, word ∈ languageKeywords := by decide +kernel
  rw [← List.mem_append]
  constructor
  · intro hmem
    exact List.mem_append.mpr ((hcovered _ hmem).resolve_left hlower)
  · exact hheld _

/-- A field name is an identifier, or the raw form of one that is a keyword.  It may name a
field unless the name it is made of is an unfit word, whatever the case of its letters, or
is empty or a single character other than a letter or a digit. -/
theorem isFieldName_fieldName (name : String) :
    (∃ word, IsIdentifier word ∧
      (fieldName name = word ∨ word ∈ languageKeywords ∧ fieldName name = "r#" ++ word)) ∧
    (IsFieldName (fieldName name) ↔
      String.ofList (name.toList.map Char.toLower) ∉ unfitWords ∧
        ¬(name.toList.length ≤ 1 ∧ ∀ c ∈ name.toList, c.isAlphanum = false)) := by
  have hidentifier := isIdentifier_lowered name
  have hlanguage := lowered_mem_languageKeywords_iff name
  rw [← lowered_mem_unfitWords_iff, ← lowered_eq_underscore_iff, fieldName_eq]
  by_cases hkeyword : lowered name ∈ keywords
  · have hnamed : lowered name ≠ "_" := by
      intro hunderscore
      exact absurd (hunderscore ▸ hkeyword) (by decide +kernel)
    rw [if_pos hkeyword, isFieldName_raw_iff (hlanguage.mpr (.inl hkeyword)),
      mem_pathKeywords_iff hkeyword]
    exact ⟨⟨_, hidentifier, .inr ⟨hlanguage.mpr (.inl hkeyword), rfl⟩⟩,
      (and_iff_left hnamed).symm⟩
  · rw [if_neg hkeyword, isFieldName_plain_iff hidentifier, hlanguage]
    refine ⟨⟨_, hidentifier, .inl rfl⟩, ?_⟩
    simp only [hkeyword, false_or]
    exact and_comm

/-- A keyword that the table lacks, one that has no raw form, and a name of which nothing is
kept. -/
theorem not_isFieldName_fieldName :
    fieldName "try" = "try" ∧ ¬IsFieldName (fieldName "try") ∧
      fieldName "crate" = "r#crate" ∧ ¬IsFieldName (fieldName "crate") ∧
      fieldName "ß" = "_" ∧ ¬IsFieldName (fieldName "ß") := by
  have hunfit : ∀ name : String,
      String.ofList (name.toList.map Char.toLower) ∈ unfitWords ∨
        (name.toList.length ≤ 1 ∧ ∀ c ∈ name.toList, c.isAlphanum = false) →
      ¬IsFieldName (fieldName name) := by
    intro name hname hfield
    obtain ⟨hword, hkept⟩ := (isFieldName_fieldName name).2.mp hfield
    exact hname.elim hword hkept
  refine ⟨by decide, hunfit _ (.inl (by decide)), by decide, hunfit _ (.inl (by decide)),
    by decide, hunfit _ (.inr ?_)⟩
  simp

/-! ## Type names -/

/-- The runs of ASCII letters and digits in a name. -/
def words (name : String) : List (List Char) :=
  (name.toList.splitOnP fun c => !c.isAlphanum).filter fun word => !word.isEmpty

/-- The parts between underscores of what is kept of a name, without the empty ones. -/
def parts (name : String) : List (List Char) :=
  ((asciiName name).splitOn '_').filter fun part => !part.isEmpty

theorem splitOn_map_keptChar (chars : List Char) :
    (chars.map keptChar).splitOn '_' = chars.splitOnP fun c => !c.isAlphanum := by
  induction chars with
  | nil => rfl
  | cons c rest ih =>
    rw [List.map_cons, List.splitOn_cons_eq_if_modifyHead, List.splitOnP_cons_eq_if_modifyHead,
      ih]
    cases hc : c.isAlphanum with
    | true =>
      have hne : c ≠ '_' := by
        rintro rfl
        exact absurd hc (by decide)
      simp [keptChar_of_isAlphanum hc, hne]
    | false => simp [keptChar_of_not_isAlphanum hc]

theorem parts_eq_words (name : String) : parts name = words name := by
  have hmarked : ('_' :: name.toList).splitOnP (fun c => !c.isAlphanum) =
      [] :: name.toList.splitOnP (fun c => !c.isAlphanum) := by
    rw [List.splitOnP_cons_eq_if_modifyHead]
    rfl
  rw [parts, words, asciiName_eq, splitOn_map_keptChar, padded]
  split
  · rw [hmarked]
    rfl
  · rfl

theorem eq_false_of_mem_splitOnP {separates : Char → Bool} {chars piece : List Char} {c : Char}
    (hpiece : piece ∈ chars.splitOnP separates) (hc : c ∈ piece) : separates c = false := by
  induction chars generalizing piece with
  | nil =>
    rw [List.splitOnP_nil, List.mem_singleton] at hpiece
    rw [hpiece] at hc
    cases hc
  | cons first rest ih =>
    rw [List.splitOnP_cons_eq_if_modifyHead] at hpiece
    split at hpiece
    · rcases List.mem_cons.mp hpiece with rfl | hpiece
      · cases hc
      · exact ih hpiece hc
    next hfirst =>
      obtain ⟨head, others, hsplit⟩ :=
        List.exists_cons_of_ne_nil (List.splitOnP_ne_nil separates rest)
      rw [hsplit] at ih hpiece
      rcases List.mem_cons.mp hpiece with rfl | hpiece
      · rcases List.mem_cons.mp hc with rfl | hc
        · exact Bool.eq_false_iff.mpr hfirst
        · exact ih List.mem_cons_self hc
      · exact ih (List.mem_cons_of_mem head hpiece) hc

theorem isAlphanum_of_mem_words {name : String} {word : List Char} (hword : word ∈ words name)
    {c : Char} (hc : c ∈ word) : c.isAlphanum = true := by
  simpa using eq_false_of_mem_splitOnP (List.mem_filter.mp hword).1 hc

/-- The words of a name run together, each with a capital letter. -/
def titled (name : String) : List Char := (words name).flatMap capitalize

theorem flatMap_capitalize_filter (pieces : List (List Char)) :
    (pieces.filter fun piece => !piece.isEmpty).flatMap capitalize =
      pieces.flatMap capitalize := by
  induction pieces with
  | nil => rfl
  | cons piece rest ih =>
    cases piece with
    | nil => exact ih
    | cons c piece => simpa using ih

theorem typeName_eq (name : String) :
    typeName name = String.ofList
      (if startsWithDigit (titled name) then '_' :: titled name else titled name) := by
  rw [typeName, titled, ← parts_eq_words, parts, flatMap_capitalize_filter]

theorem isAlphanum_of_mem_capitalize {word : List Char} {c : Char}
    (hword : ∀ c ∈ word, c.isAlphanum = true) (hc : c ∈ capitalize word) :
    c.isAlphanum = true := by
  cases word with
  | nil => cases hc
  | cons first rest =>
    rcases List.mem_cons.mp hc with rfl | hc
    · rw [isAlphanum_toUpper]
      exact hword first List.mem_cons_self
    · exact hword c (List.mem_cons_of_mem _ hc)

theorem isAlphanum_of_mem_titled {name : String} {c : Char} (hc : c ∈ titled name) :
    c.isAlphanum = true := by
  obtain ⟨word, hword, hc⟩ := List.mem_flatMap.mp hc
  exact isAlphanum_of_mem_capitalize (fun _ => isAlphanum_of_mem_words hword) hc

theorem row_notMem_languageKeywords (text : String) : text ++ "Row" ∉ languageKeywords := by
  have hall : ∀ word ∈ languageKeywords, word.toList.contains 'R' = false := by decide
  intro hmem
  have hcontains := hall _ hmem
  simp at hcontains

theorem isIdentifier_append_row {chars : List Char}
    (hplain : ∀ c ∈ chars, c.isAlphanum = true ∨ c = '_') (hhead : startsWithDigit chars = false) :
    IsIdentifier (String.ofList chars ++ "Row") := by
  have hrow : ∀ c ∈ "Row".toList, c.isAlphanum = true ∨ c = '_' := by simp
  rw [← String.ofList_toList (s := "Row"), ← String.ofList_append]
  apply isIdentifier_ofList
  · simp
  · intro c hc
    exact (List.mem_append.mp hc).elim (hplain c) (hrow c)
  · cases chars with
    | nil => decide
    | cons first rest => exact hhead

theorem isIdentifier_row (name : String) : IsIdentifier (typeName name ++ "Row") := by
  have hplain : ∀ c ∈ titled name, c.isAlphanum = true ∨ c = '_' := fun c hc =>
    .inl (isAlphanum_of_mem_titled hc)
  rw [typeName_eq]
  split
  · refine isIdentifier_append_row ?_ rfl
    simpa using hplain
  next hdigit => exact isIdentifier_append_row hplain (Bool.eq_false_iff.mpr hdigit)

/-- A type name followed by `Row` is an identifier, whatever the name it is made of, and no
keyword.  Names that have the same parts between underscores have the same type name. -/
theorem isIdentifier_typeName_row (name other : String) :
    (IsIdentifier (typeName name ++ "Row") ∧ typeName name ++ "Row" ∉ languageKeywords) ∧
      (parts name = parts other → typeName name = typeName other) := by
  refine ⟨⟨isIdentifier_row name, row_notMem_languageKeywords _⟩, fun hparts => ?_⟩
  rw [typeName_eq, typeName_eq, titled, titled, ← parts_eq_words, ← parts_eq_words, hparts]

/-- The names differ in their underscores, one of which a digit would expose. -/
theorem isIdentifier_typeName_row_digits :
    asciiName "2nd__ship" ≠ asciiName "__2nd ship" ∧
      parts "2nd__ship" = parts "__2nd ship" ∧
      typeName "2nd__ship" = typeName "__2nd ship" ∧ typeName "2nd__ship" = "_2ndShip" ∧
      IsIdentifier (typeName "2nd__ship" ++ "Row") := by
  have hparts : parts "2nd__ship" = parts "__2nd ship" := by decide
  obtain ⟨hidentifier, hsame⟩ := isIdentifier_typeName_row "2nd__ship" "__2nd ship"
  exact ⟨by decide, hparts, hsame hparts, by decide, hidentifier.1⟩

end SchemaMigration.RowTypes
