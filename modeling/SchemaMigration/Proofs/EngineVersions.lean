import SchemaMigration.Dialect.Capability
import Mathlib.Data.List.TakeWhile
import Mathlib.Data.Prod.Lex

/-!
# Versions as texts and what they offer

A version is read back from every text that spells it: its three numbers in decimal
between points, with blanks around the text and its segments, and anything behind a
further point.  A dialect offers a capability from the version on that it lists, so a
later version offers whatever an earlier one does.
-/

namespace SchemaMigration

/-! ## Blanks around a text -/

namespace Text

theorem isBlank_of_isDigit {c : Char} (hdigit : c.isDigit = true) : isBlank c = false := by
  have hrange : 48 ≤ c.toNat ∧ c.toNat ≤ 57 := by
    simpa [Char.isDigit, UInt32.le_iff_toNat_le] using hdigit
  simp [isBlank, blankRanges]
  omega

variable {before text after : List Char}

theorem point_notMem (hblank : ∀ c ∈ text, isBlank c = true) : '.' ∉ text := fun hmem =>
  absurd (hblank '.' hmem) (by decide)

theorem trim_append_left (hbefore : ∀ c ∈ before, isBlank c = true) :
    trim (before ++ text) = trim text := by
  rw [trim, List.dropWhile_append_of_pos hbefore, trim]

theorem trimEnd_append (hafter : ∀ c ∈ after, isBlank c = true) :
    trimEnd (text ++ after) = trimEnd text := by
  have hreverse : ∀ c ∈ after.reverse, isBlank c = true := fun c hmem =>
    hafter c (List.mem_reverse.mp hmem)
  rw [trimEnd, List.reverse_append, List.dropWhile_append_of_pos hreverse, trimEnd]

theorem trim_append_right (hafter : ∀ c ∈ after, isBlank c = true) :
    trim (text ++ after) = trim text := by
  rw [trim, List.dropWhile_append]
  split
  next hblank =>
    have hnone : after.dropWhile isBlank = [] := List.dropWhile_eq_nil_iff.mpr hafter
    rw [hnone, trim, List.isEmpty_iff.mp hblank]
  · rw [trimEnd_append hafter, trim]

/-- A text without blanks has none around it. -/
theorem trim_eq_self (hnone : ∀ c ∈ text, isBlank c = false) : trim text = text := by
  have hkept : ∀ {list : List Char}, (∀ c ∈ list, isBlank c = false) →
      list.dropWhile isBlank = list := by
    intro list hlist
    cases list with
    | nil => rfl
    | cons c rest =>
        exact List.dropWhile_cons_of_neg (by simp [hlist c List.mem_cons_self])
  have hreverse : ∀ c ∈ text.reverse, isBlank c = false := fun c hmem =>
    hnone c (List.mem_reverse.mp hmem)
  rw [trim, hkept hnone, trimEnd, hkept hreverse, List.reverse_reverse]

/-- What trimming takes away is blank. -/
theorem exists_blanks (text : List Char) :
    ∃ before after, (∀ c ∈ before, isBlank c = true) ∧ (∀ c ∈ after, isBlank c = true) ∧
      text = before ++ trim text ++ after := by
  refine ⟨text.takeWhile isBlank, ((text.dropWhile isBlank).reverse.takeWhile isBlank).reverse,
    fun c hmem => List.mem_takeWhile_imp hmem,
    fun c hmem => List.mem_takeWhile_imp (List.mem_reverse.mp hmem), ?_⟩
  have hend : trim text ++ ((text.dropWhile isBlank).reverse.takeWhile isBlank).reverse =
      text.dropWhile isBlank := by
    rw [trim, trimEnd, ← List.reverse_append, List.takeWhile_append_dropWhile,
      List.reverse_reverse]
  rw [List.append_assoc, hend, List.takeWhile_append_dropWhile]

end Text

namespace Version

/-! ## Reading segments -/

variable {before segment text after : List Char}

theorem segmentValue_append (hbefore : ∀ c ∈ before, Text.isBlank c = true)
    (hafter : ∀ c ∈ after, Text.isBlank c = true) :
    segmentValue (before ++ segment ++ after) = segmentValue segment := by
  have hdigits : segmentDigits (before ++ segment ++ after) = segmentDigits segment := by
    rw [segmentDigits, Text.trim_append_right hafter, Text.trim_append_left hbefore,
      segmentDigits]
  rw [segmentValue, hdigits, segmentValue]

theorem segmentDigits_toDigits (n : Nat) :
    segmentDigits (Nat.toDigits 10 n) = Nat.toDigits 10 n := by
  have hdigit : ∀ c ∈ Nat.toDigits 10 n, c.isDigit = true := fun c hmem =>
    Nat.isDigit_of_mem_toDigits (by decide) (by decide) hmem
  rw [segmentDigits, Text.trim_eq_self fun c hmem => Text.isBlank_of_isDigit (hdigit c hmem)]
  split
  next digits hplus =>
    have hsign := hdigit '+' (by rw [hplus]; exact List.mem_cons_self)
    exact absurd hsign (by decide)
  · rfl

theorem segmentValue_toDigits {n : Nat} (hfits : n ≤ segmentLimit) :
    segmentValue (Nat.toDigits 10 n) = n := by
  have hall : (Nat.toDigits 10 n).all Char.isDigit = true :=
    List.all_eq_true.mpr fun c hmem => Nat.isDigit_of_mem_toDigits (by decide) (by decide) hmem
  have hne : (Nat.toDigits 10 n).isEmpty = false :=
    List.isEmpty_eq_false_iff.mpr Nat.toDigits_ne_nil
  rw [segmentValue, segmentDigits_toDigits]
  simp [hne, hall, Nat.ofDigitChars_ten_toDigits, hfits]

theorem segmentValue_le (segment : List Char) : segmentValue segment ≤ segmentLimit := by
  simp only [segmentValue]
  split
  · exact Nat.zero_le _
  · split
    next hfits => exact hfits
    · exact Nat.zero_le _

/-- The blanks behind a text are blanks behind its last segment. -/
theorem map_segmentValue_append_right (text : List Char)
    (hafter : ∀ c ∈ after, Text.isBlank c = true) :
    ((text ++ after).splitOn '.').map segmentValue = (text.splitOn '.').map segmentValue := by
  have hlast : ∀ segment, '.' ∉ segment →
      ((segment ++ after).splitOn '.').map segmentValue = [segmentValue segment] := by
    intro segment hsegment
    have hjoined : '.' ∉ segment ++ after := fun hmem =>
      (List.mem_append.mp hmem).elim hsegment (Text.point_notMem hafter)
    have hvalue : segmentValue ([] ++ segment ++ after) = segmentValue segment :=
      segmentValue_append (by simp) hafter
    rw [List.splitOn_eq_singleton hjoined, List.map_singleton]
    exact congrArg (fun value => [value]) hvalue
  by_cases hpoint : '.' ∈ text
  · obtain ⟨last, rest, hreverse, hfree⟩ :=
      List.eq_append_cons_of_mem (List.mem_reverse.mpr hpoint)
    have htext : text = rest.reverse ++ '.' :: last.reverse := by
      rw [← List.reverse_reverse text, hreverse]
      simp
    have hsegment : '.' ∉ last.reverse := fun hmem => hfree (List.mem_reverse.mp hmem)
    rw [htext, List.append_assoc, List.cons_append, List.splitOn_append_cons_self,
      List.splitOn_append_cons_self, List.map_append, List.map_append, hlast _ hsegment,
      List.splitOn_eq_singleton hsegment, List.map_singleton]
  · rw [hlast text hpoint, List.splitOn_eq_singleton hpoint, List.map_singleton]

/-- The blanks in front of a text are blanks in front of its first segment. -/
theorem map_segmentValue_append_left (hbefore : ∀ c ∈ before, Text.isBlank c = true)
    (text : List Char) :
    ((before ++ text).splitOn '.').map segmentValue = (text.splitOn '.').map segmentValue := by
  have hfirst : ∀ segment, segmentValue (before ++ segment) = segmentValue segment := by
    intro segment
    have hvalue : segmentValue (before ++ segment ++ []) = segmentValue segment :=
      segmentValue_append hbefore (by simp)
    rwa [List.append_nil] at hvalue
  have hjoined : ∀ segment, '.' ∉ segment → '.' ∉ before ++ segment := fun segment hsegment hmem =>
    (List.mem_append.mp hmem).elim (Text.point_notMem hbefore) hsegment
  by_cases hpoint : '.' ∈ text
  · obtain ⟨first, rest, rfl, hfree⟩ := List.eq_append_cons_of_mem hpoint
    rw [← List.append_assoc, List.splitOn_append_cons_self_of_not_mem (hjoined first hfree),
      List.splitOn_append_cons_self_of_not_mem hfree, List.map_cons, List.map_cons, hfirst]
  · rw [List.splitOn_eq_singleton (hjoined text hpoint), List.splitOn_eq_singleton hpoint,
      List.map_singleton, List.map_singleton, hfirst]

/-- The numbers of a text can be read without trimming it first. -/
theorem map_segmentValue_trim (text : List Char) :
    ((Text.trim text).splitOn '.').map segmentValue = (text.splitOn '.').map segmentValue := by
  obtain ⟨before, after, hbefore, hafter, htext⟩ := Text.exists_blanks text
  conv_rhs => rw [htext]
  rw [map_segmentValue_append_right _ hafter, map_segmentValue_append_left hbefore]

/-- The version whose numbers are the first three. -/
def ofNumbers (numbers : List Nat) : Version :=
  ⟨numbers.getD 0 0, numbers.getD 1 0, numbers.getD 2 0⟩

theorem parse_eq (text : String) :
    parse text = ofNumbers ((text.toList.splitOn '.').map segmentValue) := by
  rw [← map_segmentValue_trim]
  rfl

/-- Blanks around a text do not change the version that it is read as. -/
theorem parse_append {before after : String}
    (hbefore : ∀ c ∈ before.toList, Text.isBlank c = true)
    (hafter : ∀ c ∈ after.toList, Text.isBlank c = true) (text : String) :
    parse (before ++ text ++ after) = parse text := by
  rw [parse_eq, parse_eq, String.toList_append, String.toList_append,
    map_segmentValue_append_right _ hafter, map_segmentValue_append_left hbefore]

/-! ## Spelling versions -/

/-- The numbers fit thirty-two bits. -/
structure Fits (version : Version) : Prop where
  major_lt : version.major < UInt32.size
  minor_lt : version.minor < UInt32.size
  patch_lt : version.patch < UInt32.size

theorem fits_parse (text : String) : (parse text).Fits := by
  have hvalue : ∀ index,
      ((text.toList.splitOn '.').map segmentValue).getD index 0 < UInt32.size := by
    intro index
    rw [List.getD_eq_getElem?_getD, List.getElem?_map]
    cases (text.toList.splitOn '.')[index]? with
    | none => decide
    | some segment => exact lt_of_le_of_lt (segmentValue_le segment) (by decide)
  rw [parse_eq, ofNumbers]
  exact ⟨hvalue 0, hvalue 1, hvalue 2⟩

/-- The characters that spell a number: its decimal digits, with blanks around them or
none. -/
def SpellsNumber (n : Nat) (segment : List Char) : Prop :=
  ∃ before after, (∀ c ∈ before, Text.isBlank c = true) ∧
    (∀ c ∈ after, Text.isBlank c = true) ∧ segment = before ++ Nat.toDigits 10 n ++ after

theorem spellsNumber_toDigits (n : Nat) : SpellsNumber n (Nat.toDigits 10 n) :=
  ⟨[], [], by simp, by simp, by simp⟩

theorem SpellsNumber.segmentValue_eq {n : Nat} (hspells : SpellsNumber n segment)
    (hfits : n < UInt32.size) : segmentValue segment = n := by
  obtain ⟨before, after, hbefore, hafter, rfl⟩ := hspells
  rw [segmentValue_append hbefore hafter, segmentValue_toDigits (Nat.le_of_lt_succ hfits)]

theorem SpellsNumber.point_notMem {n : Nat} (hspells : SpellsNumber n segment) :
    '.' ∉ segment := by
  obtain ⟨before, after, hbefore, hafter, rfl⟩ := hspells
  intro hmem
  rcases List.mem_append.mp hmem with hmem | hmem
  · rcases List.mem_append.mp hmem with hmem | hmem
    · exact Text.point_notMem hbefore hmem
    · exact absurd (Nat.isDigit_of_mem_toDigits (by decide) (by decide) hmem) (by decide)
  · exact Text.point_notMem hafter hmem

/-- The texts that spell a version: its numbers between points, and behind a further
point whatever may follow. -/
def Spells (version : Version) (text : String) : Prop :=
  ∃ major minor patch more, SpellsNumber version.major major ∧
    SpellsNumber version.minor minor ∧ SpellsNumber version.patch patch ∧
    (more = [] ∨ ∃ further, more = '.' :: further) ∧
    text.toList = major ++ '.' :: (minor ++ '.' :: (patch ++ more))

theorem spells_display (version : Version) : version.Spells version.display := by
  refine ⟨_, _, _, [], spellsNumber_toDigits _, spellsNumber_toDigits _,
    spellsNumber_toDigits _, Or.inl rfl, ?_⟩
  simp [display, ToString.toString, Nat.repr_eq_ofList_toDigits]

/-- A version is read back from the texts that spell it. -/
theorem Spells.parse_eq {version : Version} {text : String} (hspells : version.Spells text)
    (hfits : version.Fits) : parse text = version := by
  obtain ⟨major, minor, patch, more, hmajor, hminor, hpatch, hmore, htext⟩ := hspells
  have hlast : ∃ rest, (patch ++ more).splitOn '.' = patch :: rest := by
    rcases hmore with rfl | ⟨further, rfl⟩
    · exact ⟨[], by rw [List.append_nil, List.splitOn_eq_singleton hpatch.point_notMem]⟩
    · exact ⟨_, List.splitOn_append_cons_self_of_not_mem hpatch.point_notMem further⟩
  obtain ⟨rest, hrest⟩ := hlast
  rw [Version.parse_eq, htext, List.splitOn_append_cons_self_of_not_mem hmajor.point_notMem,
    List.splitOn_append_cons_self_of_not_mem hminor.point_notMem, hrest]
  calc ofNumbers ((major :: minor :: patch :: rest).map segmentValue)
      = ⟨segmentValue major, segmentValue minor, segmentValue patch⟩ := rfl
    _ = version := by
        rw [hmajor.segmentValue_eq hfits.major_lt, hminor.segmentValue_eq hfits.minor_lt,
          hpatch.segmentValue_eq hfits.patch_lt]

/-! ## Comparing versions -/

/-- The numbers of a version, compared from the first to the last. -/
def key (version : Version) : ℕ ×ₗ ℕ ×ₗ ℕ :=
  toLex (version.major, toLex (version.minor, version.patch))

theorem atLeast_iff {version least : Version} :
    version.atLeast least = true ↔ least.key ≤ version.key := by
  rw [key, key, Prod.Lex.toLex_le_toLex, Prod.Lex.toLex_le_toLex, atLeast]
  split_ifs with hmajor hminor
  · simp only [decide_eq_true_eq]
    omega
  · simp only [decide_eq_true_eq]
    omega
  · simp only [decide_eq_true_eq]
    omega

end Version

/-! ## What a version offers -/

namespace Capabilities

theorem supports_empty (capability : Capability) : empty.supports capability = false := by
  cases capability <;> rfl

theorem supports_grant (granted : Capabilities) (given capability : Capability) :
    (granted.grant given).supports capability =
      (granted.supports capability || given = capability) := by
  cases given <;> cases capability <;> simp [grant, supports]

end Capabilities

namespace Dialect

/-- A dialect offers what it lists for a version that is not later. -/
theorem supports_capabilities_iff (dialect : Dialect) (version : Version)
    (capability : Capability) :
    (dialect.capabilities version).supports capability = true ↔
      ∃ threshold ∈ dialect.thresholds,
        threshold.1 = capability ∧ threshold.2.key ≤ version.key := by
  have hgranted : ∀ (thresholds : List (Capability × Version)) (granted : Capabilities),
      (thresholds.foldl (fun granted threshold =>
          if version.atLeast threshold.2 then granted.grant threshold.1 else granted)
          granted).supports capability = true ↔
        granted.supports capability = true ∨ ∃ threshold ∈ thresholds,
          threshold.1 = capability ∧ threshold.2.key ≤ version.key := by
    intro thresholds
    induction thresholds with
    | nil => simp
    | cons first rest ih =>
        intro granted
        simp only [List.foldl_cons, ih, List.mem_cons, exists_eq_or_imp, ← Version.atLeast_iff]
        split
        next hatLeast => simp [Capabilities.supports_grant, hatLeast, or_assoc]
        next hearlier => simp [hearlier]
  rw [capabilities, hgranted, Capabilities.supports_empty]
  simp

/-- A later version offers whatever an earlier one does. -/
theorem supports_of_le (dialect : Dialect) {lower higher : Version}
    (hle : lower.key ≤ higher.key) {capability : Capability}
    (hlower : (dialect.capabilities lower).supports capability = true) :
    (dialect.capabilities higher).supports capability = true := by
  obtain ⟨threshold, hmem, hcapability, hversion⟩ :=
    (dialect.supports_capabilities_iff lower capability).mp hlower
  exact (dialect.supports_capabilities_iff higher capability).mpr
    ⟨threshold, hmem, hcapability, hversion.trans hle⟩

end Dialect

/-- The version from which SQLite offers a capability. -/
def Capability.since : Capability → Version
  | dropColumn => ⟨3, 35, 0⟩
  | renameColumn | renameTable => ⟨3, 25, 0⟩

namespace Capabilities

theorem resolve_of_unregistered {dialect : String}
    (hunknown : ∀ known ∈ Dialect.registered, known.name ≠ dialect) (version : String) :
    resolve dialect version = empty := by
  have hnone : Dialect.registered.find? (·.name = dialect) = none := by
    simpa using hunknown
  rw [resolve, hnone]

theorem supports_sqlite_iff (version : String) (capability : Capability) :
    (resolve "sqlite" version).supports capability = true ↔
      capability.since.key ≤ (Version.parse version).key := by
  have hresolve : resolve "sqlite" version =
      Dialect.sqlite.capabilities (Version.parse version) := rfl
  rw [hresolve, Dialect.supports_capabilities_iff]
  cases capability <;> simp [Dialect.sqlite, Capability.since]

/-- Whatever a dialect name resolves to at one version, it resolves to at a later one. -/
theorem supports_resolve_of_le {dialect lower higher : String} {capability : Capability}
    (hle : (Version.parse lower).key ≤ (Version.parse higher).key)
    (hlower : (resolve dialect lower).supports capability = true) :
    (resolve dialect higher).supports capability = true := by
  cases hfind : Dialect.registered.find? (·.name = dialect) with
  | none =>
      rw [resolve, hfind, supports_empty] at hlower
      cases hlower
  | some known =>
      rw [resolve, hfind] at hlower ⊢
      exact known.supports_of_le hle hlower

end Capabilities

namespace Version

/-- A version whose numbers fit is read back from its text, and from every other text that
spells it between blanks; only such versions are read.  A dialect offers at a version
whatever it offers at an earlier one, SQLite each capability exactly from its version on,
and an unregistered dialect nothing. -/
theorem parse_and_resolve :
    (∀ version : Version, version.Fits → version.Spells version.display ∧
      ∀ before text after : String, (∀ c ∈ before.toList, Text.isBlank c = true) →
        (∀ c ∈ after.toList, Text.isBlank c = true) → version.Spells text →
          parse (before ++ text ++ after) = version) ∧
      (∀ text, (parse text).Fits) ∧
      (∀ dialect lower higher capability, (parse lower).key ≤ (parse higher).key →
        (Capabilities.resolve dialect lower).supports capability = true →
          (Capabilities.resolve dialect higher).supports capability = true) ∧
      (∀ text capability, (Capabilities.resolve "sqlite" text).supports capability = true ↔
        capability.since.key ≤ (parse text).key) ∧
      ∀ dialect text, (∀ known ∈ Dialect.registered, known.name ≠ dialect) →
        Capabilities.resolve dialect text = Capabilities.empty := by
  refine ⟨fun version hfits => ⟨spells_display version, ?_⟩, fits_parse, ?_, ?_, ?_⟩
  · intro before text after hbefore hafter hspells
    rw [parse_append hbefore hafter, hspells.parse_eq hfits]
  · intro dialect lower higher capability hle hlower
    exact Capabilities.supports_resolve_of_le hle hlower
  · exact Capabilities.supports_sqlite_iff
  · intro dialect text hunknown
    exact Capabilities.resolve_of_unregistered hunknown text

/-- A text with blanks in many places and a further segment, and what SQLite offers there. -/
theorem parse_and_resolve_padded :
    parse ("\t" ++ "3 . 35.\n0.beta.1" ++ " ") = ⟨3, 35, 0⟩ ∧
      (Capabilities.resolve "sqlite" "\t3 . 35.\n0.beta.1 ").supports .dropColumn = true ∧
      (Capabilities.resolve "sqlite" "3.34.9").supports .dropColumn = false ∧
      Capabilities.resolve "SQLite" "3.35.0" = Capabilities.empty := by
  obtain ⟨hread, -, -, hsqlite, hunknown⟩ := parse_and_resolve
  have hfits : (⟨3, 35, 0⟩ : Version).Fits := ⟨by decide, by decide, by decide⟩
  have hblank : ∀ c ∈ [' '], Text.isBlank c = true := List.forall_mem_singleton.mpr (by decide)
  have hline : ∀ c ∈ ['\n'], Text.isBlank c = true := List.forall_mem_singleton.mpr (by decide)
  have htab : ∀ c ∈ ['\t'], Text.isBlank c = true := List.forall_mem_singleton.mpr (by decide)
  have hspells : (⟨3, 35, 0⟩ : Version).Spells "3 . 35.\n0.beta.1" :=
    ⟨"3 ".toList, " 35".toList, "\n0".toList, ".beta.1".toList,
      ⟨[], [' '], by simp, hblank, by decide⟩, ⟨[' '], [], hblank, by simp, by decide⟩,
      ⟨['\n'], [], hline, by simp, by decide⟩, Or.inr ⟨"beta.1".toList, by decide⟩, by decide⟩
  have hparse : parse ("\t" ++ "3 . 35.\n0.beta.1" ++ " ") = ⟨3, 35, 0⟩ :=
    (hread _ hfits).2 "\t" _ " " htab hblank hspells
  refine ⟨hparse, ?_, ?_, hunknown _ _ (by decide)⟩
  · have hjoined : "\t" ++ "3 . 35.\n0.beta.1" ++ " " = "\t3 . 35.\n0.beta.1 " := by decide
    rw [hsqlite, ← hjoined, hparse]
    exact le_rfl
  · rw [Bool.eq_false_iff, ne_eq, hsqlite, Capability.since, key, key, Prod.Lex.toLex_le_toLex,
      Prod.Lex.toLex_le_toLex]
    decide

end Version

end SchemaMigration
