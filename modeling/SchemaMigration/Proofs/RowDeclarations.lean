import SchemaMigration.Proofs.Identifiers

/-!
# What a document of row types declares

A document is read line by line into the structs it declares and their fields.  There is
one struct for each table and in it one field for each column.  Different names may come
out the same: letter case and the characters that are replaced do not tell columns apart,
and what stands between words does not tell tables apart.
-/

namespace SchemaMigration.RowTypes

/-! ## Names that come out the same -/

/-- Whether two names have the same ASCII letters and digits in the same places, up to the
case of the letters.  Any other character is as good as an underscore. -/
def SpelledAlike (name other : String) : Prop :=
  List.Forall₂ (fun c d => c.isAlphanum = d.isAlphanum ∧
    (c.isAlphanum = true → c.toLower = d.toLower)) (padded name) (padded other)

theorem keptChar_toLower_eq_iff (c d : Char) :
    (keptChar c).toLower = (keptChar d).toLower ↔
      c.isAlphanum = d.isAlphanum ∧ (c.isAlphanum = true → c.toLower = d.toLower) := by
  cases hc : c.isAlphanum with
  | true =>
    cases hd : d.isAlphanum with
    | true => simp [keptChar_of_isAlphanum hc, keptChar_of_isAlphanum hd]
    | false =>
      rw [(keptChar_toLower_eq_underscore_iff d).mpr hd, keptChar_toLower_eq_underscore_iff]
      simp [hc]
  | false =>
    simp only [Bool.false_eq_true, false_implies, and_true]
    rw [(keptChar_toLower_eq_underscore_iff c).mpr hc, eq_comm,
      keptChar_toLower_eq_underscore_iff, eq_comm]

theorem lowered_eq_lowered_iff (name other : String) :
    lowered name = lowered other ↔ SpelledAlike name other := by
  rw [← String.toList_inj, toList_lowered, toList_lowered, ← List.forall₂_eq_eq_eq,
    List.forall₂_map_left_iff, List.forall₂_map_right_iff, SpelledAlike]
  simp only [keptChar_toLower_eq_iff]

theorem fieldName_eq_iff (name other : String) :
    fieldName name = fieldName other ↔ SpelledAlike name other := by
  rw [← lowered_eq_lowered_iff, fieldName_eq, fieldName_eq]
  constructor
  · intro hsame
    split at hsame
    · split at hsame
      · rwa [String.append_right_inj] at hsame
      · exact absurd hsame.symm (raw_ne (isIdentifier_lowered other) _)
    · split at hsame
      · exact absurd hsame (raw_ne (isIdentifier_lowered name) _)
      · exact hsame
  · intro hsame
    rw [hsame]

theorem underscore_notMem_titled (name : String) : '_' ∉ titled name := fun hmem =>
  absurd (isAlphanum_of_mem_titled hmem) (by decide)

theorem typeName_eq_iff (name other : String) :
    typeName name = typeName other ↔ titled name = titled other := by
  constructor
  · intro hsame
    rw [typeName_eq, typeName_eq, String.ofList_inj] at hsame
    split at hsame
    · split at hsame
      · exact List.tail_eq_of_cons_eq hsame
      · exact absurd (hsame ▸ List.mem_cons_self) (underscore_notMem_titled other)
    · split at hsame
      · exact absurd (hsame ▸ List.mem_cons_self) (underscore_notMem_titled name)
      · exact hsame
  · intro hsame
    rw [typeName_eq, typeName_eq, hsame]

/-! ## Reading a document -/

/-- A struct with the names of its fields. -/
structure Declared where
  name : String
  fields : List String
deriving DecidableEq

/-- What a line holds between its beginning and the first `stop`. -/
def named? (beginning : String) (stop : Char) (line : List Char) : Option String :=
  if beginning.toList <+: line then
    some (String.ofList ((line.drop beginning.toList.length).takeWhile (· ≠ stop)))
  else none

def structName? (line : List Char) : Option String := named? "pub struct " ' ' line

def fieldOf? (line : List Char) : Option String := named? "    pub " ':' line

/-- The structs that lines declare.  The fields stand on the lines up to the closing
brace. -/
def declaredIn : List (List Char) → List Declared
  | [] => []
  | line :: rest =>
      match structName? line with
      | some name =>
          ⟨name, (rest.takeWhile (· ≠ ['\x7d'])).filterMap fieldOf?⟩ :: declaredIn rest
      | none => declaredIn rest

/-- The structs that a text declares. -/
def declared (text : String) : List Declared := declaredIn (text.toList.splitOn '\n')

theorem named?_of_beginning {beginning text : String} {stop : Char} (hstop : stop ∉ text.toList)
    (foot : List Char) :
    named? beginning stop (beginning.toList ++ text.toList ++ stop :: foot) = some text := by
  have hdrop : (beginning.toList ++ (text.toList ++ stop :: foot)).drop beginning.toList.length =
      text.toList ++ stop :: foot := List.drop_left
  have htake : (text.toList ++ stop :: foot).takeWhile (· ≠ stop) = text.toList := by
    rw [List.takeWhile_append_of_pos, List.takeWhile_cons_of_neg (by simp), List.append_nil]
    intro c hc
    simpa using ne_of_mem_of_not_mem hc hstop
  rw [named?, List.append_assoc, if_pos (List.prefix_append _ _), hdrop, htake,
    String.ofList_toList]

theorem declaredIn_of_none {lines rest : List (List Char)}
    (hnone : ∀ line ∈ lines, structName? line = none) :
    declaredIn (lines ++ rest) = declaredIn rest := by
  induction lines with
  | nil => rfl
  | cons line lines ih =>
    rw [List.forall_mem_cons] at hnone
    rw [List.cons_append, declaredIn, hnone.1]
    exact ih hnone.2

/-! ## The lines of a document -/

theorem splitOn_join (lines : List String) :
    (String.join (lines.map (· ++ "\n"))).toList.splitOn '\n' =
      lines.flatMap (fun line => line.toList.splitOn '\n') ++ [[]] := by
  induction lines with
  | nil => rfl
  | cons line lines ih =>
    have hline : (line ++ "\n").toList = line.toList ++ ['\n'] := by simp
    rw [List.map_cons, String.join_cons, String.toList_append, hline, List.append_assoc,
      List.singleton_append, List.splitOn_append_cons_self, ih, List.flatMap_cons,
      List.append_assoc]

def fieldLine (column : Column) : String :=
  "    pub " ++ fieldName column.name ++ ": " ++ fieldType column ++ ","

def headLine (table : Table) : String := "pub struct " ++ typeName table.name ++ "Row \x7b"

/-- The lines in front of a struct. -/
def noteLines (table : Table) : List String :=
  ["", "/// Row of the `" ++ table.name ++ "` table.", "#[derive(Debug, Clone, PartialEq)]"]

def tableLines (table : Table) : List String :=
  noteLines table ++ headLine table :: (table.columns.map fieldLine ++ ["\x7d"])

def lines (registry : Registry) : List String :=
  "// Generated by oxide-migrate-compiler. Do not edit." :: registry.tables.flatMap tableLines

theorem field_eq (column : Column) : field column = fieldLine column ++ "\n" := by
  have hend : ",\n" = "," ++ "\n" := rfl
  rw [field, fieldLine, hend, ← String.append_assoc]

theorem declaration_eq_join (table : Table) :
    "\n" ++ declaration table = String.join ((tableLines table).map (· ++ "\n")) := by
  have hnote : "` table.\n" = "` table." ++ "\n" := rfl
  have hderive : "#[derive(Debug, Clone, PartialEq)]\n" =
      "#[derive(Debug, Clone, PartialEq)]" ++ "\n" := rfl
  have hhead : "Row \x7b\n" = "Row \x7b" ++ "\n" := rfl
  have hclose : "\x7d\n" = "\x7d" ++ "\n" := rfl
  have hfields : table.columns.map field = (table.columns.map fieldLine).map (· ++ "\n") := by
    rw [List.map_map]
    exact List.map_congr_left fun column _ => field_eq column
  unfold declaration
  rw [hfields, hnote, hderive, hhead, hclose]
  simp only [tableLines, noteLines, headLine, List.map_append, List.map_cons, List.map_nil,
    String.join_append, String.join_cons, String.join_nil, String.append_assoc,
    String.empty_append, String.append_empty]

theorem join_declarations (tables : List Table) :
    String.join (tables.map fun table => "\n" ++ declaration table) =
      String.join ((tables.flatMap tableLines).map (· ++ "\n")) := by
  induction tables with
  | nil => rfl
  | cons table tables ih =>
    rw [List.map_cons, String.join_cons, ih, declaration_eq_join, List.flatMap_cons,
      List.map_append, String.join_append]

theorem document_eq_join (registry : Registry) :
    document registry = String.join ((lines registry).map (· ++ "\n")) := by
  have hmade : "// Generated by oxide-migrate-compiler. Do not edit.\n" =
      "// Generated by oxide-migrate-compiler. Do not edit." ++ "\n" := rfl
  unfold document
  rw [join_declarations, hmade, lines, List.map_cons, String.join_cons]

theorem notMem_fieldName (name : String) {c : Char} (hc : c.isAlphanum = false) (hne : c ≠ '_')
    (hraw : c ≠ '#') : c ∉ (fieldName name).toList := by
  have hlowered := (isIdentifier_lowered name).notMem hc hne
  have hletter : c ≠ 'r' := by
    rintro rfl
    exact absurd hc (by decide)
  rw [fieldName_eq]
  split
  · simp [hletter, hraw, hlowered]
  · exact hlowered

theorem newline_notMem_fieldType (column : Column) : '\n' ∉ (fieldType column).toList := by
  have hbase : '\n' ∉ (baseType column.type).toList := by
    cases column.type <;> simp [baseType]
  rw [fieldType]
  split
  · exact hbase
  · simp [hbase]

theorem newline_notMem_lines {registry : Registry}
    (hnames : ∀ table ∈ registry.tables, '\n' ∉ table.name.toList) :
    ∀ line ∈ lines registry, '\n' ∉ line.toList := by
  intro line hline
  rcases List.mem_cons.mp hline with rfl | hline
  · simp
  · obtain ⟨table, htable, hline⟩ := List.mem_flatMap.mp hline
    have hrow := (isIdentifier_row table.name).notMem (c := '\n') rfl (by decide)
    simp only [tableLines, noteLines, headLine, List.mem_append, List.mem_cons,
      List.not_mem_nil, or_false, List.mem_map] at hline
    rcases hline with (rfl | rfl | rfl) | rfl | ⟨column, -, rfl⟩ | rfl
    · simp
    · simp [hnames table htable]
    · simp
    · simpa using hrow
    · have hname := notMem_fieldName column.name (c := '\n') rfl (by decide) (by decide)
      simp [fieldLine, hname, newline_notMem_fieldType]
    · simp

namespace Declared

/-- The struct of a table. -/
def ofTable (table : Table) : Declared :=
  ⟨typeName table.name ++ "Row", table.columns.map fun column => fieldName column.name⟩

end Declared

theorem structName?_headLine (table : Table) :
    structName? (headLine table).toList = some (typeName table.name ++ "Row") := by
  have hblank := (isIdentifier_row table.name).notMem (c := ' ') rfl (by decide)
  have hline : (headLine table).toList = "pub struct ".toList ++
      (typeName table.name ++ "Row").toList ++ ' ' :: ['\x7b'] := by
    simp [headLine]
  rw [hline, structName?, named?_of_beginning hblank]

theorem fieldOf?_fieldLine (column : Column) :
    fieldOf? (fieldLine column).toList = some (fieldName column.name) := by
  have hcolon := notMem_fieldName column.name (c := ':') rfl (by decide) (by decide)
  have hline : (fieldLine column).toList = "    pub ".toList ++ (fieldName column.name).toList ++
      ':' :: (" " ++ fieldType column ++ ",").toList := by
    simp [fieldLine]
  rw [hline, fieldOf?, named?_of_beginning hcolon]

theorem structName?_eq_none {line : List Char} (hhead : line.head? ≠ some 'p') :
    structName? line = none := by
  rw [structName?, named?, if_neg]
  rintro ⟨rest, rfl⟩
  exact hhead rfl

theorem structName?_fieldLine (column : Column) : structName? (fieldLine column).toList = none :=
  structName?_eq_none (by simp [fieldLine])

theorem structName?_noteLines (table : Table) :
    ∀ line ∈ (noteLines table).map String.toList, structName? line = none := by
  intro line hline
  apply structName?_eq_none
  simp only [noteLines, List.map_cons, List.map_nil, List.mem_cons, List.not_mem_nil,
    or_false] at hline
  rcases hline with rfl | rfl | rfl <;> simp

theorem filterMap_fieldLines (columns : List Column) :
    ((columns.map fieldLine).map String.toList).filterMap fieldOf? =
      columns.map fun column => fieldName column.name := by
  induction columns with
  | nil => rfl
  | cons column columns ih =>
    rw [List.map_cons, List.map_cons, List.filterMap_cons_some (fieldOf?_fieldLine column), ih,
      List.map_cons]

theorem declaredIn_tableLines (table : Table) (rest : List (List Char)) :
    declaredIn ((tableLines table).map String.toList ++ rest) =
      Declared.ofTable table :: declaredIn rest := by
  have hclose : "\x7d".toList = ['\x7d'] := by simp
  have hopen : ∀ line ∈ (table.columns.map fieldLine).map String.toList,
      decide (line ≠ ['\x7d']) = true := by
    simp [fieldLine]
  have hfields : ((table.columns.map fieldLine).map String.toList ++
      ['\x7d'] :: rest).takeWhile (· ≠ ['\x7d']) =
        (table.columns.map fieldLine).map String.toList := by
    rw [List.takeWhile_append_of_pos hopen, List.takeWhile_cons_of_neg (by simp), List.append_nil]
  have hnone : ∀ line ∈ (table.columns.map fieldLine).map String.toList ++ [['\x7d']],
      structName? line = none := by
    intro line hline
    rcases List.mem_append.mp hline with hline | hline
    · rw [List.map_map] at hline
      obtain ⟨column, -, rfl⟩ := List.mem_map.mp hline
      exact structName?_fieldLine column
    · rw [List.mem_singleton] at hline
      exact structName?_eq_none (by simp [hline])
  calc declaredIn ((tableLines table).map String.toList ++ rest)
    _ = declaredIn ((headLine table).toList ::
          ((table.columns.map fieldLine).map String.toList ++ ['\x7d'] :: rest)) := by
      rw [tableLines, List.map_append, List.append_assoc,
        declaredIn_of_none (structName?_noteLines table)]
      simp
    _ = Declared.ofTable table ::
          declaredIn ((table.columns.map fieldLine).map String.toList ++ ['\x7d'] :: rest) := by
      rw [declaredIn, structName?_headLine, hfields, filterMap_fieldLines, Declared.ofTable]
    _ = Declared.ofTable table :: declaredIn rest := by
      rw [List.append_cons, declaredIn_of_none hnone]

theorem declaredIn_lines (registry : Registry) :
    declaredIn ((lines registry).map String.toList ++ [[]]) =
      registry.tables.map Declared.ofTable := by
  have hmade : structName? "// Generated by oxide-migrate-compiler. Do not edit.".toList = none :=
    structName?_eq_none (by simp)
  rw [lines, List.map_cons, List.cons_append, declaredIn, hmade]
  dsimp only
  induction registry.tables with
  | nil => rfl
  | cons table tables ih =>
    rw [List.flatMap_cons, List.map_append, List.append_assoc, declaredIn_tableLines, ih,
      List.map_cons]

theorem declared_document (registry : Registry) :
    declared (document registry) = declaredIn
      ((lines registry).flatMap (fun line => line.toList.splitOn '\n') ++ [[]]) := by
  rw [declared, document_eq_join, splitOn_join]

theorem declared_of_single_lines {registry : Registry}
    (hnames : ∀ table ∈ registry.tables, '\n' ∉ table.name.toList) :
    declared (document registry) = registry.tables.map Declared.ofTable := by
  have hsplit : (lines registry).flatMap (fun line => line.toList.splitOn '\n') =
      (lines registry).map String.toList := by
    rw [List.map_eq_flatMap]
    exact List.flatMap_congr fun line hline =>
      List.splitOn_eq_singleton (newline_notMem_lines hnames line hline)
  rw [declared_document, hsplit, declaredIn_lines]

theorem nodup_names_iff (tables : List Table) :
    ((tables.map Declared.ofTable).map fun struct => struct.name).Nodup ↔
      tables.Pairwise fun table other => titled table.name ≠ titled other.name := by
  rw [List.map_map, List.Nodup, List.pairwise_map]
  simp only [Function.comp_apply, Declared.ofTable, ne_eq, String.append_left_inj,
    typeName_eq_iff]

theorem nodup_fields_iff (table : Table) :
    (Declared.ofTable table).fields.Nodup ↔
      table.columns.Pairwise fun column other => ¬SpelledAlike column.name other.name := by
  rw [Declared.ofTable, List.Nodup, List.pairwise_map]
  simp only [ne_eq, fieldName_eq_iff]

/-- The document declares one struct for each table, in the order of the registry, and in it
one field for each column, unless the name of a table goes over several lines.  The structs
have different names exactly if the tables differ in their words, and the fields of a
struct exactly if no two columns are spelled alike. -/
theorem declared_names (registry : Registry) :
    ((∀ table ∈ registry.tables, '\n' ∉ table.name.toList) →
      declared (document registry) = registry.tables.map Declared.ofTable) ∧
    (((registry.tables.map Declared.ofTable).map fun struct => struct.name).Nodup ↔
      registry.tables.Pairwise fun table other => titled table.name ≠ titled other.name) ∧
    ∀ table ∈ registry.tables, ((Declared.ofTable table).fields.Nodup ↔
      table.columns.Pairwise fun column other => ¬SpelledAlike column.name other.name) :=
  ⟨declared_of_single_lines, nodup_names_iff registry.tables, fun table _ =>
    nodup_fields_iff table⟩

/-- Two tables whose names differ in their words. -/
def spaced : Registry :=
  ⟨[{ name := "space_ship",
      entries := [{ column := { name := "Home World", type := .text } },
        { column := { name := "type", type := .text } }] },
    { name := "spaceship", entries := [] }]⟩

theorem declared_names_spaced :
    (∀ table ∈ spaced.tables, '\n' ∉ table.name.toList) ∧
      declared (document spaced) =
        [⟨"SpaceShipRow", ["home_world", "r#type"]⟩, ⟨"SpaceshipRow", []⟩] ∧
      ((spaced.tables.map Declared.ofTable).map fun struct => struct.name).Nodup := by
  have hnames : ∀ table ∈ spaced.tables, '\n' ∉ table.name.toList := by decide
  obtain ⟨hdeclared, hdistinct, -⟩ := declared_names spaced
  refine ⟨hnames, ?_, hdistinct.mpr (by decide)⟩
  rw [hdeclared hnames]
  decide

/-- Tables that differ in the case of a letter, and columns that differ in a blank. -/
def crowded : Registry :=
  ⟨[{ name := "people",
      entries := [{ column := { name := "Home World", type := .text } },
        { column := { name := "home_world", type := .text } }] },
    { name := "People", entries := [{ column := { name := "id", type := .identity } }] }]⟩

/-- A table whose name goes over several lines, one of which opens a struct. -/
def intruding : Registry :=
  ⟨[{ name := "x\npub struct PetsRow \x7b\n\x7d\n", entries := [] },
    { name := "pets", entries := [] }]⟩

/-- Tables and columns with different names come out as two structs of one name and two
fields of one name.  The name of a table that goes over several lines can declare the
struct of another table once more. -/
theorem not_nodup_declared_crowded :
    ((crowded.tables.map fun table => table.name).Nodup ∧
      (∀ table ∈ crowded.tables, table.columnNames.Nodup) ∧
      ¬((declared (document crowded)).map fun struct => struct.name).Nodup ∧
      ∃ struct ∈ declared (document crowded), ¬struct.fields.Nodup) ∧
    (intruding.tables.Pairwise fun table other => titled table.name ≠ titled other.name) ∧
      ¬((declared (document intruding)).map fun struct => struct.name).Nodup := by
  have hcrowded : declared (document crowded) =
      [⟨"PeopleRow", ["home_world", "home_world"]⟩, ⟨"PeopleRow", ["id"]⟩] := by
    rw [declared_of_single_lines (by decide)]
    decide
  have hintruding : declared (document intruding) =
      [⟨"PetsRow", []⟩, ⟨"XPubStructPetsRowRow", []⟩, ⟨"PetsRow", []⟩] := by
    rw [declared_document]
    decide +kernel
  rw [hcrowded, hintruding]
  decide

/-! ## Names in snake case -/

/-- Whether a word begins with a lower-case letter and holds no capital ones. -/
def isSnakeWord : List Char → Bool
  | [] => false
  | first :: rest => first.isLower && rest.all fun c => !c.isUpper

/-- A name made of such words with single underscores between them.  A word that began with
a digit could not be told from the end of the word before. -/
def IsSnakeCase (name : String) : Prop :=
  name.toList = ['_'].intercalate (words name) ∧ ∀ word ∈ words name, isSnakeWord word = true

example : IsSnakeCase "space_ship2" ∧ ¬IsSnakeCase "space_ship_2" := by
  rw [IsSnakeCase, IsSnakeCase]
  decide

theorem exists_of_isSnakeWord {word : List Char} (hword : isSnakeWord word = true) :
    ∃ first rest, word = first :: rest ∧ first.isLower = true ∧
      ∀ c ∈ rest, c.isUpper = false := by
  cases word with
  | nil => cases hword
  | cons first rest =>
    rw [isSnakeWord, Bool.and_eq_true, List.all_eq_true] at hword
    exact ⟨first, rest, rfl, hword.1, by simpa using hword.2⟩

theorem isUpper_toUpper_of_isLower {c : Char} (hc : c.isLower = true) :
    c.toUpper.isUpper = true := by
  simp [Char.isAlpha, hc]

theorem toUpper_injective_of_isLower {c d : Char} (hc : c.isLower = true) (hd : d.isLower = true)
    (hsame : c.toUpper = d.toUpper) : c = d := by
  have hkept : ∀ {c : Char}, c.isLower = true → c.toLower = c := fun hlower =>
    Char.toLower_eq_of_not_isUpper (Char.not_isUpper_of_isLower hlower)
  rw [← hkept hc, ← hkept hd, ← Char.toLower_toUpper_eq_toLower c, hsame,
    Char.toLower_toUpper_eq_toLower]

/-- The next capital letter ends a word. -/
theorem takeWhile_append_flatMap_capitalize {rest : List Char} {later : List (List Char)}
    (hrest : ∀ c ∈ rest, c.isUpper = false) (hlater : ∀ word ∈ later, isSnakeWord word = true) :
    (rest ++ later.flatMap capitalize).takeWhile (fun c => !c.isUpper) = rest := by
  rw [List.takeWhile_append_of_pos (by simpa using hrest)]
  cases later with
  | nil => simp
  | cons word later =>
    obtain ⟨first, letters, rfl, hfirst, -⟩ := exists_of_isSnakeWord
      (hlater word List.mem_cons_self)
    rw [List.flatMap_cons, capitalize, List.cons_append,
      List.takeWhile_cons_of_neg (by simp [isUpper_toUpper_of_isLower hfirst]), List.append_nil]

/-- Each capital letter begins a word, so the words can be told apart. -/
theorem eq_of_flatMap_capitalize_eq {list other : List (List Char)}
    (hlist : ∀ word ∈ list, isSnakeWord word = true)
    (hother : ∀ word ∈ other, isSnakeWord word = true)
    (hsame : list.flatMap capitalize = other.flatMap capitalize) : list = other := by
  induction list generalizing other with
  | nil =>
    cases other with
    | nil => rfl
    | cons word words =>
      obtain ⟨first, later, rfl, -⟩ := exists_of_isSnakeWord (hother word List.mem_cons_self)
      cases hsame
  | cons word words ih =>
    obtain ⟨first, later, rfl, hfirst, hlater⟩ := exists_of_isSnakeWord
      (hlist word List.mem_cons_self)
    cases other with
    | nil => cases hsame
    | cons word' words' =>
      obtain ⟨first', later', rfl, hfirst', hlater'⟩ := exists_of_isSnakeWord
        (hother word' List.mem_cons_self)
      rw [List.forall_mem_cons] at hlist hother
      obtain ⟨hhead, htail⟩ := List.cons_eq_cons.mp hsame
      have hword : later = later' := by
        rw [← takeWhile_append_flatMap_capitalize hlater hlist.2,
          ← takeWhile_append_flatMap_capitalize hlater' hother.2]
        exact congrArg _ htail
      subst hword
      rw [toUpper_injective_of_isLower hfirst hfirst' hhead,
        ih hlist.2 hother.2 (List.append_cancel_left htail)]

theorem eq_of_titled_eq {name other : String} (hname : IsSnakeCase name)
    (hother : IsSnakeCase other) (hsame : titled name = titled other) : name = other := by
  rw [← String.toList_inj, hname.1, hother.1,
    eq_of_flatMap_capitalize_eq hname.2 hother.2 hsame]

/-- An identifier without capital letters. -/
structure IsLowerCase (name : String) : Prop extends IsIdentifier name where
  lower : ∀ c ∈ name.toList, c.isUpper = false

theorem IsLowerCase.padded_eq {name : String} (hname : IsLowerCase name) :
    padded name = name.toList := by
  obtain ⟨c, rest, hchars⟩ := List.exists_cons_of_ne_nil (l := name.toList)
    (by simpa using hname.ne_empty)
  refine padded_eq_self (by simp [hchars]) ?_
  rw [hchars]
  exact hname.head c (by simp [hchars])

theorem IsLowerCase.eq_of_mem {name other : String} (hname : IsLowerCase name)
    (hother : IsLowerCase other) {c d : Char} (hc : c ∈ name.toList) (hd : d ∈ other.toList)
    (hplain : c.isAlphanum = d.isAlphanum)
    (hsame : c.isAlphanum = true → c.toLower = d.toLower) : c = d := by
  have hkept : c.toLower = c ∧ d.toLower = d :=
    ⟨Char.toLower_eq_of_not_isUpper (by simp [hname.lower c hc]),
      Char.toLower_eq_of_not_isUpper (by simp [hother.lower d hd])⟩
  rcases hname.plain c hc with hletter | rfl
  · rw [← hkept.1, hsame hletter, hkept.2]
  · rcases hother.plain d hd with hletter | rfl
    · rw [hletter] at hplain
      exact absurd hplain (by decide)
    · rfl

theorem eq_of_spelledAlike {name other : String} (hname : IsLowerCase name)
    (hother : IsLowerCase other) (halike : SpelledAlike name other) : name = other := by
  rw [SpelledAlike, hname.padded_eq, hother.padded_eq] at halike
  rw [← String.toList_inj]
  refine List.ext_getElem halike.length_eq fun place hplace hplace' => ?_
  obtain ⟨hplain, hsame⟩ := halike.get hplace hplace'
  exact hname.eq_of_mem hother (List.getElem_mem _) (List.getElem_mem _) hplain hsame

/-- Where tables are named in snake case and columns in lower case, different names are
declared under different names. -/
theorem nodup_declared_of_snakeCase {registry : Registry}
    (htables : (registry.tables.map fun table => table.name).Nodup)
    (hcolumns : ∀ table ∈ registry.tables, table.columnNames.Nodup)
    (hsnake : ∀ table ∈ registry.tables, IsSnakeCase table.name)
    (hlower : ∀ table ∈ registry.tables, ∀ column ∈ table.columns, IsLowerCase column.name) :
    ((registry.tables.map Declared.ofTable).map fun struct => struct.name).Nodup ∧
      ∀ table ∈ registry.tables, (Declared.ofTable table).fields.Nodup := by
  constructor
  · rw [nodup_names_iff]
    refine (List.pairwise_map.mp htables).imp_of_mem fun hmem hother hne hsame => ?_
    exact hne (eq_of_titled_eq (hsnake _ hmem) (hsnake _ hother) hsame)
  · intro table htable
    have hnodup : (table.columns.map fun column => column.name).Nodup := by
      rw [Table.columns, List.map_map]
      exact hcolumns table htable
    rw [nodup_fields_iff]
    refine (List.pairwise_map.mp hnodup).imp_of_mem fun hmem hother hne halike => ?_
    exact hne (eq_of_spelledAlike (hlower table htable _ hmem) (hlower table htable _ hother)
      halike)

end SchemaMigration.RowTypes
