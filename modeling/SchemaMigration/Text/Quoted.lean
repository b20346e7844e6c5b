/-!
# Quoted text

SQL puts identifiers between double quotes and strings between single quotes;
a quote inside the text is written twice.
-/

namespace SchemaMigration.Text

/-- The text with each occurrence of `mark` written twice. -/
def double (mark : Char) : List Char → List Char
  | [] => []
  | c :: rest =>
      if c = mark then mark :: mark :: double mark rest
      else c :: double mark rest

/-- The text between two marks, with the marks inside it doubled. -/
def enclose (mark : Char) (text : String) : String :=
  String.ofList (mark :: (double mark text.toList ++ [mark]))

/-- A name as SQL writes it. -/
def identifier (name : String) : String := enclose '"' name

/-- A string as SQL writes it. -/
def stringLiteral (text : String) : String := enclose '\'' text

end SchemaMigration.Text
