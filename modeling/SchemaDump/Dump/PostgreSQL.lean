import SchemaDump.Definition.Split
import SchemaDump.Definition.Constraint
import SchemaDump.Definition.Marker
import SchemaDump.Definition.DefaultValue
import SchemaDump.Schema.Draft
/- Dumps of PostgreSQL. Keys are declared in a table or by statements that alter it later. -/
namespace SchemaDump.PostgreSQL
open SqlPattern Pattern

/-- A table statement up to its semicolon. -/
def tableBlock : SqlPattern :=
  keyword "CREATE" ++ blanks ++
    maybe (anyOf [keyword "UNLOGGED", keyword "TEMPORARY", keyword "TEMP"] ++ blanks) ++
    keyword "TABLE" ++ blanks ++ maybe (phrase ["IF", "NOT", "EXISTS"] ++ blanks) ++
    part .name qualified ++ gap ++ literal "(" ++ part .body (run (fun _ => true) .shortest) ++
    literal ")" ++
    maybe (gap ++ keyword "INHERITS" ++ gap ++ literal "(" ++ run (· != ')') .longest ++ literal ")") ++
    gap ++ literal ";"

/-- A name and a type on one line, which a default and `NOT NULL` may follow. The type ends
where the first of these starts. -/
def columnDefinition : SqlPattern :=
  alt (within '"' (part .quotedName (unquotedRun '"')))
      (part .name (run1 isWordChar .longest)) ++ blanks ++
    part .type (run1 (· != '\n') .shortest) ++
    maybe (blanks ++ keyword "DEFAULT" ++ blanks ++ part .default (run1 (· != '\n') .shortest)) ++
    maybe (blanks ++ part .notNull (phrase ["NOT", "NULL"])) ++ gap ++ textEnd

/-- The start of a statement that adds something to a table. -/
def alterTable : SqlPattern :=
  phrase ["ALTER", "TABLE"] ++ blanks ++ maybe (phrase ["IF", "EXISTS"] ++ blanks) ++
    maybe (keyword "ONLY" ++ blanks) ++ part .table qualified ++ blanks ++ keyword "ADD" ++ blanks

def alterPrimaryKey : SqlPattern :=
  alterTable ++ part .constraint (constraintName ++ phrase ["PRIMARY", "KEY"] ++ gap ++
    literal "(" ++ run (· != ';') .shortest ++ literal ")")

def alterForeignKey : SqlPattern :=
  alterTable ++ part .constraint (constraintName ++ phrase ["FOREIGN", "KEY"] ++ gap ++
    literal "(" ++ run (noneOf [';', ')']) .longest ++ literal ")" ++ gap ++
    keyword "REFERENCES" ++ blanks ++ qualified ++ gap ++
    literal "(" ++ run (noneOf [';', ')']) .longest ++ literal ")")

/-- The column that a fragment defines. -/
def parseColumn? (fragment : Text) : Option Column := do
  let o ← columnDefinition.opening? fragment
  let name ← o.part? .quotedName <|> o.part? .name
  let name := String.ofList name
  let (type, default, markers) := Markers.ofColumn (o.part .type).trim (o.part? .default)
  some {
    name
    declaredType := .ofList type
    isPrimaryKey := markers.primaryKey
    isNullable := (o.part? .notNull).isNone && !markers.notNull
    defaultValue := (default.filter (!·.isEmpty)).map fun raw =>
      .ofList (DefaultValue.clean Dialect.postgresql.hasCastSuffix raw)
    foreignKey := markers.foreignKey? .postgresql name }

/-- A table from its body: all columns first, then the constraints in their order. -/
def parseTable (name : String) (body : Text) : TableDraft :=
  let (constraints, columns) := (splitDefinitions body).partition (opensConstraint .postgresql)
  let table := (columns.filterMap parseColumn?).foldl TableDraft.pushColumn (.empty name)
  (constraints.filterMap (Constraint.parse? .postgresql)).foldl TableDraft.apply table

/-- The constraints that statements of one form add, each with the table it is added to. -/
def alterations (statement : SqlPattern) (sql : Text) : List (String × Constraint) :=
  (statement.occurrences sql).filterMap fun o =>
    (Constraint.parse? .postgresql (o.part .constraint)).map
      (Dialect.postgresql.normalizeName (o.part .table), ·)

/-- The tables of a dump. Statements that alter tables take effect once all tables are known,
primary keys before foreign keys. -/
def parse (sql : Text) : Schema :=
  let tables := (tableBlock.occurrences sql).foldl
    (fun draft o => draft.addTable
      (parseTable (Dialect.postgresql.normalizeName (o.part .name)) (o.part .body)))
    SchemaDraft.empty
  (alterations alterPrimaryKey sql ++ alterations alterForeignKey sql).foldl
    (fun draft (table, constraint) => draft.applyDeferred table constraint) tables |>.build

end SchemaDump.PostgreSQL
