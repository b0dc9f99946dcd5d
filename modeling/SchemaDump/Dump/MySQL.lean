import SchemaDump.Definition.Split
import SchemaDump.Definition.Constraint
import SchemaDump.Definition.Marker
import SchemaDump.Definition.DefaultValue
import SchemaDump.Schema.Draft
/- Dumps of MySQL. -/
namespace SchemaDump.MySQL
open SqlPattern Pattern

/-- An identifier of MySQL: in back quotes or a word. -/
def tableIdentifier : SqlPattern := alt (quotedIdentifier backQuote) (run1 isWordChar .longest)

/-- A table statement up to the mention of its storage engine. -/
def tableBlock : SqlPattern :=
  keyword "CREATE" ++ blanks ++ maybe (keyword "TEMPORARY" ++ blanks) ++ keyword "TABLE" ++ blanks ++
    maybe (phrase ["IF", "NOT", "EXISTS"] ++ blanks) ++
    part .name (tableIdentifier ++ maybe (literal "." ++ tableIdentifier)) ++ gap ++
    literal "(" ++ part .body (run1 (· != ';') .shortest) ++ literal ")" ++ gap ++
    keyword "ENGINE" ++ gap ++ literal "="

/-- A name, a type with its arguments and modifiers, and whatever options follow. -/
def columnDefinition : SqlPattern :=
  alt (within backQuote (part .quotedName (unquotedRun backQuote)))
      (part .name (run1 isWordChar .longest)) ++ blanks ++
    part .type (run1 isWordChar .longest ++
      maybe (gap ++ literal "(" ++ run (· != ')') .longest ++ literal ")") ++
      many (blanks ++ anyOf [keyword "unsigned", keyword "signed", keyword "zerofill"])) ++
    part .options (run (fun _ => true) .longest) ++ textEnd

/-- The inside of a quoted literal: an escaped character or a doubled quote does not end it. -/
def literalText (quote : Char) : SqlPattern :=
  many (anyOf [one (noneOf [quote, '\\']), one (· == '\\') ++ one (· != '\n'),
    one (· == quote) ++ one (· == quote)])

def defaultClause : SqlPattern :=
  wordEdge ++ keyword "DEFAULT" ++ blanks ++
    part .default (anyOf [within '\'' (literalText '\''), within '"' (literalText '"'),
      literal "(" ++ shallowText ++ literal ")",
      run1 (fun c => !(isBlank c || c == ',')) .longest])

def commentClause : SqlPattern :=
  blanks ++ keyword "COMMENT" ++ blanks ++ within '\'' (literalText '\'')

/-- The column that a fragment defines. Comments and the default are set aside before the
markers are read. -/
def parseColumn? (fragment : Text) : Option Column := do
  let o ← columnDefinition.opening? fragment
  let quoted ← o.part? .quotedName <|> o.part? .name
  let name := String.ofList (unquote quoted)
  let options := o.part .options
  let options := cut options ((commentClause.occurrences options).map (·.toSpan))
  let default := defaultClause.find? options
  let rest := match default with
    | some d => d.before ++ d.after
    | none => options
  let markers := (Markers.take true rest).2
  some {
    name
    declaredType := .ofList (o.part .type).trim
    isPrimaryKey := markers.primaryKey
    isNullable := !markers.notNull
    defaultValue := default.map fun d => .ofList (DefaultValue.clean Dialect.mysql.hasCastSuffix (d.part .default))
    foreignKey := markers.foreignKey? .mysql name }

/-- A table from its body: all columns first, then the constraints in their order. -/
def parseTable (name : String) (body : Text) : TableDraft :=
  let (constraints, columns) := (splitDefinitions body).partition (opensConstraint .mysql)
  let table := (columns.filterMap parseColumn?).foldl TableDraft.pushColumn (.empty name)
  (constraints.filterMap (Constraint.parse? .mysql)).foldl TableDraft.apply table

/-- The tables of a dump. -/
def parse (sql : Text) : Schema :=
  (tableBlock.occurrences sql).foldl
    (fun draft o => draft.addTable
      (parseTable (Dialect.mysql.normalizeName (o.part .name)) (o.part .body)))
    SchemaDraft.empty |>.build

end SchemaDump.MySQL
