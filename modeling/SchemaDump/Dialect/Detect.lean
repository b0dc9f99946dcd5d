import SchemaDump.Definition.Identifier
/- The dialect of a dump, told from what it writes. -/
namespace SchemaDump

namespace SqlPattern
open Pattern

def createTable : SqlPattern :=
  wordEdge ++ keyword "CREATE" ++ blanks ++
    maybe (anyOf [keyword "TEMPORARY", keyword "TEMP", keyword "UNLOGGED"] ++ blanks) ++
    keyword "TABLE" ++ wordEdge

/-- A storage engine, as MySQL names it behind each table. -/
def storageEngine : SqlPattern :=
  wordEdge ++ keyword "ENGINE" ++ gap ++ literal "=" ++ gap ++ one isWordChar

def ownerTo : SqlPattern := wordEdge ++ phrase ["OWNER", "TO"] ++ wordEdge

/-- A setting of the search path, as a statement or as a call. -/
def searchPath : SqlPattern :=
  alt (wordEdge ++ phrase ["SET", "search_path"] ++ wordEdge)
    (wordEdge ++ keyword "set_config" ++ gap ++ literal "(" ++ gap ++ keyword "'search_path'")

/-- A name qualified by the schema `public`, which is written in lower case. -/
def publicQualified : SqlPattern :=
  alt (wordEdge ++ literal "public") (literal "\"public\"") ++ literal "." ++
    maybe (literal "\"") ++ one isWordChar

end SqlPattern

/-- The dialect of a text, if it creates a table at all. Signs of MySQL are decisive. -/
def Dialect.detect (sql : Text) : Option Dialect :=
  if !SqlPattern.createTable.occursIn sql then none
  else if SqlPattern.storageEngine.occursIn sql then some .mysql
  else if SqlPattern.ownerTo.occursIn sql || SqlPattern.searchPath.occursIn sql ||
      SqlPattern.publicQualified.occursIn sql then some .postgresql
  else none

end SchemaDump
