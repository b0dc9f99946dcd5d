import SchemaDump.Dialect.Detect
import SchemaDump.Dump.MySQL
import SchemaDump.Dump.PostgreSQL
/- The schema of a dump. Definitions that cannot be read are left out of it. -/
namespace SchemaDump

/-- The schema of a dump whose dialect is known. -/
def Dialect.extract (d : Dialect) (sql : Text) : Schema :=
  match d with
  | .mysql => MySQL.parse sql
  | .postgresql => PostgreSQL.parse sql

/-- The schema of a dump in the dialect it is written in; empty if that is not recognised. -/
def Schema.ofDump (sql : Text) : Schema :=
  match Dialect.detect sql with
  | some d => d.extract sql
  | none => .empty

end SchemaDump
