import SchemaDump.Dump.Extract
import SchemaDump.Proofs.PostgreSQL.ClauseTable
import SchemaDump.Proofs.PostgreSQL.LiteralChange
/- Columns with actions behind their references in a dump. The column of a line depends on no action, so nothing in
the dump does. -/
namespace SchemaDump.PostgreSQL
open SqlPattern Pattern

namespace ClauseLine

variable {c : ClauseLine} {actions : List ReferentialAction}

/-- A line defines its column and opens no constraint, whatever actions stand behind its reference. -/
theorem Readable.definesColumn_actedText (h : c.Readable) (hacted : c.ReadableWith actions)
    (hopens : opensConstraint .postgresql c.head = false) :
    DefinesColumn .postgresql parseColumn? (c.actedText actions) c.column := by
  constructor
  · rw [c.trim_actedText, c.opensConstraint_actedText actions hopens]
  · rw [c.trim_actedText, c.parseColumn?_actedText h hacted]

theorem Readable.definesColumn (h : c.Readable) (hopens : opensConstraint .postgresql c.head = false) :
    DefinesColumn .postgresql parseColumn? c.text c.column :=
  c.actedText_nil ▸ h.definesColumn_actedText h.readableWith_nil hopens

end ClauseLine

theorem DumpContext.parse_congr (d : DumpContext) {line other : Text} {column : Column} (h : IsDefinition line)
    (hother : IsDefinition other) (hdefines : DefinesColumn .postgresql parseColumn? line column)
    (hsame : DefinesColumn .postgresql parseColumn? other column) :
    parse (d.fill h).text = parse (d.fill hother).text := by
  have htable : tableOf (d.table.fill h).parts = tableOf (d.table.fill hother).parts := by
    rw [TableContext.tableOf_fill, TableContext.tableOf_fill, definedTable_congr hsame hdefines]
  have htables : (parse (d.fill h).text).tables = (parse (d.fill hother).text).tables := by
    rw [parse_tables, parse_tables, found_tables, found_tables, d.allAlterations_fill hother h, htable]
  exact congrArg Schema.mk htables

end SchemaDump.PostgreSQL
