import SchemaDump.Files.Tree
import SchemaDump.Json.Reader
import SchemaDump.Main
import SchemaDump.Proofs.Command.Run
import SchemaDump.Proofs.MySQL.Detection
import SchemaDump.Proofs.MySQL.ExpressionDefault
import SchemaDump.Proofs.MySQL.OptionTable
import SchemaDump.Proofs.MySQL.RemarkedTable
import SchemaDump.Proofs.PostgreSQL.ClauseOrder
import SchemaDump.Proofs.PostgreSQL.OpaqueText
import SchemaDump.Proofs.PostgreSQL.KeyPlacement
import SchemaDump.Proofs.PostgreSQL.KeyResolution
import SchemaDump.Proofs.PostgreSQL.NamedMark
import SchemaDump.Proofs.Schema.Application
import SchemaDump.Proofs.Dump.KeyedColumn
import SchemaDump.Proofs.Dump.LineBreak
import SchemaDump.Proofs.Dump.Literals
import SchemaDump.Proofs.Dump.Comments
import SchemaDump.Proofs.Dump.ExplicitNull
import SchemaDump.Proofs.Dump.ReferentialActions
import SchemaDump.Proofs.PostgreSQL.RunOn
import SchemaDump.Proofs.PostgreSQL.WordColumn
import SchemaDump.Proofs.PostgreSQL.SpelledDump
import SchemaDump.Proofs.Schema.JsonForm
import SchemaDump.Proofs.Schema.Navigation
import SchemaDump.Proofs.Dialect.Detection
import SchemaDump.Proofs.Dialect.Surroundings
import SchemaDump.Proofs.Dump.WellFormed
import SchemaDump.Proofs.Definition.BlindMarker
import SchemaDump.Proofs.Definition.Layout
import SchemaDump.Proofs.Dump.WrittenKey
