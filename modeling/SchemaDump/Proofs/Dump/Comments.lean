import SchemaDump.Proofs.MySQL.CommentedTable
import SchemaDump.Proofs.PostgreSQL.CommentedTable
/- Comment lines in the bodies of tables, in the dumps of both dialects. Which comments are ignored is said
by `Inert`: the text of a comment takes part in the search for blocks and statements. -/
namespace SchemaDump

/-- Comment lines make no difference, however many there are and wherever in a body they stand. -/
theorem parse_ignores_comments (d : PostgreSQL.CommentedDump) (e : MySQL.CommentedDump) :
    PostgreSQL.parse d.text = PostgreSQL.parse d.withoutComments.text ∧
      MySQL.parse e.text = MySQL.parse e.withoutComments.text :=
  ⟨d.parse_withoutComments.symm, e.parse_withoutComments.symm⟩

/-- A comment that ends a body, and one that adds a key to the table. -/
example :
    (PostgreSQL.parse "CREATE TABLE t (\n    -- obsolete (see ticket);\n    a integer\n);".toList).tables.map
        (·.columns.length) = [0] ∧
      (PostgreSQL.parse
          "CREATE TABLE t (\n    -- ALTER TABLE t ADD PRIMARY KEY (a)\n    a integer\n);".toList).tables.map
        (·.columns.map (·.isPrimaryKey)) = [[true]] ∧
      (MySQL.parse
          "CREATE TABLE `t` (\n  -- price in cents; never null\n  `a` int\n) ENGINE=InnoDB;".toList).tables = [] := by
  decide +kernel

end SchemaDump
