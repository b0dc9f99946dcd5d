import SchemaDump.Proofs.MySQL.LiteralChange
import SchemaDump.Proofs.PostgreSQL.LiteralChange
/- The contents of quoted literals. Dumps are searched for statements as they stand, literals included, so a
literal matters as soon as a statement or a body ends in it. -/
namespace SchemaDump

/-- A literal in a dump of either dialect is exchanged for another one: the default that it stands for is all
that changes, and a comment on a column or a table changes nothing. -/
theorem parse_withLiteral (d : PostgreSQL.DumpContext) (c : PostgreSQL.LiteralLine) (l m : PostgreSQL.InertContent)
    (e : MySQL.DumpContext) (default : MySQL.DefaultPlace) (x y : default.Filling) (comment : MySQL.CommentPlace)
    (v w : MySQL.InertContent) (options : MySQL.OptionContext) (p q : options.Filling) :
    PostgreSQL.parse (d.fill (c.isDefinition m)).text =
        (PostgreSQL.parse (d.fill (c.isDefinition l)).text).withDefault d.position d.table.column (.ofList m.text) ∧
      MySQL.parse (e.fill (default.isDefinition y)).text =
        (MySQL.parse (e.fill (default.isDefinition x)).text).withDefault e.position e.table.column (.ofList y.text) ∧
      MySQL.parse (e.fill (comment.isDefinition w)).text = MySQL.parse (e.fill (comment.isDefinition v)).text ∧
      MySQL.parse (options.fill q).text = MySQL.parse (options.fill p).text :=
  ⟨d.parse_withDefault c l m, e.parse_withDefault default x y, e.parse_withComment comment v w,
    options.parse_withOption p q⟩

/-- Literals that matter: a semicolon loses the table, and what looks like the end of a body ends it. -/
example :
    MySQL.parse "CREATE TABLE `t` (\n  `a` int COMMENT 'first; second'\n) ENGINE=InnoDB;".toList = ⟨[]⟩ ∧
      PostgreSQL.parse "CREATE TABLE t (\n    a text DEFAULT 'x); y',\n    b integer\n);".toList =
        ⟨[⟨"t", [{ name := "a", declaredType := "text", defaultValue := some "'x" }]⟩]⟩ := by
  decide +kernel

end SchemaDump
