import SchemaDump.Dump.Extract
import SchemaDump.Proofs.MySQL.LiteralChange
/- Columns with any options in a dump. The text around the line is any dump; the options say the same in every
order, and no literal says anything but the argument, the default or the comment that it is. -/
namespace SchemaDump.MySQL

/-- In a table without constraints a line stands for its column, whatever its literals say and in whatever order its
options stand. -/
theorem DumpContext.extract_optionLine (d : DumpContext) (c : OptionLine) (hfits : c.Fits) (hread : c.Readable)
    (hkeys : definedConstraints .mysql (d.table.body.definitionsAbove ++ d.table.body.definitionsBelow) = []) :
    Dialect.mysql.extract (d.fill hfits.isDefinition).text =
      ⟨definedTables d.front ++
        ⟨d.table.name.string, definedColumns .mysql parseColumn? d.table.body.definitionsAbove ++
          c.column :: definedColumns .mysql parseColumn? d.table.body.definitionsBelow⟩ :: definedTables d.back⟩ := by
  have hconstraints : definedConstraints .mysql d.table.body.definitionsAbove ++
      definedConstraints .mysql d.table.body.definitionsBelow = [] := by
    rw [← hkeys]
    simp only [definedConstraints, List.map_append, List.filter_append, List.filterMap_append]
  have htable : tableOf (d.table.fill hfits.isDefinition).parts =
      ⟨d.table.name.string, definedColumns .mysql parseColumn? d.table.body.definitionsAbove ++
        c.column :: definedColumns .mysql parseColumn? d.table.body.definitionsBelow⟩ := by
    rw [TableContext.tableOf_fill, definedTable_split _ _ _ hread.definesColumn, hconstraints,
      Table.ofDefinition_nil, d.table.name.normalize_eq]
  exact (d.parse_fill hfits.isDefinition).trans (by rw [htable])

/-- A dump with a table of shirts, and a column of it. -/
def shirtDump : DumpContext where
  front := []
  filler := ⟨"-- Shirts\n".toList, by decide, by decide⟩
  table :=
    { temporary := false
      ifNotExists := true
      name := ⟨"shirts".toList, by decide, by decide, by decide, by decide⟩
      body :=
        { above := []
          comments := [⟨"  ".toList, by decide, " From S to L".toList, by decide⟩]
          margin := ⟨"  ".toList, by decide⟩
          below := []
          lastComments := []
          lastMargin := ⟨[], blank_nil⟩ }
      definitions := nofun
      comments := by decide
      options := " DEFAULT CHARSET=utf8".toList
      optionsPlain := by decide }
  back := []
  trailer := ⟨"\n".toList, by decide, by decide⟩

@[inherit_doc shirtDump]
def sizeLine : OptionLine where
  name := ⟨"the size".toList, by decide, by decide⟩
  type :=
    { word := "enum".toList
      wordNonempty := by decide
      wordChars := by decide
      arguments := some (.literals false ⟨"S, (NOT NULL".toList, by decide⟩ [⟨"x COMMENT ".toList, by decide⟩])
      modifiers := [] }
  options :=
    [.comment ⟨"DEFAULT COMMENT ".toList, by decide⟩,
      .primaryKey,
      .default (.literal ⟨"PRIMARY KEY) COMMENT ".toList, by decide⟩),
      .notNull]
  distinct := by decide

theorem extract_shirtDump :
    (∃ h : sizeLine.Fits, sizeLine.Readable ∧ sizeLine.text = ("`the size` enum('S, (NOT NULL','x COMMENT ')" ++
        " COMMENT 'DEFAULT COMMENT ' PRIMARY KEY DEFAULT 'PRIMARY KEY) COMMENT ' NOT NULL").toList ∧
      Dialect.mysql.extract (shirtDump.fill h.isDefinition).text =
        ⟨[⟨"shirts", [
          { name := "the size"
            declaredType := "enum('S, (NOT NULL','x COMMENT ')"
            isPrimaryKey := true
            isNullable := false
            defaultValue := some "PRIMARY KEY) COMMENT "
            foreignKey := none }]⟩]⟩) := by
  have hfits : sizeLine.Fits := ⟨by decide, by decide⟩
  have hread : sizeLine.Readable := ⟨by decide, by decide⟩
  refine ⟨hfits, hread, by cbv, ?_⟩
  rw [shirtDump.extract_optionLine sizeLine hfits hread (by decide)]
  decide

end SchemaDump.MySQL
