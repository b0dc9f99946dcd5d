import SchemaDump.Proofs.Definition.BodyContext
import SchemaDump.Proofs.PostgreSQL.LiteralLine
/- A literal is exchanged for another one. The text around the line is any dump, comments in the bodies of
its tables included; all that changes is the default that the literal stands for. -/
namespace SchemaDump.PostgreSQL
open SqlPattern Pattern

/-- A column line up to the content of its default. -/
structure LiteralLine where
  name : Name
  nameFree : name.isOneOf columnExclusions = false
  nameRead : name.isOneOf ["EXCLUDEUSING", "TABLE"] = false
  namePlain : alterOpening.occursIn name.text = false
  type : ColumnType
  marks : List Mark
  distinct : (marks.map (·.kind)).Nodup
  casts : List Cast
  notNull : Bool

/-- What a default may hold. -/
structure InertContent extends Content where
  inert : toContent.Inert

namespace LiteralLine

variable (c : LiteralLine) (l : InertContent)

def line : FreeLine where
  name := c.name
  nameFree := c.nameFree
  type := c.type
  marks := c.marks
  distinct := c.distinct
  default := some ⟨l.toContent, c.casts⟩
  notNull := c.notNull
  settled h := nomatch h

theorem name_not_oneOf {word : String} (hword : word ∈ ["EXCLUDEUSING", "TABLE"]) :
    c.name.isOneOf [word] = false := by
  have hread := c.nameRead
  cases hname : c.name with
  | quoted => rfl
  | bare w =>
      rw [hname] at hread
      have hspells : spells sameLetter word.toList w.text = false := Word.spells_eq_false hread hword
      simp only [Name.isOneOf, Word.isOneOf, List.any_cons, hspells, List.any_nil, Bool.or_self]

theorem isDefinition : IsDefinition (c.line l).text :=
  FreeLine.isDefinition (c.name_not_oneOf (by decide)) c.namePlain fun _ hd => Option.some.inj hd ▸ l.inert

theorem definesColumn : DefinesColumn .postgresql parseColumn? (c.line l).text
    ((c.line l).definition.under (c.line l).constraints) := by
  have htrim := (c.line l).trimmed_text.trim_eq
  constructor
  · rw [htrim, opensConstraint_free]
    exact c.name_not_oneOf (by decide)
  · rw [htrim, FreeLine.parseColumn?_text]

end LiteralLine

/-- What stands in a table around one of its definitions. -/
structure TableContext where
  kind : TableKind
  ifNotExists : Bool
  target : Target
  body : BodyContext
  definitions : ∀ d ∈ body.definitionsAbove ++ body.definitionsBelow, IsDefinition d
  comments : ∀ c ∈ body.allComments, Inert c.text

namespace TableContext

variable (t : TableContext) {line : Text} (h : IsDefinition line)

def fill : CommentedTable where
  kind := t.kind
  ifNotExists := t.ifNotExists
  target := t.target
  body := t.body.fill line
  definitions := fun d hd => (t.body.mem_definitions_fill hd).elim (fun heq => heq ▸ h) (t.definitions d)
  comments := fun c hc => t.comments c (t.body.allComments_fill line ▸ hc)

/-- The position of the column that is defined in the place. -/
def column : Nat := (definedColumns .postgresql parseColumn? t.body.definitionsAbove).length

theorem tableOf_fill : tableOf (t.fill h).parts = definedTable .postgresql parseColumn?
    (Dialect.postgresql.normalizeName t.target.text)
    (t.body.definitionsAbove ++ line :: t.body.definitionsBelow) := by
  rw [CommentedTable.tableOf_parts, ← t.body.definitions_fill]
  rfl

/-- The table with one literal is the one with another literal up to a default. -/
theorem tableOf_withDefault (c : LiteralLine) (l m : InertContent) :
    tableOf (t.fill (c.isDefinition m)).parts =
      (tableOf (t.fill (c.isDefinition l)).parts).withDefault t.column (.ofList m.text) := by
  rw [tableOf_fill, tableOf_fill]
  exact definedTable_withDefault (c.definesColumn l) (c.definesColumn m)

end TableContext

/-- What stands in a dump around one definition in one of its tables. -/
structure DumpContext where
  front : List (Filler × CommentedStatement)
  filler : Filler
  table : TableContext
  back : List (Filler × CommentedStatement)
  trailer : Filler

namespace DumpContext

def definedTables (statements : List (Filler × CommentedStatement)) : List Table :=
  statements.filterMap fun s => s.2.tableParts.map tableOf

variable (d : DumpContext) {line : Text} (h : IsDefinition line)

def fill : CommentedDump where
  statements := d.front ++ (d.filler, .table (d.table.fill h)) :: d.back
  trailer := d.trailer

def position : Nat := (definedTables d.front).length

theorem found_tables : (tableBlock.found none (d.fill h).text).map (fun r => tableOf r.parts) =
    definedTables d.front ++ tableOf (d.table.fill h).parts :: definedTables d.back := by
  rw [CommentedDump.found_tables, fill, List.filterMap_append, List.filterMap_cons]
  rfl

theorem found_keys (kind : KeyKind) : (kind.statement.found none (d.fill h).text).map (·.parts) =
    (d.front ++ d.back).filterMap (·.2.keyParts kind) := by
  rw [CommentedDump.found_keys, fill, List.filterMap_append, List.filterMap_cons, List.filterMap_append]
  rfl

theorem allAlterations_fill {other : Text} (h' : IsDefinition other) :
    allAlterations (d.fill h').text = allAlterations (d.fill h).text := by
  rw [allAlterations, allAlterations, ← KeyKind.statement_primaryKey, ← KeyKind.statement_foreignKey]
  simp only [alterations_parts, found_keys]

/-- A default is exchanged for another one: its value is all that changes. -/
theorem parse_withDefault (c : LiteralLine) (l m : InertContent) :
    parse (d.fill (c.isDefinition m)).text =
      (parse (d.fill (c.isDefinition l)).text).withDefault d.position d.table.column (.ofList m.text) := by
  have hchange : ∀ t : Table, definedTables d.front ++
        t.withDefault d.table.column (.ofList m.text) :: definedTables d.back =
      (definedTables d.front ++ t :: definedTables d.back).modify d.position
        (·.withDefault d.table.column (.ofList m.text)) := fun t => (modify_length_append _ t _).symm
  have hparse : ∀ sql, parse sql = ⟨(parse sql).tables⟩ := fun _ => rfl
  rw [hparse, hparse (d.fill (c.isDefinition l)).text, parse_tables, parse_tables, found_tables, found_tables,
    d.allAlterations_fill (c.isDefinition l) (c.isDefinition m), d.table.tableOf_withDefault c l m, hchange,
    mapFirst_under_withDefault]
  rfl

end DumpContext

end SchemaDump.PostgreSQL
