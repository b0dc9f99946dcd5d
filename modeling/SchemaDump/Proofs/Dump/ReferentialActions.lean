import SchemaDump.Proofs.MySQL.AttributeTable
import SchemaDump.Proofs.PostgreSQL.ActedTable
/- What a reference says to happen to a row. The words for it are words of other clauses too, so a column depends on
them as soon as one of them is taken for its default. -/
namespace SchemaDump

def Dialect.parseColumn? : Dialect → Text → Option Column
  | .postgresql => PostgreSQL.parseColumn?
  | .mysql => MySQL.parseColumn?

/-- A column line in its place in a dump of a dialect, with actions behind its reference. -/
inductive ActedLine : Dialect → Type
  | postgresql (dump : PostgreSQL.DumpContext) (line : PostgreSQL.ClauseLine) (actions : List ReferentialAction)
      (acted : PostgreSQL.IsDefinition (line.actedText actions)) (bare : PostgreSQL.IsDefinition line.text) :
      ActedLine .postgresql
  | mysql (dump : MySQL.DumpContext) (line : MySQL.AttributeLine) (fits : line.Fits) : ActedLine .mysql

namespace ActedLine

def line : {d : Dialect} → ActedLine d → Text
  | _, postgresql _ line actions _ _ => line.actedText actions
  | _, mysql _ line _ => line.text

def bareLine : {d : Dialect} → ActedLine d → Text
  | _, postgresql _ line _ _ _ => line.text
  | _, mysql _ line _ => line.withoutActions.text

def text : {d : Dialect} → ActedLine d → Text
  | _, postgresql dump _ _ acted _ => (dump.fill acted).text
  | _, mysql dump _ fits => (dump.fill fits.isDefinition).text

/-- The dump with the line without the actions. -/
def bareText : {d : Dialect} → ActedLine d → Text
  | _, postgresql dump _ _ _ bare => (dump.fill bare).text
  | _, mysql dump _ fits => (dump.fill fits.withoutActions.isDefinition).text

/-- The column that the clauses of the line make up. No action has a part in it. -/
def column : {d : Dialect} → ActedLine d → Column
  | _, postgresql _ line _ _ _ => line.column
  | _, mysql _ line _ => line.column

/-- A line of which every clause is read as what it is. In front of the default no word of another clause, be it of an
action, is taken for it. -/
def Readable : {d : Dialect} → ActedLine d → Prop
  | _, postgresql _ line actions _ _ =>
      opensConstraint .postgresql line.head = false ∧ line.Readable ∧ line.ReadableWith actions
  | _, mysql _ line _ => line.Readable

variable {d : Dialect} (p : ActedLine d)

theorem definesColumn (h : p.Readable) : DefinesColumn d d.parseColumn? p.line p.column ∧
    DefinesColumn d d.parseColumn? p.bareLine p.column := by
  cases p with
  | postgresql _ line =>
      obtain ⟨hopens, hbare, hacted⟩ := h
      exact ⟨hbare.definesColumn_actedText hacted hopens, hbare.definesColumn hopens⟩
  | mysql _ line =>
      have hbare := (MySQL.AttributeLine.Readable.withoutActions h).definesColumn
      rw [line.column_withoutActions] at hbare
      exact ⟨MySQL.AttributeLine.Readable.definesColumn h, hbare⟩

/-- The actions behind a reference change nothing: its line defines the same column without them, and the dump has the
same schema. -/
theorem extract_ignores_actions (h : p.Readable) : DefinesColumn d d.parseColumn? p.line p.column ∧
    DefinesColumn d d.parseColumn? p.bareLine p.column ∧ d.extract p.text = d.extract p.bareText := by
  obtain ⟨hacted, hbare⟩ := p.definesColumn h
  refine ⟨hacted, hbare, ?_⟩
  cases p with
  | postgresql dump _ _ isActed isBare => exact dump.parse_congr isActed isBare hacted hbare
  | mysql dump _ fits => exact dump.parse_congr fits.isDefinition fits.withoutActions.isDefinition hacted hbare

end ActedLine

open PostgreSQL in
/-- A column of a table of purchases, with actions behind its reference. The default stands in front of them. -/
def customerLine : ActedLine .postgresql :=
  .postgresql
    { front := []
      filler := ⟨"-- Purchases\n\n".toList, by decide +kernel, by decide +kernel, by decide⟩
      table :=
        { kind := .permanent
          ifNotExists := false
          target := ⟨true, .bare ⟨"purchases".toList, by decide, by decide⟩⟩
          body := ⟨[], [], ⟨"\n\t".toList, by decide⟩, [], [], ⟨['\n'], by decide⟩⟩
          definitions := by decide
          comments := by decide }
      back := []
      trailer := ⟨"\n-- Purchases\n".toList, by decide +kernel, by decide +kernel, by decide⟩ }
    { name := .bare ⟨"customer".toList, by decide, by decide⟩
      oneLine := by decide
      type := ⟨"integer".toList, by decide, by decide, by decide, by decide, rfl, by decide⟩
      clauses :=
        [.default ⟨.word ⟨['1'], by decide, by decide⟩ (by decide), []⟩,
          .references
            { target := ⟨none, .bare "customers".toList (by decide) (by decide)⟩
              oneLine := by decide
              spaced := false
              first := .rowId
              more := []
              actions := [] },
          .notNull]
      distinct := by decide }
    [⟨.delete, .setDefault⟩, ⟨.update, .setNull⟩] (by decide +kernel) (by decide +kernel)

open MySQL in
@[inherit_doc customerLine]
def quotedCustomerLine : ActedLine .mysql :=
  .mysql orderDump
    { name := .bare ⟨"customer".toList, by decide, by decide⟩ (by decide)
      type := ⟨['i', 'n', 't'], by decide, by decide, none, []⟩
      attributes :=
        [.default (.literal .double ['1'] (.of_forall (by decide)) (by decide)),
          .null,
          .references
            { placedReference with
              table := .quoted ⟨"customers".toList, by decide, by decide⟩
              actions := [⟨.delete, .setDefault⟩, ⟨.update, .setNull⟩] },
          .option .notNull]
      distinct := by decide }
    (by decide +kernel)

theorem extract_customerLine :
    (customerLine.line = ("customer integer DEFAULT 1 REFERENCES customers(id)" ++
        " ON DELETE SET DEFAULT ON UPDATE SET NULL NOT NULL").toList ∧
      customerLine.bareLine = "customer integer DEFAULT 1 REFERENCES customers(id) NOT NULL".toList ∧
      customerLine.column =
        { name := "customer"
          declaredType := "integer"
          isNullable := false
          defaultValue := some "1"
          foreignKey := some ⟨"customer", "customers", "id"⟩ } ∧
      Dialect.postgresql.extract customerLine.text = Dialect.postgresql.extract customerLine.bareText) ∧
    (quotedCustomerLine.line = ("customer int DEFAULT \"1\" NULL REFERENCES \x60customers\x60 (\x60id\x60)" ++
        " ON DELETE SET DEFAULT ON UPDATE SET NULL NOT NULL").toList ∧
      quotedCustomerLine.column =
        { name := "customer"
          declaredType := "int"
          isNullable := false
          defaultValue := some "1"
          foreignKey := some ⟨"customer", "customers", "id"⟩ } ∧
      Dialect.mysql.extract quotedCustomerLine.text = Dialect.mysql.extract quotedCustomerLine.bareText) := by
  have hread : customerLine.Readable := ⟨by decide +kernel, ⟨by decide +kernel, by decide +kernel, by decide +kernel⟩,
    ⟨by decide +kernel, by decide +kernel, by decide +kernel⟩⟩
  have hquoted : quotedCustomerLine.Readable := ⟨by decide, by decide +kernel, by decide +kernel, by decide +kernel⟩
  exact ⟨⟨by decide +kernel, by decide +kernel, by decide +kernel, (customerLine.extract_ignores_actions hread).2.2⟩,
    by decide +kernel, by decide +kernel, (quotedCustomerLine.extract_ignores_actions hquoted).2.2⟩

/-- Actions that matter: with another clause behind it, `SET DEFAULT` is taken for a default. -/
example :
    MySQL.parse ("CREATE TABLE \x60t\x60 (\n" ++
        "  \x60a\x60 int REFERENCES \x60u\x60 (\x60c\x60) ON DELETE SET DEFAULT NOT NULL\n) ENGINE=InnoDB;").toList =
        ⟨[⟨"t", [
          { name := "a"
            declaredType := "int"
            defaultValue := some "NOT"
            foreignKey := some ⟨"a", "u", "c"⟩ }]⟩]⟩ ∧
      PostgreSQL.parse ("CREATE TABLE t (\n" ++
        "    a integer REFERENCES u(c) ON DELETE SET DEFAULT ON UPDATE CASCADE\n);").toList =
        ⟨[⟨"t", [
          { name := "a"
            declaredType := "integer ON DELETE SET"
            defaultValue := some "ON UPDATE CASCADE"
            foreignKey := some ⟨"a", "u", "c"⟩ }]⟩]⟩ := by
  decide +kernel

end SchemaDump
