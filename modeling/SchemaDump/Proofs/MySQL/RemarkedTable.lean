import SchemaDump.Dump.Extract
import SchemaDump.Proofs.Definition.Chain
import SchemaDump.Proofs.MySQL.LiteralChange
/- Tables with remarks behind the commas of their lines. A chain of lines is read as one column: that of its first
line, which takes from the rest of the chain whatever default and marks are found there. -/
namespace SchemaDump.MySQL
open SqlPattern Pattern Body

variable {before : Option Char} {v w : Text}

/-- A line that a table holds as its column and that is read as this column. -/
structure FittingLine extends AttributeLine where
  fits : toAttributeLine.Fits
  readable : toAttributeLine.Readable

namespace FittingLine

variable (c : FittingLine)

def text : Text := c.toAttributeLine.text

theorem isDefinition : IsDefinition c.text := c.fits.isDefinition

theorem isLine : IsLine c.text ∧ EndsSolid c.text := ⟨c.isDefinition.toIsLine, c.isDefinition.endsSolid⟩

end FittingLine

/-- What stands on the lines of a chain behind the first definition, without the blanks at the end. -/
def trailOf (c : Chain FittingLine) : Text := c.rest.trimEnd

def columnOf (c : Chain FittingLine) : Column := c.first.definition.columnBefore (trailOf c)

section Lines

variable (last : Placed FittingLine) {lines : List (Placed FittingLine × Remark)}

theorem isTrail_rest (lines : List (Placed FittingLine × Remark)) :
    ∀ c ∈ chains FittingLine.text last lines, IsTrail c.rest := by
  induction lines with
  | nil => exact fun c hc => List.mem_singleton.mp hc ▸ isTrail_nil
  | cons l lines ih =>
      obtain ⟨p, r⟩ := l
      have hcomma : ∀ t : Text, IsTrail (',' :: t) := fun t d hd => (Option.some.inj hd).symm
      rw [chains]
      split
      · refine List.forall_mem_cons.mpr ⟨?_, ih⟩
        cases r.text with
        | nil => exact isTrail_nil
        | cons d t => exact hcomma _
      · cases hchains : chains FittingLine.text last lines with
        | nil => exact fun c hc => absurd hc List.not_mem_nil
        | cons c cs =>
            rw [hchains] at ih
            exact List.forall_mem_cons.mpr ⟨hcomma _, fun d hd => ih d (List.mem_cons_of_mem c hd)⟩

theorem isTrail_trailOf {c : Chain FittingLine} (hc : c ∈ chains FittingLine.text last lines) :
    IsTrail (trailOf c) := by
  intro d hd
  refine isTrail_rest last lines c hc d ?_
  obtain ⟨b, hb⟩ := trimEnd_prefix c.rest
  rw [← hb, List.head?_append]
  exact Option.mem_def.mpr (by rw [show c.rest.trimEnd.head? = some d from hd]; rfl)

theorem continues_placed (p : Placed FittingLine) (hw : Continues Ahead w) :
    Continues Ahead ('\n' :: (p.text FittingLine.text ++ w)) := by
  rw [Placed.text, List.append_assoc]
  exact .lineBreak (fun c hc => (p.blank c hc).1) (p.definition.isDefinition.ahead hw)

theorem continues_linesText (lines : List (Placed FittingLine × Remark)) (hw : Continues Ahead w) :
    Continues Ahead ('\n' :: (linesText FittingLine.text last lines ++ w)) := by
  cases lines with
  | nil => exact continues_placed last hw
  | cons l lines =>
      have htext : linesText FittingLine.text last (l :: lines) ++ w = l.1.text FittingLine.text ++
          ',' :: (l.2.text ++ '\n' :: (linesText FittingLine.text last lines ++ w)) := by simp [linesText]
      rw [htext]
      exact continues_placed l.1 (.comma _)

theorem silent_placed (p : Placed FittingLine) (hw : Continues Ahead w) :
    bodyEnd.Silent before (p.text FittingLine.text) w := by
  have hindent : ')' ∉ p.indent := fun hmem => absurd (p.blank _ hmem).1 (by decide)
  exact (silent_of_no_paren hindent).append (p.definition.isDefinition.toInert.silent_bodyEnd hw)

theorem silent_linesText (hinert : ∀ l ∈ lines, Inert l.2.text) (hw : Continues Ahead w) :
    bodyEnd.Silent before (linesText FittingLine.text last lines) w := by
  induction lines generalizing before with
  | nil => exact silent_placed last hw
  | cons l lines ih =>
      obtain ⟨hremark, hlines⟩ := List.forall_mem_cons.mp hinert
      have hplain : ∀ {c : Char} {before u}, c ≠ ')' → bodyEnd.Silent before [c] u := fun hc =>
        silent_of_no_paren fun hmem => hc (List.mem_singleton.mp hmem).symm
      have hbehind : ∀ before, bodyEnd.Silent before (l.2.text ++ '\n' :: linesText FittingLine.text last lines) w :=
        fun before => (hremark.silent_bodyEnd (continues_linesText last lines hw)).append
          (Silent.append (hplain (by decide)) (ih hlines))
      exact (silent_placed l.1 (.comma _)).append (Silent.append (hplain (by decide)) (hbehind _))

theorem no_semicolon_linesText (hinert : ∀ l ∈ lines, Inert l.2.text) :
    ';' ∉ linesText FittingLine.text last lines := by
  have hplaced : ∀ p : Placed FittingLine, ';' ∉ p.text FittingLine.text := fun p hmem =>
    (List.mem_append.mp hmem).elim (fun hindent => absurd (p.blank _ hindent).1 (by decide))
      p.definition.isDefinition.noSemicolon
  induction lines with
  | nil => exact hplaced last
  | cons l lines ih =>
      obtain ⟨hremark, hlines⟩ := List.forall_mem_cons.mp hinert
      simp only [linesText, List.mem_append, List.mem_cons, not_or]
      exact ⟨hplaced l.1, by decide, hremark.noSemicolon, by decide, ih hlines⟩

end Lines

/-- A table with one definition on each line, and remarks behind the commas of the lines. -/
structure RemarkedTable where
  temporary : Bool
  ifNotExists : Bool
  name : Name
  lines : List (Placed FittingLine × Remark)
  last : Placed FittingLine
  margin : Margin
  inert : ∀ l ∈ lines, Inert l.2.text
  shuts : ∀ c ∈ chains FittingLine.text last lines, ∀ a ∈ c.first.definition.attributes, a.Shuts (trailOf c)
  options : Text
  optionsPlain : hasSpelling "CREATE" options = false

namespace RemarkedTable

variable (t : RemarkedTable)

def body : Text := '\n' :: (linesText FittingLine.text t.last t.lines ++ '\n' :: t.margin.text)

def text : Text := statementText t.temporary t.ifNotExists t.name t.body t.options

def chains : List (Chain FittingLine) := SchemaDump.chains FittingLine.text t.last t.lines

/-- The same table with one line only. -/
def only (p : Placed FittingLine) : RemarkedTable :=
  { t with
    lines := []
    last := p
    inert := fun l hl => nomatch hl
    shuts := fun c hc a _ l _ => .inr (by rw [List.mem_singleton.mp hc]; exact List.not_mem_nil) }

def parts : List (Part × Text) := [(Part.body, t.body), (Part.name, t.name.quoted)]

theorem silent_bodyEnd : bodyEnd.Silent before t.body (')' :: v) := by
  have hblanks : ∀ {u : Text} {before w}, (∀ c ∈ u, isBlank c) → bodyEnd.Silent before u w := fun hu =>
    silent_of_no_paren fun hmem => absurd (hu _ hmem) (by decide)
  have hmargin : ∀ c ∈ '\n' :: t.margin.text, isBlank c := List.forall_mem_cons.mpr ⟨by decide, t.margin.blank⟩
  have hend : Continues Ahead (('\n' :: t.margin.text) ++ ')' :: v) :=
    .lineBreak t.margin.blank (ahead_cons (by decide) (by decide) (by decide) v)
  have hlines : ∀ before, bodyEnd.Silent before (linesText FittingLine.text t.last t.lines)
      (('\n' :: t.margin.text) ++ ')' :: v) := fun _ => silent_linesText t.last t.inert hend
  exact (hblanks (u := ['\n']) (by decide)).append ((hlines _).append (hblanks hmargin))

theorem no_semicolon_body : ';' ∉ t.body := by
  have hmargin : ';' ∉ t.margin.text := fun hmem => absurd (t.margin.blank _ hmem) (by decide)
  simp only [body, List.mem_append, List.mem_cons, not_or]
  exact ⟨by decide, no_semicolon_linesText t.last t.inert, by decide, hmargin⟩

theorem foundAs_text : FoundAs t.text t.parts :=
  foundAs_statementText t.temporary t.ifNotExists t.name (List.cons_ne_nil _ _)
    (fun _ hc h => t.no_semicolon_body (h ▸ hc)) (fun _ _ => t.silent_bodyEnd) t.optionsPlain

theorem splitDefinitions_body : splitDefinitions t.body = t.chains.map (·.fragment FittingLine.text) := by
  rw [body, splitDefinitions_cons_blank (by decide),
    splitDefinitions_linesText FittingLine.isLine (splitDefinitions_blanks t.margin.blank)]
  rfl

theorem parseColumn?_fragment {c : Chain FittingLine} (hc : c ∈ t.chains) :
    parseColumn? (c.fragment FittingLine.text) = some (columnOf c) :=
  c.first.definition.parseColumn?_before c.first.definition.readable (isTrail_trailOf t.last hc) (t.shuts c hc)

theorem opensConstraint_fragment (c : Chain FittingLine) :
    opensConstraint .mysql (c.fragment FittingLine.text) = false := by
  rw [Chain.fragment, FittingLine.text, AttributeLine.text, List.append_assoc]
  exact opensConstraint_columnName _ _

theorem tableOf_parts : tableOf t.parts = ⟨t.name.string, t.chains.map columnOf⟩ := by
  have hopens : ∀ fragment ∈ t.chains.map (·.fragment FittingLine.text), opensConstraint .mysql fragment = false := by
    intro fragment hfragment
    obtain ⟨c, -, rfl⟩ := List.mem_map.mp hfragment
    exact opensConstraint_fragment c
  have hall : (t.chains.map (·.fragment FittingLine.text)).filter (fun fragment => !opensConstraint .mysql fragment) =
      t.chains.map (·.fragment FittingLine.text) :=
    List.filter_eq_self.mpr fun fragment hfragment => by rw [hopens fragment hfragment]; rfl
  have hnone : (t.chains.map (·.fragment FittingLine.text)).filter (opensConstraint .mysql) = [] :=
    List.filter_eq_nil_iff.mpr fun fragment hfragment => by rw [hopens fragment hfragment]; decide
  have hcolumns : bodyColumns t.body = t.chains.map columnOf := by
    rw [bodyColumns, t.splitDefinitions_body, hall, List.filterMap_map, ← List.filterMap_eq_map]
    exact List.filterMap_congr fun c hc => t.parseColumn?_fragment hc
  have hconstraints : bodyConstraints t.body = [] := by
    rw [bodyConstraints, t.splitDefinitions_body, hnone, List.filterMap_nil]
  rw [← Table.ofDefinition_nil, ← hcolumns, ← hconstraints, ← t.name.normalize_eq]
  rfl

end RemarkedTable

/-- A dump with remarks behind the commas in its tables. -/
structure RemarkedDump where
  statements : List (Filler × RemarkedTable)
  trailer : Filler

namespace RemarkedDump

variable (d : RemarkedDump)

def text : Text := d.statements.flatMap (fun s => s.1.text ++ s.2.text) ++ d.trailer.text

theorem tables_text : (parse d.text).tables = d.statements.map fun s => ⟨s.2.name.string, s.2.chains.map columnOf⟩ := by
  have hfound := congrArg (List.map tableOf)
    (found_statements RemarkedTable.foundAs_text d.statements d.trailer none)
  rw [List.map_map, List.map_map] at hfound
  rw [parse_tables, text]
  exact hfound.trans (List.map_congr_left fun s _ => s.2.tableOf_parts)

theorem parse_text : parse d.text = ⟨d.statements.map fun s => ⟨s.2.name.string, s.2.chains.map columnOf⟩⟩ := by
  have hparse : ∀ sql, parse sql = ⟨(parse sql).tables⟩ := fun _ => rfl
  rw [hparse, tables_text]

end RemarkedDump

namespace RemarkedTable

variable (t : RemarkedTable)

theorem extract_only (p : Placed FittingLine) :
    Dialect.mysql.extract (t.only p).text = ⟨[⟨t.name.string, [p.definition.column]⟩]⟩ := by
  have hparse := RemarkedDump.parse_text
    ⟨[(⟨[], by decide, by decide⟩, t.only p)], ⟨[], by decide, by decide⟩⟩
  have hcolumn : columnOf ⟨p, []⟩ = p.definition.column := p.definition.columnBefore_nil
  rw [RemarkedDump.text, List.flatMap_singleton, List.nil_append, List.append_nil] at hparse
  rw [← hcolumn]
  exact hparse

theorem columns_of_no_remark (h : ∀ l ∈ t.lines, l.2.text = []) :
    t.chains.map columnOf = (t.lines.map (·.1) ++ [t.last]).map (·.definition.column) := by
  have hcloses : ∀ l ∈ t.lines, l.2.closes = true := fun l hl => by
    rw [Remark.closes, h l hl]
    rfl
  have hchains : t.chains = (t.lines.map (·.1) ++ [t.last]).map (⟨·, []⟩) := by
    rw [chains, chains_of_closes hcloses, List.map_append, List.map_map, List.map_singleton]
    exact congrArg (· ++ [_]) (List.map_congr_left fun l hl => by rw [h l hl]; rfl)
  rw [hchains, List.map_map]
  exact List.map_congr_left fun p _ => p.definition.columnBefore_nil

end RemarkedTable

/-- Of each chain one column is extracted. It has the name and the type of the first line, and whatever default and
marks are found in the rest of the chain where this line, which alone gives its own column, has none. -/
theorem RemarkedDump.extract_chains (d : RemarkedDump) :
    Dialect.mysql.extract d.text = ⟨d.statements.map fun s => ⟨s.2.name.string, s.2.chains.map columnOf⟩⟩ ∧
      ∀ s ∈ d.statements,
        (∀ p, Dialect.mysql.extract (s.2.only p).text = ⟨[⟨s.2.name.string, [p.definition.column]⟩]⟩) ∧
        ((∀ l ∈ s.2.lines, l.2.text = []) →
          s.2.chains.map columnOf = (s.2.lines.map (·.1) ++ [s.2.last]).map (·.definition.column)) ∧
        ∀ c ∈ s.2.chains,
          (IsMute (trailOf c) → columnOf c = c.first.definition.column) ∧
          columnOf c =
            { c.first.definition.column with
              isPrimaryKey := c.first.definition.column.isPrimaryKey ||
                (c.first.definition.marksFound (trailOf c)).primaryKey
              isNullable := c.first.definition.column.isNullable &&
                !(c.first.definition.marksFound (trailOf c)).notNull
              defaultValue := c.first.definition.column.defaultValue.or
                ((c.first.definition.defaultFound (trailOf c)).map .ofList)
              foreignKey := c.first.definition.column.foreignKey.or
                ((c.first.definition.marksFound (trailOf c)).foreignKey? .mysql c.first.definition.column.name) } :=
  ⟨d.parse_text, fun s _ => ⟨s.2.extract_only, s.2.columns_of_no_remark, fun c _ =>
    ⟨c.first.definition.columnBefore_of_mute, c.first.definition.columnBefore_eq (trailOf c)⟩⟩⟩

/-- A line of the table of tickets, without attributes. -/
def bareLine (name : QuotedName) (h : Inert name.text) : Placed FittingLine where
  indent := "   ".toList
  blank := by decide
  definition :=
    { name := .quoted name
      type := ⟨"tinyint".toList, by decide, by decide, none, []⟩
      attributes := []
      distinct := List.nodup_nil
      fits := fun _ ht => List.mem_singleton.mp ht ▸ h
      readable := ⟨nofun, nofun, .nil, trivial⟩ }

/-- The line of the table of tickets that has attributes. -/
def totalLine : Placed FittingLine where
  indent := "   ".toList
  blank := by decide
  definition :=
    { name := .quoted ⟨"total".toList, by decide, by decide⟩
      type := ⟨"tinyint".toList, by decide, by decide, none, []⟩
      attributes := [.option .notNull, .option (.default (.bare ['5'] (by decide) (by decide)))]
      distinct := by decide
      fits := by decide
      readable := ⟨by decide, by decide, by decide, by decide⟩ }

/-- The table of tickets. Two of its lines have a remark behind their commas. -/
def remarkedTickets : RemarkedTable where
  temporary := false
  ifNotExists := false
  name := ⟨"tickets".toList, by decide, by decide, by decide, by decide⟩
  lines :=
    [(bareLine ⟨"state".toList, by decide, by decide⟩ (by decide), ⟨" -- see below".toList, by decide⟩),
      (totalLine, ⟨[], by decide⟩),
      (bareLine ⟨"place".toList, by decide, by decide⟩ (by decide), ⟨" -- or a code".toList, by decide⟩)]
  last := bareLine ⟨"item".toList, by decide, by decide⟩ (by decide)
  margin := ⟨[], blank_nil⟩
  inert := by decide
  shuts := by decide
  options := " CHARSET=latin1".toList
  optionsPlain := by decide

/-- The state of a ticket takes over the default of its total and is not nullable any more; its place, with nothing to
take over, is what it is alone. -/
theorem extract_remarkedTickets :
    ∃ dump : RemarkedDump, dump.statements.map (·.2) = [remarkedTickets] ∧
      dump.text = ("CREATE TABLE `tickets` (\n   `state` tinyint, -- see below\n" ++
        "   `total` tinyint NOT NULL DEFAULT 5,\n   `place` tinyint, -- or a code\n   `item` tinyint\n" ++
        ") ENGINE=InnoDB CHARSET=latin1;\n").toList ∧
      Dialect.mysql.extract dump.text =
        ⟨[⟨"tickets", [⟨"state", "tinyint", false, false, some "5", none⟩,
          ⟨"place", "tinyint", false, true, none, none⟩]⟩]⟩ ∧
      (∃ c ∈ remarkedTickets.chains, columnOf c = c.first.definition.column) ∧
      Dialect.mysql.extract (remarkedTickets.only (bareLine ⟨"state".toList, by decide, by decide⟩ (by decide))).text =
        ⟨[⟨"tickets", [⟨"state", "tinyint", false, true, none, none⟩]⟩]⟩ := by
  let dump : RemarkedDump := ⟨[(⟨[], by decide, by decide⟩, remarkedTickets)], ⟨['\n'], by decide, by decide⟩⟩
  obtain ⟨hall, htables⟩ := dump.extract_chains
  obtain ⟨hown, -, hchains⟩ := htables _ List.mem_cons_self
  have hplace := hchains _ (List.mem_cons_of_mem _ List.mem_cons_self)
  exact ⟨dump, rfl, by decide +kernel, hall.trans (by decide),
    ⟨_, List.mem_cons_of_mem _ List.mem_cons_self, hplace.1 (by decide)⟩, hown _⟩

end SchemaDump.MySQL
