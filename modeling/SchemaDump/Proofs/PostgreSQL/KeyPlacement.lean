import SchemaDump.Proofs.PostgreSQL.RoundTrip
/- The place where a key is declared. Dumps that define the same columns and declare the same keys are
read as the same schema, whether a key is marked on its column, stands in the body of its table or is
added by a statement in front of the table or behind it. -/
namespace SchemaDump.PostgreSQL
open SqlPattern Pattern

/-- No column of a dump has quotes around its name. -/
def Dump.ColumnsBare (d : Dump) : Prop := ∀ t ∈ d.tables, ∀ c ∈ t.columns, ∃ word, c.name = .bare word

/-- A table without the columns that are taken for exclusion constraints because of their names. -/
def withoutExclusions (t : Table) : Table :=
  { t with columns := t.columns.filter fun c => !spells sameLetter "EXCLUDEUSING".toList c.name.toList }

/-- Without quotes the names of the columns tell which of them are read. -/
theorem readDefinition_of_bare {t : TableStatement} (h : ∀ c ∈ t.columns, ∃ word, c.name = .bare word) :
    t.readDefinition = withoutExclusions t.definition := by
  have hopens : ∀ c ∈ t.columns, c.opensExclusion =
      spells sameLetter "EXCLUDEUSING".toList c.definition.name.toList := by
    intro c hc
    obtain ⟨word, hword⟩ := h c hc
    have hname : c.definition.name.toList = word.text := by
      rw [ColumnLine.definition, hword]
      exact String.toList_ofList
    rw [hname, ColumnLine.opensExclusion, hword]
    exact Bool.or_false _
  rw [TableStatement.readDefinition, TableStatement.readColumns, TableStatement.definition,
    withoutExclusions, List.filter_map]
  refine congrArg (fun columns => Table.mk _ (List.map _ columns)) (List.filter_congr fun c hc => ?_)
  rw [Function.comp_apply, hopens c hc]

theorem parse_text_of_bare {d : Dump} (h : d.ColumnsBare) :
    parse d.text =
      ⟨d.definitions.map fun t => (withoutExclusions t).under (SchemaDraft.alterationsOf d.keys)⟩ := by
  rw [parse_text, Dump.definitions, List.map_map]
  exact congrArg Schema.mk (List.map_congr_left fun t ht => by
    rw [Function.comp_apply, readDefinition_of_bare (h t ht)])

theorem eq_of_perm_of_length {α : Type} {l m : List α} (h : l.Perm m) (hl : l.length ≤ 1) : l = m := by
  match l, hl with
  | [], _ => exact (List.nil_perm.mp h).symm
  | [a], _ => exact List.singleton_perm.mp h

/-- It does not matter where keys are declared, as long as no column has two foreign keys. -/
theorem parse_text_eq_of_keys_perm (d e : Dump) (hd : d.ColumnsBare) (he : e.ColumnsBare)
    (hdefinitions : d.definitions = e.definitions) (hkeys : d.keys.Perm e.keys)
    (hunique : ∀ table column, (d.keys.filter (givesKeyTo table column)).length ≤ 1) :
    parse d.text = parse e.text := by
  have hfilter : ∀ table column,
      d.keys.filter (givesKeyTo table column) = e.keys.filter (givesKeyTo table column) :=
    fun table column => eq_of_perm_of_length (hkeys.filter _) (hunique table column)
  rw [parse_text_of_bare hd, parse_text_of_bare he, hdefinitions]
  exact congrArg Schema.mk (List.map_congr_left fun t _ =>
    SchemaDraft.under_alterationsOf_perm hkeys hfilter (withoutExclusions t))

/-- A table whose keys are marked on their columns, or without its foreign key. -/
def nodes (marked : Bool) : TableStatement :=
  let column (name : Word) (free : (Name.bare name).isOneOf columnExclusions = false) (mark : Mark)
      (hmark : mark.kind ≠ .notNull) : ColumnLine :=
    { name := .bare name
      nameFree := free
      type := ⟨(⟨.ofString "bigint" (by decide), by decide +kernel⟩, .none), []⟩
      marks := if marked then [mark] else []
      distinct := by cases marked <;> simp
      default := none
      notNull := false
      settled := by
        cases marked with
        | false => simp
        | true =>
            intro _ _ hlast
            exact hmark (congrArg Mark.kind (Option.some.inj hlast)) }
  { kind := .permanent
    ifNotExists := false
    target := ⟨marked, .bare (.ofString "nodes" (by decide))⟩
    columns :=
      [column (.ofString "node" (by decide)) (by decide +kernel) .primaryKey (by decide),
       column (.ofString "parent" (by decide)) (by decide +kernel)
         (.references false (.ofString "nodes" (by decide)) (.ofString "node" (by decide))) (by decide)]
    nonempty := by simp
    distinct := by cases marked <;> decide +kernel
    clauses := if marked then [] else
      [⟨none, .primaryKey false [.bare (.ofString "node" (by decide))] (by simp)⟩]
    first := .newLine 2
    indent := ⟨[' ', ' '], by decide⟩ }

def markedNodes : Dump := ⟨[(.nothing, .table (nodes true))], .nothing, by decide +kernel⟩

/-- The same keys, one of them in the body and the other in a statement in front of the table. -/
def declaredNodes : Dump :=
  ⟨[(.nothing, .alteration
      { ifExists := true
        only := false
        target := ⟨true, .bare (.ofString "nodes" (by decide))⟩
        space := ⟨" ".toList, by decide⟩
        spaceNonempty := by decide
        clause := ⟨some (.bare (.ofString "up" (by decide))),
          .foreignKey false [.bare (.ofString "parent" (by decide))] (by simp)
            ⟨true, .bare (.ofString "nodes" (by decide))⟩ false
            [.bare (.ofString "node" (by decide))] (by simp)
            ⟨" ON DELETE CASCADE".toList, by decide, by decide, by decide +kernel, by decide +kernel⟩⟩ }),
    (.nothing, .table (nodes false))], .nothing, by decide +kernel⟩

theorem bare_nodes (marked : Bool) : ∀ c ∈ (nodes marked).columns, ∃ word, c.name = .bare word := by
  intro c hc
  rcases List.mem_cons.mp hc with rfl | hc
  · exact ⟨_, rfl⟩
  · rw [List.mem_singleton.mp hc]
    exact ⟨_, rfl⟩

theorem parse_nodes : markedNodes.ColumnsBare ∧ declaredNodes.ColumnsBare ∧
    markedNodes.definitions = declaredNodes.definitions ∧ markedNodes.keys.Perm declaredNodes.keys ∧
    (∀ table column, (markedNodes.keys.filter (givesKeyTo table column)).length ≤ 1) ∧
    parse markedNodes.text = parse declaredNodes.text := by
  have hmarked : markedNodes.ColumnsBare := by
    intro t ht
    rw [List.mem_singleton.mp ht]
    exact bare_nodes true
  have hdeclared : declaredNodes.ColumnsBare := by
    intro t ht
    rw [List.mem_singleton.mp ht]
    exact bare_nodes false
  have hdefinitions : markedNodes.definitions = declaredNodes.definitions := by decide
  have hkeys : markedNodes.keys.Perm declaredNodes.keys := .of_eq (by decide)
  have hunique : ∀ table column,
      (markedNodes.keys.filter (givesKeyTo table column)).length ≤ 1 := by
    intro table column
    have hlist : markedNodes.keys = [("nodes", .primaryKey ["node"]),
        ("nodes", .foreignKey ⟨["parent"], "nodes", ["node"]⟩)] := by decide
    rw [hlist, List.filter_cons_of_neg Bool.false_ne_true]
    exact List.length_filter_le _ _
  exact ⟨hmarked, hdeclared, hdefinitions, hkeys, hunique,
    parse_text_eq_of_keys_perm _ _ hmarked hdeclared hdefinitions hkeys hunique⟩

end SchemaDump.PostgreSQL
