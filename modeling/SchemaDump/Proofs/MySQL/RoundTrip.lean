import SchemaDump.Dump.Extract
import SchemaDump.Proofs.MySQL.Statement
/- A dump gives back the schema it was written for: its dialect is told from the engines, every
statement is found, and nothing else is taken for one. -/
namespace SchemaDump.MySQL
open SqlPattern Pattern

variable {before : Option Char} {v : Text}

theorem parse_text (d : Dump) : parse d.text = d.schema := by
  have htables : (parse d.text).tables = d.statements.map (·.2.table) := by
    have hfound := congrArg (List.map tableOf) (found_statements foundAs_text d.statements d.trailer none)
    rw [List.map_map, List.map_map] at hfound
    rw [parse_tables, Dump.text]
    refine hfound.trans (List.map_congr_left ?_)
    intro s _
    exact tableOf_parts s.2
  rw [Dump.schema, ← htables]

theorem readings_wordEdge_of_start {c : Char} {t : Text}
    (hbefore : ∀ d ∈ before, isWordChar d = false) (hc : isWordChar c) :
    (wordEdge : SqlPattern).readings before (c :: t) = [⟨[], [], c :: t⟩] := by
  have hfalse : before.any isWordChar = false := by
    cases before with
    | none => rfl
    | some d => exact hbefore d rfl
  rw [readings, hfalse, if_pos]
  simp [hc]

theorem reads_creation (t : TableStatement) (v : Text) :
    (keyword "CREATE" ++ blanks ++ maybe (anyOf [keyword "TEMPORARY", keyword "TEMP",
      keyword "UNLOGGED"] ++ blanks) : SqlPattern).Reads
        ("CREATE".toList ++ ([' '] ++ TableStatement.temporaryText t.temporary)) ("TABLE".toList ++ v) [] := by
  have hblanks : ∀ w, (blanks : SqlPattern).Reads [' '] ("TABLE".toList ++ w) [] :=
    fun w => reads_blanks (stops_cons.mpr (by decide))
  have hkind : (maybe (anyOf [keyword "TEMPORARY", keyword "TEMP", keyword "UNLOGGED"] ++ blanks) :
      SqlPattern).Reads (TableStatement.temporaryText t.temporary) ("TABLE".toList ++ v) [] := by
    cases t.temporary with
    | true =>
        have hword : (anyOf [keyword "TEMPORARY", keyword "TEMP", keyword "UNLOGGED"] :
            SqlPattern).Reads "TEMPORARY".toList ([' '] ++ ("TABLE".toList ++ v)) [] :=
          (reads_keyword "TEMPORARY" _).preferred _
        exact Reads.maybe (Reads.seq hword (hblanks v))
    | false =>
        have hwords : (anyOf [keyword "TEMPORARY", keyword "TEMP", keyword "UNLOGGED"] :
            SqlPattern).Rejects ("TABLE".toList ++ v) :=
          .alt (.of_clash (by decide) v) (.alt (.of_clash (by decide) v) (.of_clash (by decide) v))
        exact reads_missing (hwords.seq _)
  have hfirst : (blanks : SqlPattern).Reads [' ']
      (TableStatement.temporaryText t.temporary ++ ("TABLE".toList ++ v)) [] := by
    apply reads_blanks
    cases t.temporary <;> exact stops_cons.mpr (by decide)
  rw [reads_assoc]
  exact (reads_keyword "CREATE" _).seq (hfirst.seq hkind)

theorem createTable_occurs (t : TableStatement) {u v : Text}
    (hu : ∀ c ∈ u.getLast?, isWordChar c = false) :
    createTable.occursIn (u ++ (t.text ++ v)) = true := by
  obtain ⟨w, hw⟩ : ∃ w, t.text ++ v = ("CREATE".toList ++ ([' '] ++
      TableStatement.temporaryText t.temporary)) ++ ("TABLE".toList ++ ' ' :: w) := by
    refine ⟨TableStatement.existsText t.ifNotExists ++ ((t.name.quoted ++ " (".toList) ++ (t.body ++
      (") ENGINE=".toList ++ ("InnoDB".toList ++ (t.options ++ [';']))))) ++ v, ?_⟩
    simp only [TableStatement.text, TableStatement.header, TableStatement.opening_eq, List.append_assoc,
      List.cons_append, List.nil_append]
  refine occursIn_iff.mpr ⟨u, t.text ++ v, rfl, ?_⟩
  have hbefore : ∀ d ∈ lastOf none u, isWordChar d = false := by
    rw [lastOf_eq, Option.or_none]
    exact hu
  have hedge : (wordEdge : SqlPattern).readings (lastOf none u) (t.text ++ v) =
      [⟨[], [], t.text ++ v⟩] := by
    rw [hw]
    exact readings_wordEdge_of_start hbefore (by decide)
  have htable : ∀ before, (keyword "TABLE" ++ wordEdge : SqlPattern).read? before
      ("TABLE".toList ++ ' ' :: w) ≠ none := by
    intro before
    rw [read?_keyword_seq, read?_wordEdge_of_end (by decide) (by decide) (stops_cons.mpr (by decide))]
    exact Option.some_ne_none _
  have hcreate := read?_seq_ne_none (reads_creation t (' ' :: w) (lastOf none u)) (htable _)
  simp only [createTable, read?_seq_assoc] at hcreate ⊢
  rw [read?_single_seq hedge, hw]
  simpa using hcreate

theorem storageEngine_occurs (t : TableStatement) (u v : Text) :
    storageEngine.occursIn (u ++ (t.text ++ v)) = true := by
  obtain ⟨w, hw⟩ : ∃ w, u ++ (t.text ++ v) = ((u ++ (t.header ++ (t.body ++ [')']))) ++ [' ']) ++
      ("ENGINE".toList ++ ('=' :: 'I' :: w)) := by
    refine ⟨"nnoDB".toList ++ (t.options ++ [';']) ++ v, ?_⟩
    simp [TableStatement.text]
  refine occursIn_iff.mpr ⟨_, _, hw, ?_⟩
  have hlast : lastOf none ((u ++ (t.header ++ (t.body ++ [')']))) ++ [' ']) = some ' ' :=
    lastOf_append none _ [' ']
  have hedge : (wordEdge : SqlPattern).readings (some ' ') ("ENGINE".toList ++ ('=' :: 'I' :: w)) =
      [⟨[], [], "ENGINE".toList ++ ('=' :: 'I' :: w)⟩] :=
    readings_wordEdge_of_start (by decide) (by decide)
  have hgap : ∀ c w, isBlank c = false → (gap : SqlPattern).Reads [] (c :: w) [] :=
    fun c w hc => reads_no_gap (stops_cons.mpr hc)
  have hletter : (one isWordChar : SqlPattern).Reads ['I'] w [] := reads_one (by decide) w
  have hengine := ((reads_keyword "ENGINE" _).seq ((hgap '=' _ (by decide)).seq ((reads_literal "=" _).seq
    ((hgap 'I' w (by decide)).seq hletter)))) (lastOf (some ' ') [])
  have hread : (keyword "ENGINE" ++ (gap ++ (literal "=" ++ (gap ++ one isWordChar))) :
      SqlPattern).read? (lastOf (some ' ') []) ("ENGINE".toList ++ ('=' :: 'I' :: w)) ≠ none :=
    fun hnone => Option.some_ne_none _ (hengine.symm.trans hnone)
  rw [hlast]
  simp only [storageEngine, read?_seq_assoc]
  rw [read?_single_seq hedge]
  simpa using hread

/-- A text that does not create anything creates no table. -/
theorem createTable_not_occurs (f : Filler) : createTable.occursIn f.text = false := by
  rw [occursIn_eq_false_iff]
  intro u v huv
  have hnone := occursIn_eq_false_iff.mp f.plain u v huv
  have hword : (wordEdge ++ keyword "CREATE" : SqlPattern).read? (lastOf none u) v = none := by
    rw [read?_seq_eq_none]
    intro a ha
    have hedge : a = ⟨[], [], v⟩ := by
      rw [readings] at ha
      split at ha
      · exact List.mem_singleton.mp ha
      · cases ha
    rw [hedge]
    exact hnone
  rw [createTable]
  exact read?_seq_none (read?_seq_none (read?_seq_none (read?_seq_none hword)))

theorem detect_text (d : Dump) :
    Dialect.detect d.text = if d.statements = [] then none else some .mysql := by
  rw [Dialect.detect, Dump.text]
  cases hstatements : d.statements with
  | nil =>
      have hnone := createTable_not_occurs d.trailer
      simp [hnone]
  | cons s statements =>
      have hcreate := createTable_occurs s.2 (v := statements.flatMap (fun s => s.1.text ++ s.2.text) ++
        d.trailer.text) s.1.detached
      have hengine := storageEngine_occurs s.2 s.1.text
        (statements.flatMap (fun s => s.1.text ++ s.2.text) ++ d.trailer.text)
      simp [hcreate, hengine]

/-- Whatever a dump declares is what is read from it. -/
theorem ofDump_text (d : Dump) :
    Dialect.detect d.text = (if d.statements = [] then none else some .mysql) ∧
      parse d.text = d.schema ∧ Schema.ofDump d.text = d.schema := by
  refine ⟨detect_text d, parse_text d, ?_⟩
  rw [Schema.ofDump, detect_text]
  by_cases hstatements : d.statements = []
  · simp [hstatements, Dump.schema, Schema.empty]
  · simp [hstatements, Dialect.extract, parse_text]

end SchemaDump.MySQL
