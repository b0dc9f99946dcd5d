import SchemaDump.Proofs.MySQL.Detection
/- The dialect told from a text that only PostgreSQL can read. What decides is whether the text mentions a
storage engine anywhere, be it in a condition or in a literal: that sign of MySQL counts before all others. -/
namespace SchemaDump
open SqlPattern Pattern

variable {before : Option Char} {sql : Text}

/-- A text mentions a storage engine: the word `ENGINE` in any letter case, which continues no other word, then
an equals sign and a word character, with blanks around the equals sign or not. -/
inductive MentionsEngine : Text → Prop
  | mk (front word space gap back : Text) (engine : Char)
      (apart : ∀ c ∈ front.getLast?, isWordChar c = false)
      (spelled : spells sameLetter "ENGINE".toList word)
      (blank_space : ∀ c ∈ space, isBlank c) (blank_gap : ∀ c ∈ gap, isBlank c)
      (isWordChar_engine : isWordChar engine) :
      MentionsEngine (front ++ (word ++ (space ++ '=' :: (gap ++ engine :: back))))

/-- At the edge of a word that starts there, no word character stands in front. -/
theorem before_of_mem_readings_wordEdge {c : Char} {t : Text} {r : Match Part} (hc : isWordChar c)
    (hr : r ∈ (wordEdge : SqlPattern).readings before (c :: t)) :
    (∀ d ∈ before, isWordChar d = false) ∧ r = ⟨[], [], c :: t⟩ := by
  simp only [readings, List.head?_cons, Option.any_some, hc] at hr
  split at hr
  · next hbefore =>
    refine ⟨?_, List.mem_singleton.mp hr⟩
    rintro d rfl
    simpa using hbefore
  · cases hr

theorem mentionsEngine_of_mem_readings {front v : Text} {r : Match Part}
    (hr : r ∈ storageEngine.readings (lastOf none front) v) : MentionsEngine (front ++ v) := by
  simp only [storageEngine, readings_seq_assoc, mem_readings_seq] at hr
  obtain ⟨edge, hedge, -, ⟨word, hword, -, ⟨space, hspace, -, ⟨equals, hequals, -, ⟨gap, hgap, engine,
    hengine, rfl⟩, rfl⟩, rfl⟩, rfl⟩, rfl⟩ := hr
  obtain ⟨hread, hchars⟩ := MySQL.chars_of_mem_readings_keyword (by decide) (by decide) hword
  obtain ⟨c, letters, hc⟩ := List.exists_cons_of_ne_nil hread
  obtain ⟨-, hspelled, hwordText⟩ := mem_readings_keyword.mp hword
  have hv : edge.rest = v := by
    have hempty : edge.read = [] := by
      simp only [readings] at hedge
      split at hedge
      · rw [List.mem_singleton.mp hedge]
      · cases hedge
    rw [← readings_text _ _ _ edge hedge, hempty, List.nil_append]
  have hstart : v = c :: (letters ++ word.rest) := by rw [← hv, ← hwordText, hc, List.cons_append]
  rw [hstart] at hedge
  have hapart := (before_of_mem_readings_wordEdge (hchars c (by simp [hc])) hedge).1
  obtain ⟨-, hspaceText, hspaceBlank⟩ := mem_readings_run.mp hspace
  obtain ⟨-, hequalsRead, hequalsText⟩ := mem_readings_literal.mp hequals
  obtain ⟨-, hgapText, hgapBlank⟩ := mem_readings_run.mp hgap
  obtain ⟨e, he, -, -, hengineText⟩ := mem_readings_one hengine
  have htext : v = word.read ++ (space.read ++ '=' :: (gap.read ++ e :: engine.rest)) := by
    rw [← hengineText, hgapText, ← hv, ← hwordText, ← hspaceText, ← hequalsText, hequalsRead]
    rfl
  rw [htext]
  refine .mk front word.read space.read gap.read engine.rest e ?_ hspelled hspaceBlank hgapBlank he
  rwa [lastOf_eq, Option.or_none] at hapart

theorem storageEngine_of_mentionsEngine (h : MentionsEngine sql) : storageEngine.occursIn sql = true := by
  obtain ⟨front, word, space, gap, back, engine, apart, spelled, blank_space, blank_gap, hengine⟩ := h
  have hbefore : ∀ c ∈ lastOf none front, isWordChar c = false := by
    rwa [lastOf_eq, Option.or_none]
  have hword : (⟨word, [], space ++ '=' :: (gap ++ engine :: back)⟩ : Match Part) ∈
      (wordEdge ++ keyword "ENGINE" : SqlPattern).readings (lastOf none front)
        (word ++ (space ++ '=' :: (gap ++ engine :: back))) :=
    MySQL.mem_readings_edge_keyword (by decide) (by decide) hbefore
      (mem_readings_keyword.mpr ⟨rfl, spelled, rfl⟩)
  have hspace : ∀ before, (⟨space, [], '=' :: (gap ++ engine :: back)⟩ : Match Part) ∈
      (Pattern.gap : SqlPattern).readings before (space ++ '=' :: (gap ++ engine :: back)) :=
    fun before => mem_readings_run.mpr ⟨rfl, rfl, blank_space⟩
  have hequals : ∀ before, (⟨['='], [], gap ++ engine :: back⟩ : Match Part) ∈
      (literal "=" : SqlPattern).readings before ('=' :: (gap ++ engine :: back)) :=
    fun before => mem_readings_literal.mpr ⟨rfl, rfl, rfl⟩
  have hgap : ∀ before, (⟨gap, [], engine :: back⟩ : Match Part) ∈
      (Pattern.gap : SqlPattern).readings before (gap ++ engine :: back) :=
    fun before => mem_readings_run.mpr ⟨rfl, rfl, blank_gap⟩
  have hone : ∀ before, (⟨[engine], [], back⟩ : Match Part) ∈
      (one isWordChar : SqlPattern).readings before (engine :: back) := by
    intro before
    rw [readings_one hengine]
    exact List.mem_singleton_self _
  have hopening := mem_readings_seq.mpr ⟨_, hword, _, hspace _, rfl⟩
  have hassigned := mem_readings_seq.mpr ⟨_, hopening, _, hequals _, rfl⟩
  have hpadded := mem_readings_seq.mpr ⟨_, hassigned, _, hgap _, rfl⟩
  exact occursIn_of_mem_readings rfl (mem_readings_seq.mpr ⟨_, hpadded, _, hone _, rfl⟩)

theorem storageEngine_occursIn_iff : storageEngine.occursIn sql = true ↔ MentionsEngine sql := by
  constructor
  · intro h
    obtain ⟨front, v, rfl, hread⟩ := occursIn_iff.mp h
    obtain ⟨r, hr⟩ := List.exists_mem_of_ne_nil _ (mt readings_eq_nil_iff.mp hread)
    exact mentionsEngine_of_mem_readings hr
  · exact storageEngine_of_mentionsEngine

/-- What a text that only PostgreSQL can read is taken for: PostgreSQL as long as it mentions no storage engine.
Where it does, it is taken for MySQL, and nothing is found. -/
theorem detect_of_postgresql_tables (hcreate : createTable.occursIn sql)
    (hsign : ownerTo.occursIn sql ∨ searchPath.occursIn sql ∨ publicQualified.occursIn sql)
    (hmysql : (Dialect.mysql.extract sql).tables = [])
    (hpostgresql : (Dialect.postgresql.extract sql).tables ≠ []) :
    (¬MentionsEngine sql → Dialect.detect sql = some .postgresql ∧
      Schema.ofDump sql = Dialect.postgresql.extract sql ∧ (Schema.ofDump sql).tables ≠ []) ∧
    (MentionsEngine sql → Dialect.detect sql = some .mysql ∧ (Schema.ofDump sql).tables = []) := by
  rw [← storageEngine_occursIn_iff, Bool.not_eq_true]
  constructor
  · intro hengine
    have hdetect : Dialect.detect sql = some .postgresql := by
      rcases hsign with h | h | h <;> simp [Dialect.detect, hcreate, hengine, h]
    have hschema : Schema.ofDump sql = Dialect.postgresql.extract sql := by
      rw [Schema.ofDump, hdetect]
    exact ⟨hdetect, hschema, hschema ▸ hpostgresql⟩
  · intro hengine
    have hdetect : Dialect.detect sql = some .mysql := by
      simp [Dialect.detect, hcreate, hengine]
    refine ⟨hdetect, ?_⟩
    rw [Schema.ofDump, hdetect]
    exact hmysql

/-- A table with a column that is named like the option of MySQL, and no assignment to it. -/
def engineColumnText : Text := "CREATE TABLE public.cars (\n".toList ++ "    engine text\n);\n".toList

theorem detect_engineColumnText : Dialect.detect engineColumnText = some .postgresql ∧
    Schema.ofDump engineColumnText = Dialect.postgresql.extract engineColumnText ∧
      (Schema.ofDump engineColumnText).tables ≠ [] :=
  (detect_of_postgresql_tables (by decide) (.inr (.inr (by decide)))
    (by decide) (by decide)).1
    (mt storageEngine_occursIn_iff.mpr (by decide))

/-- The same table with a condition on that column, as it is dumped. -/
def engineConditionText : Text :=
  "CREATE TABLE public.cars (\n".toList ++ "    id integer,\n".toList ++ "    engine text,\n".toList ++
    "    CONSTRAINT cars_engine CHECK ".toList ++ "((engine = ANY (ARRAY[".toList ++
      "'v6'::text, 'v8'::text])))\n);\n".toList

/-- A condition on a column can pass for a storage engine, and the table is lost. -/
theorem engine_condition_taken_for_mysql : createTable.occursIn engineConditionText ∧
    publicQualified.occursIn engineConditionText ∧
    (Dialect.mysql.extract engineConditionText).tables = [] ∧
    (Dialect.postgresql.extract engineConditionText).tables ≠ [] ∧
    Dialect.detect engineConditionText ≠ some .postgresql ∧
    (Schema.ofDump engineConditionText).tables = [] := by
  decide +kernel

end SchemaDump
