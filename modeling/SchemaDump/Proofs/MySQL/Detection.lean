import SchemaDump.Proofs.MySQL.Locality
import SchemaDump.Proofs.MySQL.RoundTrip
/- Where a table block can be read, detection finds its two signs of MySQL as well: the words that create a
table and the mention of an engine. It asks for more at either end of a block, namely that the first word does
not continue another one and that the engine is a word. -/
namespace SchemaDump.MySQL
open SqlPattern Pattern

variable {before : Option Char} {sql t u v : Text} {r : Match Part}

/-- Whether no word character stands directly in front of a block. -/
def standsApart (o : Occurrence Part) : Bool := !o.before.getLast?.any isWordChar

/-- Whether the engine behind a block is a word, not a quoted name. -/
def engineIsWord (o : Occurrence Part) : Bool := (Text.trimStart o.after).head?.any isWordChar

/-- A keyword is read where a text starts with a word character, and up to one. -/
theorem chars_of_mem_readings_keyword {word : String} (hword : ∀ c ∈ word.toList, c.isAlpha)
    (hne : word.toList ≠ []) (hr : r ∈ (keyword word : SqlPattern).readings before t) :
    r.read ≠ [] ∧ ∀ c ∈ r.read, isWordChar c := by
  obtain ⟨-, hspells, -⟩ := mem_readings_keyword.mp hr
  refine ⟨fun hnil => hne (List.length_eq_zero_iff.mp ?_), isWordChar_of_spells hword hspells⟩
  rw [← spells_length hspells, hnil, List.length_nil]

/-- A keyword stands at the edge of a word where it starts, unless it continues one. -/
theorem mem_readings_edge_keyword {word : String} (hword : ∀ c ∈ word.toList, c.isAlpha)
    (hne : word.toList ≠ []) (hbefore : ∀ c ∈ before, isWordChar c = false)
    (hr : r ∈ (keyword word : SqlPattern).readings before t) :
    r ∈ (wordEdge ++ keyword word : SqlPattern).readings before t := by
  obtain ⟨hread, hchars⟩ := chars_of_mem_readings_keyword hword hne hr
  obtain ⟨c, rest, hc⟩ := List.exists_cons_of_ne_nil hread
  have ht : t = c :: (rest ++ r.rest) := by
    rw [← readings_text _ _ _ r hr, hc, List.cons_append]
  have hedge : (⟨[], [], t⟩ : Match Part) ∈ (wordEdge : SqlPattern).readings before t := by
    rw [ht, readings_wordEdge_of_start hbefore (hchars c (by simp [hc]))]
    exact List.mem_singleton_self _
  exact mem_readings_seq.mpr ⟨_, hedge, r, hr, by simp [Match.andThen]⟩

theorem mem_readings_keyword_edge {word : String} (hword : ∀ c ∈ word.toList, c.isAlpha)
    (hne : word.toList ≠ []) (hrest : Stops isWordChar r.rest)
    (hr : r ∈ (keyword word : SqlPattern).readings before t) :
    r ∈ (keyword word ++ wordEdge : SqlPattern).readings before t := by
  obtain ⟨hread, hchars⟩ := chars_of_mem_readings_keyword hword hne hr
  have hedge := mem_of_read? (@read?_wordEdge_of_end before _ _ hread hchars hrest)
  exact mem_readings_seq.mpr ⟨r, hr, _, hedge, by simp [Match.andThen]⟩

theorem stops_word_of_mem_readings_blanks (hr : r ∈ (blanks : SqlPattern).readings before t) :
    Stops isWordChar t := by
  obtain ⟨c, rest, rfl, hc⟩ := exists_head_of_mem rfl hr
  have hblank : isBlank c := by simpa [blanks, run1, append_eq_seq, starts, nullable] using hc
  exact stops_cons.mpr (isWordChar_eq_false_of_isBlank hblank)

theorem createTable_of_opening (hbefore : ∀ c ∈ before, isWordChar c = false)
    (hr : r ∈ tableOpening.readings before t) : ∃ s, s ∈ createTable.readings before t := by
  simp only [tableOpening, readings_seq_assoc, mem_readings_seq] at hr
  obtain ⟨create, hcreate, -, ⟨space, hspace, -, ⟨kind, hkind, -, ⟨table, htable, -,
    ⟨behind, hbehind, -⟩, rfl⟩, rfl⟩, rfl⟩, rfl⟩ := hr
  have hkinds : kind ∈ (maybe (anyOf [keyword "TEMPORARY", keyword "TEMP", keyword "UNLOGGED"] ++
      blanks) : SqlPattern).readings (lastOf (lastOf before create.read) space.read) space.rest := by
    rcases List.mem_append.mp hkind with hkind | hkind
    · obtain ⟨word, hword, more, hmore, rfl⟩ := mem_readings_seq.mp hkind
      refine List.mem_append_left _ (mem_readings_seq.mpr ⟨word, ?_, more, hmore, rfl⟩)
      exact List.mem_append_left _ hword
    · exact List.mem_append_right _ hkind
  have hfirst := mem_readings_edge_keyword (by decide) (by decide) hbefore hcreate
  have hlast := mem_readings_keyword_edge (by decide) (by decide)
    (stops_word_of_mem_readings_blanks hbehind) htable
  have hgroups : createTable.readings before t = ((wordEdge ++ keyword "CREATE") ++ (blanks ++
      (maybe (anyOf [keyword "TEMPORARY", keyword "TEMP", keyword "UNLOGGED"] ++ blanks) ++
        (keyword "TABLE" ++ wordEdge)))).readings before t := by
    simp only [createTable, readings_seq_assoc]
  rw [hgroups]
  exact ⟨_, mem_readings_seq.mpr ⟨create, hfirst, _, mem_readings_seq.mpr ⟨space, hspace, _,
    mem_readings_seq.mpr ⟨kind, hkinds, table, hlast, rfl⟩, rfl⟩, rfl⟩⟩

/-- Blanks and a character of a word are read where a text starts with them. -/
theorem exists_readings_word_ahead (h : (Text.trimStart t).head?.any isWordChar)
    (before : Option Char) : ∃ s, s ∈ (gap ++ one isWordChar : SqlPattern).readings before t := by
  obtain ⟨c, hhead, hc⟩ := (Option.any_eq_true _ _).mp h
  obtain ⟨rest, hrest⟩ := List.head?_eq_some_iff.mp hhead
  have hblanks : (⟨t.takeWhile isBlank, [], Text.trimStart t⟩ : Match Part) ∈
      (gap : SqlPattern).readings before t :=
    mem_readings_run.mpr ⟨rfl, List.takeWhile_append_dropWhile,
      fun _ hd => List.all_eq_true.mp List.all_takeWhile _ hd⟩
  refine ⟨_, mem_readings_seq.mpr ⟨_, hblanks, ⟨[c], [], rest⟩, ?_, rfl⟩⟩
  rw [hrest, readings_one hc]
  exact List.mem_singleton_self _

theorem storageEngine_of_bodyEnd (hr : r ∈ bodyEnd.readings before t)
    (hword : (Text.trimStart r.rest).head?.any isWordChar) :
    ∃ x y s, t = x ++ y ∧ s ∈ storageEngine.readings (lastOf before x) y := by
  simp only [bodyEnd, mem_readings_seq] at hr
  obtain ⟨close, hclose, -, ⟨space, hspace, -, ⟨engine, hengine, -, ⟨gap, hgap, equals, hequals, rfl⟩,
    rfl⟩, rfl⟩, rfl⟩ := hr
  have htext : t = (close.read ++ space.read) ++ space.rest := by
    rw [List.append_assoc, readings_text _ _ _ space hspace, readings_text _ _ _ close hclose]
  have hbefore : ∀ c ∈ lastOf (lastOf before close.read) space.read, isWordChar c = false := by
    intro c hc
    rw [lastOf_eq] at hc
    cases hlast : space.read.getLast? with
    | some d =>
        rw [hlast] at hc
        obtain rfl := Option.some.inj hc
        have hblank := (mem_readings_run.mp hspace).2.2 d (List.mem_of_getLast? hlast)
        exact isWordChar_eq_false_of_isBlank hblank
    | none =>
        rw [hlast, (mem_readings_literal.mp hclose).2.1] at hc
        rw [← Option.some.inj hc]
        decide
  have hfirst := mem_readings_edge_keyword (by decide) (by decide) hbefore hengine
  obtain ⟨word, hword⟩ := exists_readings_word_ahead (t := equals.rest) hword (lastOf (lastOf
    (lastOf (lastOf (lastOf before close.read) space.read) engine.read) gap.read) equals.read)
  have hgroups : storageEngine.readings (lastOf (lastOf before close.read) space.read) space.rest =
      ((wordEdge ++ keyword "ENGINE") ++ (Pattern.gap ++ (literal "=" ++ (Pattern.gap ++
        one isWordChar)))).readings (lastOf (lastOf before close.read) space.read) space.rest := by
    simp only [storageEngine, readings_seq_assoc]
  refine ⟨close.read ++ space.read, space.rest, engine.andThen (gap.andThen (equals.andThen word)), htext, ?_⟩
  rw [lastOf_append, hgroups]
  exact mem_readings_seq.mpr ⟨engine, hfirst, _, mem_readings_seq.mpr ⟨gap, hgap, _,
    mem_readings_seq.mpr ⟨equals, hequals, word, hword, rfl⟩, rfl⟩, rfl⟩

theorem createTable_of_block {o : Occurrence Part} (ho : o ∈ tableBlock.occurrences sql)
    (h : standsApart o) : createTable.occursIn sql = true := by
  obtain ⟨w, htext, hread⟩ := exists_of_mem_occurrences ho
  have hr := mem_of_read? hread
  rw [readings_tableBlock] at hr
  obtain ⟨opening, hopening, -⟩ := mem_readings_seq.mp hr
  have hbefore : ∀ c ∈ lastOf none o.before, isWordChar c = false := by
    intro c hc
    rw [lastOf_eq, Option.or_none] at hc
    rw [standsApart, hc] at h
    simpa using h
  obtain ⟨s, hs⟩ := createTable_of_opening hbefore hopening
  exact occursIn_of_mem_readings htext hs

theorem storageEngine_of_block {o : Occurrence Part} (ho : o ∈ tableBlock.occurrences sql)
    (h : engineIsWord o) : storageEngine.occursIn sql = true := by
  obtain ⟨w, htext, hread⟩ := exists_of_mem_occurrences ho
  have hr := mem_of_read? hread
  rw [readings_tableBlock] at hr
  simp only [afterName, mem_readings_seq] at hr
  obtain ⟨opening, hopening, -, ⟨name, hname, -, ⟨space, hspace, -, ⟨paren, hparen, -,
    ⟨body, hbody, close, hclose, rfl⟩, rfl⟩, rfl⟩, rfl⟩, hreading⟩ := hr
  have hrest : close.rest = o.after := congrArg Match.rest hreading
  obtain ⟨x, y, s, hxy, hs⟩ := storageEngine_of_bodyEnd hclose (by rw [hrest]; exact h)
  have hw : w = opening.read ++ (name.read ++ (space.read ++ (paren.read ++ (body.read ++ (x ++ y))))) := by
    rw [← hxy, readings_text _ _ _ body hbody, readings_text _ _ _ paren hparen,
      readings_text _ _ _ space hspace, readings_text _ _ _ name hname,
      readings_text _ _ _ opening hopening]
  have hsplit : sql = (o.before ++ (opening.read ++ (name.read ++ (space.read ++ (paren.read ++
      (body.read ++ x)))))) ++ y := by
    rw [htext, hw]
    simp only [List.append_assoc]
  refine occursIn_of_mem_readings hsplit (r := s) ?_
  simpa only [lastOf_append] using hs

/-- A dump is recognised if one of its blocks stands apart and the engine of one of them is a word. -/
theorem detect_of_blocks (hopens : ∃ o ∈ tableBlock.occurrences sql, standsApart o)
    (hengine : ∃ o ∈ tableBlock.occurrences sql, engineIsWord o) :
    Dialect.detect sql = some .mysql ∧ Schema.ofDump sql = Dialect.mysql.extract sql := by
  obtain ⟨first, hfirst, happart⟩ := hopens
  obtain ⟨second, hsecond, hword⟩ := hengine
  have hdetect : Dialect.detect sql = some .mysql := by
    simp [Dialect.detect, createTable_of_block hfirst happart, storageEngine_of_block hsecond hword]
  refine ⟨hdetect, ?_⟩
  rw [Schema.ofDump, hdetect]

/-- Two blocks: one whose engine is a quoted name, and one that directly follows a word character. -/
def mixedText : Text :=
  ("CREATE TABLE `t` (\n  `a` int\n) ENGINE='InnoDB';\n" ++
    "_CREATE TABLE `u` (\n  `b` int\n) ENGINE=InnoDB;\n").toList

theorem detect_mixedText : (∃ o ∈ tableBlock.occurrences mixedText, standsApart o) ∧
    (∃ o ∈ tableBlock.occurrences mixedText, engineIsWord o) ∧
    Dialect.detect mixedText = some .mysql ∧
      Schema.ofDump mixedText = Dialect.mysql.extract mixedText := by
  have hopens : ∃ o ∈ tableBlock.occurrences mixedText, standsApart o := by decide
  have hengine : ∃ o ∈ tableBlock.occurrences mixedText, engineIsWord o := by decide
  exact ⟨hopens, hengine, detect_of_blocks hopens hengine⟩

def quotedEngineText : Text := "CREATE TABLE `t` (\n  `a` int\n) ENGINE='InnoDB';".toList

/-- A table statement that directly follows a word. -/
def continuedWordText : Text := "_CREATE TABLE `t` (\n  `a` int\n) ENGINE=InnoDB;".toList

/-- Tables that can be read are not always recognised. -/
theorem detect_misses_tables :
    ((parse quotedEngineText).tables ≠ [] ∧ Dialect.detect quotedEngineText ≠ some .mysql ∧
      Schema.ofDump quotedEngineText ≠ Dialect.mysql.extract quotedEngineText) ∧
    (parse continuedWordText).tables ≠ [] ∧ Dialect.detect continuedWordText ≠ some .mysql ∧
      Schema.ofDump continuedWordText ≠ Dialect.mysql.extract continuedWordText := by
  decide

end SchemaDump.MySQL
