import SchemaDump.Proofs.Definition.Identifier
import SchemaDump.Proofs.MySQL.Table
import SchemaDump.Proofs.Pattern.Keyword
/- A semicolon ends whatever stands before it: a dump is read statement by statement. Only a
back-quoted table name can hold a semicolon, so nothing else of a table block crosses one. -/
namespace SchemaDump.MySQL
open SqlPattern Pattern

/-- What a table block starts with, up to the name of the table. -/
def tableOpening : SqlPattern :=
  keyword "CREATE" ++ blanks ++ maybe (keyword "TEMPORARY" ++ blanks) ++ keyword "TABLE" ++ blanks ++
    maybe (phrase ["IF", "NOT", "EXISTS"] ++ blanks)

def tableName : SqlPattern := tableIdentifier ++ maybe (literal "." ++ tableIdentifier)

def bodyEnd : SqlPattern := literal ")" ++ (gap ++ (keyword "ENGINE" ++ (gap ++ literal "=")))

def afterName : SqlPattern :=
  gap ++ (literal "(" ++ (part .body (run1 (· != ';') .shortest) ++ bodyEnd))

theorem readings_tableBlock (before : Option Char) (t : Text) :
    tableBlock.readings before t =
      (tableOpening ++ (part .name tableName ++ afterName)).readings before t := by
  simp only [tableBlock, tableOpening, afterName, bodyEnd, tableName, readings_seq_assoc]

/-- A table statement that breaks off inside a back-quoted name. -/
def brokenName : SqlPattern :=
  tableOpening ++ (maybe (tableIdentifier ++ literal ".") ++
    (one (· == backQuote) ++ (run (· != backQuote) .longest ++ textEnd)))

/-- Whether a back-quoted table name starts in one text and ends in another that follows it. -/
def nameSpans (a b : Text) : Bool := brokenName.occursIn a && b.contains backQuote

variable {a b y : Text} {before : Option Char} {r : Match Part}

theorem exists_of_length_lt {u v : Text} {c : Char} (h : u ++ v = y ++ c :: b)
    (hlt : y.length < u.length) : ∃ w, u = y ++ c :: w ∧ b = w ++ v := by
  rcases List.append_eq_append_iff.mp h with ⟨w, hw, -⟩ | ⟨w, hw, hv⟩
  · rw [hw, List.length_append] at hlt
    omega
  · cases w with
    | nil =>
        rw [hw, List.append_nil] at hlt
        exact absurd hlt (Nat.lt_irrefl _)
    | cons d w =>
        obtain ⟨rfl, hrest⟩ := List.cons.inj hv
        exact ⟨w, hw, hrest⟩

theorem exists_rest_of_not_mentions {p : SqlPattern} (hp : p.mentions ';' = false)
    (hr : r ∈ p.readings before (y ++ ';' :: b)) :
    ∃ z, y = r.read ++ z ∧ r.rest = z ++ ';' :: b := by
  have ht := readings_text p before _ r hr
  apply exists_of_length_le ht
  apply Nat.le_of_not_lt
  intro hlt
  obtain ⟨w, hw, -⟩ := exists_of_length_lt ht hlt
  exact not_mem_read hr hp (by rw [hw]; exact List.mem_append_right y List.mem_cons_self)

/-- A name that reads over a semicolon is back-quoted and open where the semicolon stands. -/
theorem identifier_spans (hr : r ∈ tableIdentifier.readings before (y ++ ';' :: b))
    (hlt : y.length < r.read.length) :
    ∃ x, y = backQuote :: x ∧ backQuote ∉ x ∧ backQuote ∈ b := by
  obtain ⟨w, hw, hb⟩ := exists_of_length_lt (readings_text _ before _ r hr) hlt
  have hmem : ';' ∈ r.read := by
    rw [hw]
    exact List.mem_append_right y List.mem_cons_self
  rcases List.mem_append.mp hr with hr | hr
  · obtain ⟨x, -, hx, -, hread, -⟩ := mem_readings_quotedIdentifier hr
    rw [hw] at hread
    cases y with
    | nil => exact absurd (List.cons.inj hread).1 (by decide)
    | cons c y =>
        obtain ⟨rfl, hinner⟩ := List.cons.inj hread
        rcases List.append_eq_append_iff.mp hinner with ⟨z, hz, hw⟩ | ⟨z, hz, hw⟩
        · cases z with
          | nil => exact absurd (List.cons.inj hw).1 (by decide)
          | cons d z =>
              obtain ⟨rfl, hlast⟩ := List.cons.inj hw
              refine ⟨y, rfl, fun hy => hx (hz ▸ List.mem_append_left _ hy), ?_⟩
              rw [hb, hlast]
              simp
        · cases z with
          | nil => exact absurd (List.cons.inj hw).1 (by decide)
          | cons d z => simp at hw
  · exact absurd hmem (not_mem_read hr (by decide))

theorem readings_openQuote {x : Text} (before : Option Char) (hx : backQuote ∉ x) :
    ∃ s : Match Part, s ∈ (one (· == backQuote) ++
      (run (· != backQuote) .longest ++ textEnd)).readings before (backQuote :: x) := by
  refine ⟨_, mem_readings_seq.mpr ⟨⟨[backQuote], [], x⟩, ?_, ⟨x, [], []⟩, ?_, rfl⟩⟩
  · rw [readings_one (by decide)]
    exact List.mem_singleton_self _
  · refine mem_readings_seq.mpr ⟨⟨x, [], []⟩, ?_, ⟨[], [], []⟩, List.mem_singleton_self _, ?_⟩
    · refine mem_readings_run.mpr ⟨rfl, List.append_nil x, ?_⟩
      intro c hc
      exact bne_iff_ne.mpr fun h => hx (h ▸ hc)
    · simp [Match.andThen]

/-- A table name, qualified or not, that reads over a semicolon breaks off before it. -/
theorem tableName_spans (hr : r ∈ tableName.readings before (y ++ ';' :: b))
    (hlt : y.length < r.read.length) :
    backQuote ∈ b ∧ ∃ s, s ∈ (maybe (tableIdentifier ++ literal ".") ++ (one (· == backQuote) ++
      (run (· != backQuote) .longest ++ textEnd)) : SqlPattern).readings before y := by
  obtain ⟨schema, hschema, more, hmore, rfl⟩ := mem_readings_seq.mp hr
  rcases Nat.lt_or_ge y.length schema.read.length with hcross | hwithin
  · obtain ⟨x, rfl, hx, hb⟩ := identifier_spans hschema hcross
    obtain ⟨s, hs⟩ := readings_openQuote before hx
    refine ⟨hb, _, mem_readings_seq.mpr ⟨⟨[], [], backQuote :: x⟩, ?_, s, hs, rfl⟩⟩
    exact List.mem_append_right _ (List.mem_singleton_self _)
  · obtain ⟨z, hy, hrest⟩ := exists_of_length_le (readings_text _ before _ schema hschema) hwithin
    rw [hrest] at hmore
    rcases List.mem_append.mp hmore with hmore | hmore
    · obtain ⟨dot, hdot, name, hname, rfl⟩ := mem_readings_seq.mp hmore
      obtain ⟨w, hz, hw⟩ := exists_rest_of_not_mentions (by decide) hdot
      rw [hw] at hname
      simp only [hy, hz, Match.andThen_read, List.length_append] at hlt
      obtain ⟨x, rfl, hx, hb⟩ := identifier_spans hname (by omega)
      -- the schema and its dot are read in the same way where the text breaks off
      have hqualifier : schema.andThen dot ∈
          (maybe (tableIdentifier ++ literal ".")).readings before (y ++ ';' :: b) := by
        refine List.mem_append_left _ (mem_readings_seq.mpr ⟨schema, hschema, dot, ?_, rfl⟩)
        rw [hrest]
        exact hdot
      obtain ⟨q, hq, hext⟩ := exists_of_mem_readings_append (by decide) hqualifier
        (by simp [hy, hz])
      have hqrest : q.rest ++ ';' :: b = backQuote :: x ++ ';' :: b := by
        rw [← hw, ← Match.extend_rest, hext, Match.andThen_rest]
      obtain ⟨s, hs⟩ := readings_openQuote (lastOf before q.read) hx
      refine ⟨hb, _, mem_readings_seq.mpr ⟨q, hq, s, ?_, rfl⟩⟩
      rw [List.append_cancel_right hqrest]
      exact hs
    · rw [List.mem_singleton.mp hmore] at hlt
      simp only [Match.andThen_read, List.append_nil] at hlt
      omega

/-- A table block that reads over a semicolon does so in its name. -/
theorem tableBlock_spans (hr : r ∈ tableBlock.readings before (y ++ ';' :: b))
    (hlt : y.length < r.read.length) :
    backQuote ∈ b ∧ ∃ s, s ∈ brokenName.readings before y := by
  rw [readings_tableBlock] at hr
  obtain ⟨opening, hopening, more, hmore, rfl⟩ := mem_readings_seq.mp hr
  obtain ⟨name, hname, block, hblock, rfl⟩ := mem_readings_seq.mp hmore
  obtain ⟨z, hy, hrest⟩ := exists_rest_of_not_mentions (by decide) hopening
  rw [hrest] at hname
  obtain ⟨name, hread, rfl⟩ := List.mem_map.mp hname
  rcases Nat.lt_or_ge z.length name.read.length with hcross | hwithin
  · obtain ⟨hb, s, hs⟩ := tableName_spans hread hcross
    obtain ⟨o, ho, hext⟩ := exists_of_mem_readings_append (by decide) hopening (by simp [hy])
    have horest : o.rest ++ ';' :: b = z ++ ';' :: b := by
      rw [← hrest, ← hext, Match.extend_rest]
    have horead : o.read = opening.read := by rw [← hext, Match.extend_read]
    refine ⟨hb, _, mem_readings_seq.mpr ⟨o, ho, s, ?_, rfl⟩⟩
    rw [List.append_cancel_right horest, horead]
    exact hs
  · obtain ⟨u, hz, hurest⟩ := exists_of_length_le (readings_text _ _ _ name hread) hwithin
    rw [Match.labelled_rest, hurest] at hblock
    obtain ⟨w, hu, -⟩ := exists_rest_of_not_mentions (by decide) hblock
    simp only [hy, hz, hu, Match.andThen_read, Match.labelled_read, List.length_append] at hlt
    omega

theorem staysWithin_tableBlock (h : nameSpans a b = false) : tableBlock.StaysWithin a (';' :: b) := by
  intro x y ha _ before r hr
  apply Nat.le_of_not_lt
  intro hlt
  rw [readings_before (by decide) before (lastOf none x)] at hr
  obtain ⟨hb, s, hs⟩ := tableBlock_spans hr hlt
  have hoccurs : brokenName.occursIn a = true := by
    refine occursIn_iff.mpr ⟨x, y, ha, ?_⟩
    rw [ne_eq, ← readings_eq_nil_iff]
    exact List.ne_nil_of_mem hs
  rw [nameSpans, hoccurs, List.contains_iff_mem.mpr hb] at h
  cases h

/-- The tables on either side of a semicolon do not depend on each other. -/
theorem parse_append_semicolon (h : nameSpans a b = false) :
    (parse (a ++ ';' :: b)).tables = (parse a).tables ++ (parse b).tables := by
  have hconsumes : tableBlock.Consumes := consumes_of_not_nullable (by decide)
  have hfound := (staysWithin_tableBlock h).found_append (by decide) hconsumes none
  have hskip : tableBlock.found none (';' :: b) = tableBlock.found none b := by
    rw [found_of_none (read?_eq_none_of_starts (by decide) (stops_cons.mpr (by decide)))]
    exact found_before (by decide) b (some ';') none
  have htables := congrArg (List.map tableOf) hfound
  rw [hskip, List.map_append, List.map_map, List.map_map, List.map_map] at htables
  rw [parse_tables, parse_tables, parse_tables]
  exact htables

theorem parse_nil : (parse []).tables = [] := rfl

theorem intercalate_semicolon (a b : Text) (texts : List Text) :
    [';'].intercalate (a :: b :: texts) = a ++ ';' :: [';'].intercalate (b :: texts) := by
  simp [List.intercalate]

theorem mem_intercalate_semicolon {c : Char} (hc : c ≠ ';') {texts : List Text}
    (h : c ∈ [';'].intercalate texts) : ∃ t ∈ texts, c ∈ t := by
  induction texts with
  | nil => cases h
  | cons a texts ih =>
      cases texts with
      | nil => exact ⟨a, List.mem_singleton_self a, by simpa [List.intercalate] using h⟩
      | cons b texts =>
          rw [intercalate_semicolon] at h
          rcases List.mem_append.mp h with h | h
          · exact ⟨a, List.mem_cons_self, h⟩
          · rcases List.mem_cons.mp h with h | h
            · exact absurd h hc
            · obtain ⟨t, ht, hmem⟩ := ih h
              exact ⟨t, List.mem_cons_of_mem a ht, hmem⟩

/-- A name that spans the semicolon behind `a` ends in one of the texts that follow. -/
theorem nameSpans_intercalate {texts : List Text} (h : ∀ t ∈ texts, nameSpans a t = false) :
    nameSpans a ([';'].intercalate texts) = false := by
  cases hspans : nameSpans a ([';'].intercalate texts) with
  | false => rfl
  | true =>
      obtain ⟨hbroken, hquote⟩ := Bool.and_eq_true_iff.mp hspans
      obtain ⟨t, ht, hmem⟩ := mem_intercalate_semicolon (by decide) (List.contains_iff_mem.mp hquote)
      have ht := h t ht
      rw [nameSpans, hbroken, List.contains_iff_mem.mpr hmem] at ht
      cases ht

/-- A dump is read statement by statement: whatever stands before a semicolon, complete or not,
neither adds to the tables behind it nor takes from them. -/
theorem parse_statements :
    (∀ a b : Text, nameSpans a b = false →
      (parse (a ++ ';' :: b)).tables = (parse a).tables ++ (parse b).tables) ∧
    ∀ texts : List Text, texts.Pairwise (fun a b => nameSpans a b = false) →
      (parse ([';'].intercalate texts)).tables = texts.flatMap fun t => (parse t).tables := by
  refine ⟨fun a b h => parse_append_semicolon h, ?_⟩
  intro texts h
  induction texts with
  | nil => exact parse_nil
  | cons a texts ih =>
      obtain ⟨ha, htexts⟩ := List.pairwise_cons.mp h
      cases texts with
      | nil => simp [List.intercalate]
      | cons b texts =>
          rw [intercalate_semicolon, parse_append_semicolon (nameSpans_intercalate ha), ih htexts]
          rfl

/-- A statement that breaks off leaves the one behind it alone. -/
theorem broken_statement_is_local :
    nameSpans "CREATE TABLE t (id int".toList
        "CREATE TABLE `u` (`id` int) ENGINE=InnoDB".toList = false ∧
      (parse ("CREATE TABLE t (id int".toList ++
        ';' :: "CREATE TABLE `u` (`id` int) ENGINE=InnoDB".toList)).tables =
        (parse "CREATE TABLE t (id int".toList).tables ++
          (parse "CREATE TABLE `u` (`id` int) ENGINE=InnoDB".toList).tables :=
  ⟨by decide, parse_statements.1 _ _ (by decide)⟩

end SchemaDump.MySQL
