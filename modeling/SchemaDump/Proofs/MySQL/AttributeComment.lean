import SchemaDump.Proofs.Definition.Taking
import SchemaDump.Proofs.MySQL.OptionMark
import SchemaDump.Proofs.Pattern.Find
import SchemaDump.Proofs.Pattern.Keyword
import SchemaDump.Proofs.Pattern.Seam
/- The comment among attributes. It is cut out wherever it stands: nothing else reads as one, since what the other
attributes say opens none and no literal in front of a quote ends with the opening of one. -/
namespace SchemaDump.MySQL
open SqlPattern Pattern
open PostgreSQL (Word)

variable {n : Nesting} {before : Option Char} {t u v w : Text} {r : Match Part} {a : Attribute}
  {attributes : List Attribute}

/-- Without another quote behind it a quote opens no literal. -/
theorem rejects_quoted (hv : '\'' ∉ v) : (within '\'' (literalText '\'')).Rejects ('\'' :: v) := by
  intro before
  rw [Option.eq_none_iff_forall_ne_some]
  intro r hr
  obtain ⟨a, ha, b, hb, -⟩ := mem_readings_seq.mp (mem_of_read? hr)
  obtain ⟨d, hd, e, he, rfl⟩ := mem_readings_seq.mp ha
  obtain ⟨c, -, -, -, hopen⟩ := mem_readings_one hd
  obtain ⟨k, hk, -, -, hclose⟩ := mem_readings_one hb
  obtain ⟨-, rfl⟩ := List.cons.inj hopen
  rw [beq_iff_eq.mp hk] at hclose
  have hrest : e.rest = '\'' :: b.rest := hclose
  exact hv (readings_text _ _ _ e he ▸ List.mem_append_right _ (hrest ▸ List.mem_cons_self))

namespace ColumnOption

variable (o : ColumnOption)

theorem endsSolid : EndsSolid o.text := by
  cases o with
  | notNull => decide
  | primaryKey => decide
  | autoIncrement => decide
  | default d => exact d.isDefault.solid.behind d.isDefault.nonempty " DEFAULT ".toList
  | comment l => exact (endsSolid_quoted l).behind (List.cons_ne_nil _ _) " COMMENT ".toList

end ColumnOption

theorem encloses_commentClause : Encloses commentClause isBlank "COMMENT" :=
  encloses_commentOpening (within '\'' (literalText '\''))

/-- Nothing in a content opens a comment, unless the quote behind it is taken for the one that the comment
starts with. -/
theorem silent_content (content : Content)
    (h : (commentOpening ++ textEnd).occursIn content.text = false ∨ '\'' ∉ v) :
    commentClause.Silent before content.text ('\'' :: v) := by
  rw [silent_iff]
  intro x y hxy _
  refine read?_seq_eq_none.mpr fun a ha => ?_
  have hstays : commentOpening.Confined y ('\'' :: v) := confined_of_not_mentioned rfl
  obtain ⟨z, rfl, hrest⟩ := exists_of_length_le (readings_text _ _ _ a ha) (hstays [] y rfl _ a ha)
  rw [hrest]
  cases z with
  | cons c z =>
      have hquote : c ≠ '\'' := (content.chars c (by rw [hxy]; simp)).1
      exact Rejects.of_starts rfl (stops_cons.mpr (by simpa [within, append_eq_seq, starts, nullable] using hquote)) _
  | nil =>
      rcases h with h | h
      · have hnone := occursIn_eq_false_iff.mp h x a.read (by simpa using hxy)
        exact absurd hnone (read?_textEnd_ne_none rfl ha _)
      · exact rejects_quoted h _

namespace Attribute

theorem endsSolid_word (word : Word) : EndsSolid word.text :=
  endsSolid_of_forall fun c hc => solid_of_isWordChar (word.chars c hc)

theorem endsSolid (a : Attribute) : EndsSolid a.text := by
  cases a with
  | option o => exact o.endsSolid
  | null => decide
  | collate word => exact (endsSolid_word word).behind word.nonempty " COLLATE ".toList
  | references r =>
      have hclose : EndsSolid [')'] := by decide
      have hlist : EndsSolid ('(' :: (r.column.text ++ [')'])) := hclose.behind (by decide) ('(' :: r.column.text)
      have hgap : EndsSolid (r.gap.text ++ '(' :: (r.column.text ++ [')'])) := hlist.behind (List.cons_ne_nil _ _) _
      have htable := hgap.behind (List.append_ne_nil_of_right_ne_nil _ (List.cons_ne_nil _ _)) (' ' :: r.table.text)
      have hfront : EndsSolid r.front := htable.behind (List.cons_ne_nil _ _) "REFERENCES".toList
      have hactions : EndsSolid (actionText r.actions) := by
        refine endsSolid_flatMap (fun action => ?_) _
        obtain ⟨event, outcome⟩ := action
        cases event <;> cases outcome <;> decide
      have hreference : EndsSolid ([' '] ++ (r.front ++ actionText r.actions)) :=
        (hfront.append hactions).behind (List.cons_ne_nil _ _) [' ']
      exact hreference
  | default d => exact d.isDefault.solid.behind d.isDefault.nonempty " DEFAULT ".toList

theorem last_solid (a : Attribute) : ∀ c ∈ a.text.getLast?, isBlank c = false := fun c hc => (a.endsSolid c hc).1

end Attribute

theorem stops_quote (hv : EndsPart v) : Stops (· == '\'') v := hv.stops (by decide)

/-- In front of the next attribute no comment opens that is not complete. -/
theorem staysWithin_commentQuote (hu : ∀ c ∈ u.getLast?, isBlank c = false) (hv : EndsPart v) :
    commentQuote.StaysWithin u v := by
  have hword : (keyword "COMMENT" : SqlPattern).Confined u v :=
    confined_keyword_of_stops (by decide) (hv.stops (by decide))
  have hquote : (literal "'" : SqlPattern).Confined u v := confined_mark rfl (stops_quote hv)
  have hrejects : (blanks ++ literal "'" : SqlPattern).Rejects v := by
    rcases hv with rfl | ⟨w, rfl⟩ | ⟨c, w, rfl, hc⟩
    · exact .of_starts rfl (stops_nil _)
    · exact .of_starts rfl (stops_cons.mpr (by decide))
    · have hc' : (c == '\'') = false := beq_eq_false_iff_ne.mpr (by rintro rfl; exact absurd hc (by decide))
      refine .blanks (stops_cons.mpr (isBlank_eq_false_of_isWordChar (isWordChar_of_isAlpha hc))) ?_
      exact .of_starts rfl (stops_cons.mpr (by simpa [literal] using hc'))
  have hend : (blanks ++ literal "'" : SqlPattern).Confined u v := by
    intro x y hxy before r hr
    by_cases hy : y = []
    · rw [hy, List.nil_append, readings_eq_nil_iff.mpr (hrejects before)] at hr
      cases hr
    · exact (staysWithin_blanks hu).seq hquote x y hxy hy before r hr
  refine (((staysWithin_blanks hu).seq hword).seq hend).congr fun before t => ?_
  rw [commentQuote, commentOpening, readings_seq_assoc]

theorem read?_commentClause_eq_none (h : commentQuote.read? before t = none) : commentClause.read? before t = none := by
  have hopens : ∀ before t, (literal "'" : SqlPattern).read? before t = none →
      (within '\'' (literalText '\'')).read? before t = none := by
    intro before t hnone
    refine read?_seq_none (read?_seq_none ?_)
    cases t with
    | nil => rfl
    | cons c t =>
        by_cases hc : c = '\''
        · have hread : (literal "'" : SqlPattern).read? before ('\'' :: t) = some ⟨['\''], [], t⟩ :=
            reads_literal "'" t before
          rw [hc, hread] at hnone
          cases hnone
        · exact read?_eq_none_of_starts rfl (stops_cons.mpr (by simpa [starts] using hc))
  rw [commentQuote, read?_seq_eq_none] at h
  exact read?_seq_eq_none.mpr fun m hm => hopens _ _ (h m hm)

theorem silent_comment (hu : ∀ c ∈ u.getLast?, isBlank c = false) (hno : commentQuote.occursIn u = false)
    (hv : EndsPart v) : commentClause.Silent before u v := by
  have hsilent : commentQuote.Silent before u v := (staysWithin_commentQuote hu hv).silent rfl hno
  rw [silent_iff] at hsilent ⊢
  exact fun x y hxy hy => read?_commentClause_eq_none (hsilent x y hxy hy)

theorem commentQuote_occursIn (hu : '\'' ∉ u) : commentQuote.occursIn u = false := by
  rw [occursIn_eq_false_iff]
  rintro x y rfl
  rw [commentQuote, read?_seq_eq_none]
  intro m hm
  rw [← readings_eq_nil_iff, List.eq_nil_iff_forall_not_mem]
  intro k hk
  obtain ⟨-, hread, htext⟩ := mem_readings_literal.mp hk
  have hrest : '\'' ∈ m.rest := htext ▸ hread ▸ List.mem_append_left _ (by decide)
  exact hu (List.mem_append_right x (readings_text _ _ _ m hm ▸ List.mem_append_right _ hrest))

namespace Attribute

/-- The default of an attribute if it is a literal. -/
def literal? : Attribute → Option Content
  | option (.default (.literal l)) => some l
  | _ => none

theorem eq_of_literal? {l : Content} (h : a.literal? = some l) : a = option (.default (.literal l)) := by
  cases a with
  | option o =>
      cases o with
      | default d =>
          cases d with
          | literal => rw [Option.some.inj h]
          | bare => cases h
      | _ => cases h
  | _ => cases h

theorem commentQuote_text (hkind : a.kind ≠ .option .comment) (hquiet : a.isQuiet) (h : a.literal? = none) :
    commentQuote.occursIn a.text = false := by
  cases a with
  | option o =>
      cases o with
      | default d =>
          cases d with
          | literal => cases h
          | bare token hne hchars =>
              refine commentQuote_occursIn fun hmem => ?_
              have htext : (option (.default (.bare token hne hchars))).text = " DEFAULT ".toList ++ token := rfl
              rw [htext] at hmem
              rcases List.mem_append.mp hmem with hmem | hmem
              · exact absurd hmem (by decide)
              · exact (bareDefault_char (hchars _ hmem)).1 rfl
      | comment => exact absurd rfl hkind
      | _ => exact commentQuote_occursIn (by decide)
  | null => exact commentQuote_occursIn (by decide)
  | collate word =>
      refine commentQuote_occursIn fun hmem => ?_
      rcases List.mem_append.mp (show '\'' ∈ " COLLATE ".toList ++ word.text from hmem) with hmem | hmem
      · exact absurd hmem (by decide)
      · exact absurd (word.chars _ hmem) (by decide)
  | references => simpa [isQuiet] using hquiet
  | default => simpa [isQuiet] using hquiet

theorem silent_commentClause (hkind : a.kind ≠ .option .comment) (hquiet : a.isQuiet) (hv : EndsPart v)
    (h : ∀ l ∈ a.literal?, (commentOpening ++ textEnd).occursIn l.text = false ∨ '\'' ∉ v) :
    commentClause.Silent before a.text v := by
  cases hliteral : a.literal? with
  | none => exact silent_comment a.last_solid (commentQuote_text hkind hquiet hliteral) hv
  | some l =>
      obtain rfl := eq_of_literal? hliteral
      have hsplit : (option (.default (.literal l))).text = " DEFAULT '".toList ++ (l.text ++ ['\'']) := rfl
      rw [hsplit, silent_append, silent_append]
      refine ⟨?_, silent_content l (h l hliteral), silent_of_starts rfl (by decide)⟩
      exact silent_of_hasWord encloses_commentClause (by decide) (by decide)
        (fun c hc => isWordChar_eq_false_of_isBlank hc) (by decide) (.inr (by decide)) (.inr (by decide))

end Attribute

theorem reads_commentClause (l : Content) (hv : EndsPart v) :
    commentClause.Reads (Attribute.option (.comment l)).text v [] := by
  have hblanks : ∀ c u, isBlank c = false → (blanks : SqlPattern).Reads [' '] (c :: u) [] :=
    fun c u hc => reads_blanks (stops_cons.mpr hc)
  have h := (((hblanks 'C' _ (by decide)).seq (reads_keyword "COMMENT" _)).seq
    (hblanks '\'' _ (by decide))).seq (reads_quoted l (hv.stops (by decide)))
  simpa [commentClause, Attribute.text, ColumnOption.text] using h

theorem Attribute.exists_eq_comment (h : a.kind = .option .comment) : ∃ l, a = option (.comment l) := by
  cases a with
  | option o =>
      cases o with
      | comment l => exact ⟨l, rfl⟩
      | _ => cases h
  | _ => cases h

theorem cut_of_silent (h : commentClause.Silent none t []) :
    cut t ((commentClause.occurrences t).map (·.toSpan)) = t := by
  rw [occurrences_eq_nil_of_silent h]
  rfl

theorem cut_at_comment (l : Content)
    (hu : commentClause.Silent none u ((Attribute.option (.comment l)).text ++ v)) (hahead : EndsPart v)
    (hv : ∀ before, commentClause.Silent before v []) :
    cut (u ++ ((Attribute.option (.comment l)).text ++ v))
      ((commentClause.occurrences (u ++ ((Attribute.option (.comment l)).text ++ v))).map (·.toSpan)) = u ++ v := by
  obtain ⟨o, ho, hreading, hbefore⟩ := occurrences_eq_singleton (consumes_of_not_nullable rfl) hu
    (reads_commentClause l hahead _) (hv _)
  have hafter : o.after = v := congrArg Match.rest hreading
  rw [ho, List.map_singleton, cut_singleton (by rw [ho]; exact List.mem_singleton_self o), hbefore, hafter]

/-- No quote in the text behind an attribute goes on with the opening of a comment that a default ends with. -/
def Attribute.Shuts (a : Attribute) (v : Text) : Prop :=
  ∀ l ∈ a.literal?, (commentOpening ++ textEnd).occursIn l.text = false ∨ '\'' ∉ v

instance (a : Attribute) (v : Text) : Decidable (a.Shuts v) :=
  inferInstanceAs (Decidable (∀ l ∈ a.literal?, (commentOpening ++ textEnd).occursIn l.text = false ∨ '\'' ∉ v))

theorem Attribute.Shuts.behind (hv : a.Shuts v) (h : ∀ next ∈ attributes, a.allows next) :
    a.Shuts (attributesText attributes ++ v) := by
  intro l hl
  by_cases hopen : (commentOpening ++ textEnd).occursIn l.text = false
  · exact .inl hopen
  · refine .inr fun hquote => ?_
    rcases List.mem_append.mp hquote with hquote | hquote
    · obtain ⟨next, hnext, hquote⟩ := List.mem_flatMap.mp hquote
      have hallows := h next hnext
      rw [Attribute.eq_of_literal? hl, Attribute.allows] at hallows
      exact hopen (by simpa [hquote] using hallows)
    · exact (hv l hl).elim hopen fun hno => hno hquote

theorem takes_comments (hquiet : ∀ a ∈ attributes, a.isQuiet)
    (hsettled : attributes.Pairwise fun a next => a.allows next) (hv : OptionsAhead v)
    (hshuts : ∀ a ∈ attributes, a.Shuts v) :
    ∃ found, commentClause.Takes (fun _ => true) v n before (attributesText attributes)
      (attributesText (attributes.filter fun a => a.kind ≠ .option .comment)) found := by
  induction attributes generalizing n before with
  | nil => exact ⟨false, .done⟩
  | cons a attributes ih =>
      obtain ⟨hquieta, hquiet⟩ := List.forall_mem_cons.mp hquiet
      obtain ⟨hallows, hsettled⟩ := List.pairwise_cons.mp hsettled
      obtain ⟨hshut, hshuts⟩ := List.forall_mem_cons.mp hshuts
      have hahead := endsPart_attributesText attributes hv
      obtain ⟨found, hrest⟩ : ∃ found, commentClause.Takes (fun _ => true) v (a.text.foldl Nesting.next n)
          (lastOf before a.text) (attributesText attributes)
          (attributesText (attributes.filter fun a => a.kind ≠ .option .comment)) found := ih hquiet hsettled hshuts
      rw [attributesText_cons, List.filter_cons]
      by_cases hkind : a.kind = .option .comment
      · obtain ⟨l, rfl⟩ := Attribute.exists_eq_comment hkind
        exact ⟨true || found, (takes_of_reads rfl (reads_commentClause l hahead)).append hrest⟩
      · have hsilent : commentClause.Silent before a.text (attributesText attributes ++ v) :=
          Attribute.silent_commentClause hkind hquieta hahead (hshut.behind hallows)
        rw [if_pos (by simpa using hkind), attributesText_cons]
        exact ⟨false || found, (takes_of_silent hsilent).append hrest⟩

def uncommented (t : Text) : Text := cut t ((commentClause.occurrences t).map (·.toSpan))

/-- Without its comment a column has only its marks and its default left, and what stands behind them. -/
theorem uncommented_attributes (hquiet : ∀ a ∈ attributes, a.isQuiet)
    (hsettled : attributes.Pairwise fun a next => a.allows next) (ht : IsTrail t)
    (hshuts : ∀ a ∈ attributes, a.Shuts t) :
    IsTrail (uncommented t) ∧ uncommented (attributesText attributes ++ t) =
      attributesText (attributes.filter fun a => a.kind ≠ .option .comment) ++ uncommented t := by
  obtain ⟨found, htakes⟩ := takes_comments hquiet hsettled ht.optionsAhead hshuts
  obtain ⟨hhead, hcut⟩ := cut_append (consumes_of_not_nullable rfl) (ht.rejects rfl rfl) htakes
  exact ⟨fun c hc => ht c (hhead ▸ hc), hcut⟩

end SchemaDump.MySQL
