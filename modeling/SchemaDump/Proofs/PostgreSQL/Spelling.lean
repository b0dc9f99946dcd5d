import SchemaDump.Proofs.Pattern.WordAhead
import SchemaDump.Proofs.PostgreSQL.KeyLine
/- The ways to write the name of a table. A schema may stand in front of it, and both may be quoted. Two
ways to write a name mean the same table if and only if they are the same once they are normalized. -/
namespace SchemaDump.PostgreSQL
open SqlPattern Pattern

variable {q : SqlPattern} {v : Text} {word : String}

/-- One part of a name: bare, or in double quotes. -/
inductive NamePart
  | bare (text : Text) (nonempty : text ≠ []) (chars : ∀ c ∈ text, isBareChar c)
  | quoted (text : Text) (nonempty : text ≠ []) (chars : ∀ c ∈ text, c ≠ '"' ∧ c ≠ backQuote ∧ c ≠ '.')

namespace NamePart

def content : NamePart → Text
  | bare text _ _ => text
  | quoted text _ _ => text

def text : NamePart → Text
  | bare text _ _ => text
  | quoted text _ _ => '"' :: (text ++ ['"'])

end NamePart

/-- A table as a statement names it, with or without its schema. -/
structure Spelling where
  schema : Option NamePart
  name : NamePart

namespace Spelling

def schemaText : Option NamePart → Text
  | none => []
  | some schema => schema.text ++ ['.']

def text (s : Spelling) : Text := schemaText s.schema ++ s.name.text

/-- The schema and the name of the table that is meant. A table without a schema is in the default one. -/
def address (s : Spelling) : Text × Text :=
  (match s.schema with
    | none => Dialect.postgresql.defaultSchema.toList
    | some schema => schema.content,
   s.name.content)

def shortName (address : Text × Text) : Text :=
  if address.1 = Dialect.postgresql.defaultSchema.toList then address.2 else address.1 ++ '.' :: address.2

end Spelling

theorem ne_of_isBareChar {c d : Char} (hd : isBareChar d = false) (hc : isBareChar c) : c ≠ d := by
  rintro rfl
  rw [hc] at hd
  cases hd

namespace NamePart

variable (p : NamePart)

theorem content_ne_nil : p.content ≠ [] := by
  cases p with
  | bare text nonempty _ => exact nonempty
  | quoted text nonempty _ => exact nonempty

theorem content_chars : ∀ c ∈ p.content, c ≠ '"' ∧ c ≠ backQuote ∧ c ≠ '.' := by
  cases p with
  | bare text _ chars =>
      intro c hc
      have h := chars c hc
      exact ⟨ne_of_isBareChar (by decide) h, ne_of_isBareChar (by decide) h, ne_of_isBareChar (by decide) h⟩
  | quoted text _ chars => exact chars

theorem text_filter : p.text.filter (fun c => c != '"' && c != backQuote) = p.content := by
  have hcontent : p.content.filter (fun c => c != '"' && c != backQuote) = p.content := by
    rw [List.filter_eq_self]
    intro c hc
    obtain ⟨hdouble, hback, -⟩ := p.content_chars c hc
    simp [hdouble, hback]
  cases p with
  | bare text _ _ => exact hcontent
  | quoted text nonempty chars =>
      rw [content] at hcontent
      simp [NamePart.text, content, List.filter_append, hcontent]

theorem text_ne_nil : p.text ≠ [] := by
  cases p with
  | bare text nonempty _ => exact nonempty
  | quoted text _ _ => exact List.cons_ne_nil _ _

theorem trimmed_text : Trimmed p.text := by
  cases p with
  | bare text _ chars =>
      have hsolid : ∀ c ∈ text, isBlank c = false := by
        intro c hc
        apply Bool.eq_false_iff.mpr
        intro hblank
        have hbare := isBareChar_eq_false_of_isBlank hblank
        rw [chars c hc] at hbare
        cases hbare
      exact ⟨fun c hc => hsolid c (List.mem_of_mem_head? hc), fun c hc => hsolid c (List.mem_of_getLast? hc)⟩
  | quoted text _ _ =>
      have hquote : EndsSolid ['"'] := by decide
      exact (hquote.behind (by decide) ('"' :: text)).trimmed fun c hc => Option.some.inj hc ▸ by decide

theorem isIdentifier : IsIdentifier p.text := by
  cases p with
  | bare text nonempty chars => exact isIdentifier_bare nonempty chars
  | quoted text nonempty chars =>
      exact isIdentifier_quoted (.inl rfl) nonempty fun hmem => (chars _ hmem).1 rfl

end NamePart

namespace Spelling

variable (s t : Spelling)

theorem isQualified : IsQualified s.text := by
  rw [Spelling.text]
  cases s.schema with
  | none => exact s.name.isIdentifier.isQualified
  | some schema =>
      rw [schemaText, List.append_assoc]
      exact schema.isIdentifier.qualified s.name.isIdentifier

theorem trimmed_text : Trimmed s.text := by
  have hhead : ∀ (p : NamePart) v, ∀ c ∈ (p.text ++ v).head?, isBlank c = false := by
    intro p v c hc
    obtain ⟨d, rest, hd⟩ := List.exists_cons_of_ne_nil p.text_ne_nil
    rw [hd] at hc
    exact p.trimmed_text.1 c (by rw [hd]; exact hc)
  refine ⟨?_, ?_⟩
  · rw [Spelling.text]
    cases s.schema with
    | none => exact s.name.trimmed_text.1
    | some schema =>
        rw [schemaText, List.append_assoc]
        exact hhead schema _
  · intro c hc
    obtain ⟨d, hd⟩ := Option.ne_none_iff_exists'.mp (mt List.getLast?_eq_none_iff.mp s.name.text_ne_nil)
    rw [Spelling.text, List.getLast?_append, hd] at hc
    exact s.name.trimmed_text.2 c (hd.trans hc)

theorem unquote_text : unquote s.text = match s.schema with
    | none => s.name.content
    | some schema => schema.content ++ '.' :: s.name.content := by
  rw [unquote, s.trimmed_text.trim_eq, Spelling.text, List.filter_append, s.name.text_filter]
  cases s.schema with
  | none => rfl
  | some schema =>
      rw [schemaText, List.filter_append, schema.text_filter, List.append_assoc]
      rfl

theorem dot_not_mem_content (p : NamePart) : '.' ∉ p.content := fun hmem => (p.content_chars _ hmem).2.2 rfl

theorem dot_not_mem_address : '.' ∉ s.address.1 ∧ '.' ∉ s.address.2 := by
  have hdefault : '.' ∉ Dialect.postgresql.defaultSchema.toList := by decide
  refine ⟨?_, dot_not_mem_content s.name⟩
  rw [address]
  cases s.schema with
  | none => exact hdefault
  | some schema => exact dot_not_mem_content schema

theorem dropPrefix?_schema {schema name : Text} (h : ∀ rest, name ≠ schema ++ '.' :: rest) :
    Text.dropPrefix? (schema ++ ['.']) name = none := by
  cases hd : Text.dropPrefix? (schema ++ ['.']) name with
  | none => rfl
  | some rest =>
      have hname := Target.eq_append_of_dropPrefix? hd
      rw [List.append_assoc] at hname
      exact absurd hname (h rest)

/-- A name is normalized without its quotes, and without the default schema if something stands behind it. -/
theorem normalizeName_eq (raw : Text) : Dialect.postgresql.normalizeName raw =
    match Text.dropPrefix? ("public".toList ++ ['.']) (unquote raw) with
    | some (c :: rest) => .ofList (c :: rest)
    | _ => .ofList (unquote raw) := by
  have hnonempty : ¬("public".toList).isEmpty = true := by decide
  rw [Dialect.normalizeName]
  exact if_neg hnonempty

/-- However a table is spelled, its normalized name is told from its address. -/
theorem normalizeName_text : Dialect.postgresql.normalizeName s.text = .ofList (shortName s.address) := by
  have hdefault : Dialect.postgresql.defaultSchema.toList = "public".toList := rfl
  have hpublic : '.' ∉ "public".toList := by decide
  rw [normalizeName_eq, s.unquote_text, shortName, address, hdefault]
  -- of the default schema only the missing dot matters
  generalize "public".toList = default at hpublic ⊢
  cases s.schema with
  | none =>
      have hkept := @dropPrefix?_schema default s.name.content fun rest heq =>
        dot_not_mem_content s.name (heq ▸ List.mem_append_right _ List.mem_cons_self)
      rw [if_pos rfl, hkept]
  | some schema =>
      by_cases hschema : schema.content = default
      · obtain ⟨c, rest, hname⟩ := List.exists_cons_of_ne_nil s.name.content_ne_nil
        have hdrop := Target.dropPrefix?_self_append (default ++ ['.']) s.name.content
        rw [List.append_assoc, List.singleton_append, hname] at hdrop
        simp only [hschema, hname, hdrop, if_true]
      · have hkept := @dropPrefix?_schema default (schema.content ++ '.' :: s.name.content) fun rest heq =>
          hschema (append_cons_inj (dot_not_mem_content schema) hpublic heq).1
        simp only [hkept, hschema, if_false]

theorem shortName_inj {a b : Text × Text} (ha : '.' ∉ a.1 ∧ '.' ∉ a.2) (hb : '.' ∉ b.1 ∧ '.' ∉ b.2)
    (h : shortName a = shortName b) : a = b := by
  have hdot : ∀ {t u v : Text}, '.' ∉ t → t ≠ u ++ '.' :: v := fun ht heq =>
    ht (heq ▸ List.mem_append_right _ List.mem_cons_self)
  rw [shortName, shortName] at h
  split at h
  · next hdefault =>
    split at h
    · next hother => exact Prod.ext (hdefault.trans hother.symm) h
    · exact absurd h (hdot ha.2)
  · split at h
    · exact absurd h.symm (hdot hb.2)
    · obtain ⟨hschema, hname⟩ := append_cons_inj ha.1 hb.1 h
      exact Prod.ext hschema hname

/-- Two ways to write a table are normalized to the same name if and only if they mean the same table. -/
theorem normalizeName_eq_iff :
    Dialect.postgresql.normalizeName s.text = Dialect.postgresql.normalizeName t.text ↔
      s.address = t.address := by
  rw [normalizeName_text, normalizeName_text]
  constructor
  · intro h
    exact shortName_inj s.dot_not_mem_address t.dot_not_mem_address (String.ofList_injective h)
  · intro h
    rw [h]

end Spelling

/-- One part of a name is read as a keyword only if it is the keyword. -/
theorem NamePart.rejects_keyword (n : NamePart) (hword : ∀ c ∈ word.toList, c.isAlpha) (hne : word.toList ≠ [])
    (hv : Stops isWordChar v) (h : (blanks ++ q).Rejects v) :
    (Pattern.keyword word ++ (blanks ++ q)).Rejects (n.text ++ v) := by
  cases n with
  | quoted text _ _ =>
      obtain ⟨letter, letters, hletters⟩ := List.exists_cons_of_ne_nil hne
      have halpha := hword letter (by rw [hletters]; exact List.mem_cons_self)
      have hquote : (keyword word : SqlPattern).Rejects ('"' :: (text ++ ['"'] ++ v)) :=
        .keyword hletters (stops_cons.mpr (sameLetter_eq_false halpha (by decide)))
      exact hquote.seq _
  | bare text _ chars =>
      -- a bare name may go on behind its letters
      have hsplit : text ++ v = text.takeWhile isWordChar ++ (text.dropWhile isWordChar ++ v) := by
        rw [← List.append_assoc, List.takeWhile_append_dropWhile]
      have hall : ∀ c ∈ text.takeWhile isWordChar, isWordChar c := 
        List.all_eq_true.mp List.all_takeWhile
      rw [NamePart.text, hsplit]
      cases hrest : text.dropWhile isWordChar with
      | nil => exact read?_keyword_seq_eq_none hword hne (endsWord_blanks.seq q) hall hv (.inr h)
      | cons c rest =>
          have hend : isWordChar c = false := by
            have hhead := List.head?_dropWhile_not isWordChar text
            rw [hrest] at hhead
            simpa using hhead
          have hsolid : isBlank c = false := by
            apply Bool.eq_false_iff.mpr
            intro hblank
            have hc := chars c ((List.dropWhile_suffix isWordChar).subset (hrest ▸ List.mem_cons_self))
            rw [isBareChar_eq_false_of_isBlank hblank] at hc
            cases hc
          exact read?_keyword_seq_eq_none hword hne (endsWord_blanks.seq q) hall (stops_cons.mpr hend)
            (.inr (rejects_blanks (stops_cons.mpr hsolid)))

theorem Spelling.rejects_keyword (n : Spelling) (hword : ∀ c ∈ word.toList, c.isAlpha) (hne : word.toList ≠ [])
    (hv : Stops isWordChar v) (h : (blanks ++ q).Rejects v) :
    (Pattern.keyword word ++ (blanks ++ q)).Rejects (n.text ++ v) := by
  rw [Spelling.text]
  cases n.schema with
  | none => exact n.name.rejects_keyword hword hne hv h
  | some schema =>
      have hdot : (blanks ++ q).Rejects ('.' :: (n.name.text ++ v)) := rejects_blanks (stops_cons.mpr (by decide))
      have hschema := schema.rejects_keyword hword hne (stops_cons.mpr (by decide)) hdot
      simpa only [Spelling.schemaText, List.append_assoc, List.cons_append, List.nil_append] using hschema

/-- A name as it stands in a dump, as one part of a spelling. -/
def Name.part : Name → NamePart
  | bare word => .bare word.text word.nonempty fun c hc => by simp [isBareChar, word.chars c hc]
  | quoted text nonempty chars _ => .quoted text nonempty fun c hc => by
      rcases chars c hc with h | rfl
      · exact ⟨ne_of_isWordChar (by decide) h, ne_of_isWordChar (by decide) h, ne_of_isWordChar (by decide) h⟩
      · decide

theorem Name.text_part (n : Name) : n.part.text = n.text := by
  cases n <;> rfl

theorem public_ne_nil : "public".toList ≠ [] := by
  decide

/-- The schema of a table that names none. -/
def barePublic : NamePart := .bare "public".toList public_ne_nil (by decide)

def Target.spelling (t : Target) : Spelling := ⟨if t.qualified then some barePublic else none, t.name.part⟩

theorem Target.text_spelling (t : Target) : t.spelling.text = t.text := by
  rw [Spelling.text, Target.text, ← t.name.text_part, Target.spelling]
  cases t.qualified <;> rfl

end SchemaDump.PostgreSQL
