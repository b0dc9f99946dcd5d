import SchemaDump.Proofs.MySQL.Body
import SchemaDump.Proofs.MySQL.BodyEnd
/- Reading a statement that creates a table: the block takes its name and its body and stops
behind the mention of the storage engine. -/
namespace SchemaDump.MySQL
open SqlPattern Pattern

variable {before : Option Char} {u v : Text}

theorem reads_bodyEnd (v : Text) : bodyEnd.Reads ") ENGINE=".toList v [] := by
  have hgap : ∀ c w, isBlank c = false → (gap : SqlPattern).Reads [' '] (c :: w) [] :=
    fun c w hc => reads_gap (stops_cons.mpr hc)
  have hempty : ∀ w, (gap : SqlPattern).Reads [] ('=' :: w) [] :=
    fun w => reads_no_gap (stops_cons.mpr (by decide))
  have htext : ")".toList ++ ([' '] ++ ("ENGINE".toList ++ ([] ++ "=".toList))) = ") ENGINE=".toList := by
    decide
  rw [← htext]
  exact (reads_literal ")" _).seq ((hgap 'E' _ (by decide)).seq ((reads_keyword "ENGINE" _).seq
    ((hempty _).seq (reads_literal "=" v))))

def openingText (temporary ifNotExists : Bool) : Text :=
  "CREATE".toList ++ ([' '] ++ (TableStatement.temporaryText temporary ++ ("TABLE".toList ++ ([' '] ++
    TableStatement.existsText ifNotExists))))

/-- The text of a statement with some body, up to the engine's name. -/
def blockText (temporary ifNotExists : Bool) (name : Name) (body : Text) : Text :=
  openingText temporary ifNotExists ++ (name.quoted ++ ([' '] ++ (['('] ++ (body ++ ") ENGINE=".toList))))

def statementText (temporary ifNotExists : Bool) (name : Name) (body options : Text) : Text :=
  blockText temporary ifNotExists name body ++ ("InnoDB".toList ++ (options ++ [';']))

theorem TableStatement.text_eq (t : TableStatement) :
    t.text = statementText t.temporary t.ifNotExists t.name t.body t.options := by
  have hopening : t.opening = openingText t.temporary t.ifNotExists := rfl
  simp [text, header, statementText, blockText, hopening]

theorem reads_temporary (temporary : Bool) (v : Text) :
    (maybe (keyword "TEMPORARY" ++ blanks) : SqlPattern).Reads (TableStatement.temporaryText temporary)
      ("TABLE".toList ++ v) [] := by
  cases temporary with
  | false =>
      have hkeyword : (keyword "TEMPORARY" : SqlPattern).Rejects ("TABLE".toList ++ v) :=
        .of_clash (by decide) v
      exact reads_missing (hkeyword.seq _)
  | true =>
      have hblanks : (blanks : SqlPattern).Reads [' '] ("TABLE".toList ++ v) [] :=
        reads_blanks (stops_cons.mpr (by decide))
      exact ((reads_keyword "TEMPORARY" _).seq hblanks).maybe

theorem reads_exists (ifNotExists : Bool) {c : Char} (hblank : isBlank c = false)
    (hletter : sameLetter 'I' c = false) (v : Text) :
    (maybe (phrase ["IF", "NOT", "EXISTS"] ++ blanks) : SqlPattern).Reads
      (TableStatement.existsText ifNotExists) (c :: v) [] := by
  cases ifNotExists with
  | false =>
      have hkeyword : (keyword "IF" : SqlPattern).Rejects (c :: v) :=
        .keyword rfl (stops_cons.mpr hletter)
      exact reads_missing (((hkeyword.seq _).seq _).seq _)
  | true =>
      have hblanks : (blanks : SqlPattern).Reads [' '] (c :: v) [] :=
        reads_blanks (stops_cons.mpr hblank)
      have hphrase : (phrase ["IF", "NOT", "EXISTS"] : SqlPattern).Reads
          (spacedWords ["IF", "NOT", "EXISTS"]) ([' '] ++ c :: v) [] :=
        reads_phrase (by decide) (by decide) _
      exact (hphrase.seq hblanks).maybe

theorem reads_tableOpening (temporary ifNotExists : Bool) (name : Name) (v : Text) :
    tableOpening.Reads (openingText temporary ifNotExists) (name.quoted ++ v) [] := by
  have hexists : (maybe (phrase ["IF", "NOT", "EXISTS"] ++ blanks) : SqlPattern).Reads
      (TableStatement.existsText ifNotExists) (name.quoted ++ v) [] :=
    reads_exists ifNotExists (by decide) (by decide) _
  have hspace : (blanks : SqlPattern).Reads [' ']
      (TableStatement.existsText ifNotExists ++ (name.quoted ++ v)) [] := by
    apply reads_blanks
    cases ifNotExists <;> exact stops_cons.mpr (by decide)
  have htable := (reads_keyword "TABLE" _).seq (hspace.seq hexists)
  have htemporary : ∀ w, (maybe (keyword "TEMPORARY" ++ blanks) : SqlPattern).Reads
      (TableStatement.temporaryText temporary) (("TABLE".toList ++ w) ++ (name.quoted ++ v)) [] := by
    intro w
    rw [List.append_assoc]
    exact reads_temporary temporary _
  have hfirst : ∀ w, (blanks : SqlPattern).Reads [' ']
      ((TableStatement.temporaryText temporary ++ ("TABLE".toList ++ w)) ++ (name.quoted ++ v)) [] := by
    intro w
    apply reads_blanks
    cases temporary <;> exact stops_cons.mpr (by decide)
  simp only [tableOpening, reads_assoc]
  exact (reads_keyword "CREATE" _).seq ((hfirst _).seq ((htemporary _).seq htable))

theorem reads_tableName (n : Name) {v : Text} (hv : Stops (· == '.') v) :
    tableName.Reads n.quoted v [] := by
  have hquoted : tableIdentifier.Reads n.quoted v [] :=
    (reads_within (reads_unquotedRun n.nonempty (n.not_mem (by decide) (by decide)) _)).preferred _
  have hdot : (literal "." : SqlPattern).Rejects v := by
    refine .of_starts rfl ?_
    intro c hc
    have hne := hv c hc
    simpa [literal] using hne
  have h := hquoted.seq (reads_missing (hdot.seq tableIdentifier))
  rwa [List.append_nil] at h

/-- What a statement is read as, up to the engine's name, if nothing in its body ends it. -/
theorem reads_blockText (temporary ifNotExists : Bool) (name : Name) {body : Text} (hne : body ≠ [])
    (hsemicolon : ∀ c ∈ body, c ≠ ';') (hbody : ∀ before, bodyEnd.Silent before body (") ENGINE=".toList ++ v)) :
    tableBlock.Reads (blockText temporary ifNotExists name body) v
      [(Part.body, body), (Part.name, name.quoted)] := by
  have hgap : ∀ w, (gap : SqlPattern).Reads [' '] ('(' :: w) [] :=
    fun w => reads_gap (stops_cons.mpr (by decide))
  have hopen : ∀ w, (literal "(" : SqlPattern).Reads ['('] w [] := fun w => reads_literal "(" w
  have hname : ∀ w, tableName.Reads name.quoted (' ' :: w) [] :=
    fun w => reads_tableName name (stops_cons.mpr (by decide))
  have hopening : ∀ w, tableOpening.Reads (openingText temporary ifNotExists) ((name.quoted ++ w) ++ v) [] := by
    intro w
    rw [List.append_assoc]
    exact reads_tableOpening temporary ifNotExists name _
  have hread : (part Part.body (run1 (· != ';') .shortest) ++ bodyEnd).Reads (body ++ ") ENGINE=".toList) v
      [(Part.body, body)] :=
    reads_shortest hne (fun c hc => bne_iff_ne.mpr (hsemicolon c hc)) hbody (reads_bodyEnd v)
  have hafter : afterName.Reads ([' '] ++ (['('] ++ (body ++ ") ENGINE=".toList))) v
      [(Part.body, body)] := (hgap _).seq ((hopen _).seq hread)
  have hall := (hopening _).seq (((hname _).part Part.name).seq hafter)
  intro before
  have hblock := hall before
  rw [read?] at hblock ⊢
  rw [readings_tableBlock]
  exact hblock

theorem tableOf_parts (t : TableStatement) :
    tableOf [(Part.body, t.body), (Part.name, t.name.quoted)] = t.table := by
  rw [← t.table_eq, ← t.name.normalize_eq]
  rfl

theorem silent_tableBlock (h : (keyword "CREATE" : SqlPattern).Silent before u v) :
    tableBlock.Silent before u v := by
  rw [silent_iff] at h ⊢
  intro x y hu hy
  have hnone := h x y hu hy
  rw [read?, readings_tableBlock, ← read?]
  refine read?_seq_none ?_
  rw [tableOpening]
  exact read?_seq_none (read?_seq_none (read?_seq_none (read?_seq_none (read?_seq_none hnone))))

theorem silent_filler (f : Filler) : tableBlock.Silent before f.text v :=
  silent_tableBlock (silent_keyword (by decide) f.plain (.inr f.detached))

theorem silent_options {options : Text} (hplain : hasSpelling "CREATE" options = false) :
    tableBlock.Silent before ("InnoDB".toList ++ (options ++ [';'])) v := by
  have hstarts : ∀ {u : Text}, (∀ c ∈ u, (keyword "CREATE" : SqlPattern).starts c = false) →
      ∀ {before v}, tableBlock.Silent before u v :=
    fun hu => silent_tableBlock (silent_of_starts rfl hu)
  have hoptions : ∀ before, tableBlock.Silent before options (';' :: v) := fun before =>
    silent_tableBlock (silent_keyword (by decide) hplain (.inl (stops_cons.mpr (by decide))))
  exact (hstarts (by decide)).append ((hoptions _).append (hstarts (by decide)))

/-- The text is read as one block with these parts, wherever it stands. -/
def FoundAs (t : Text) (parts : List (Part × Text)) : Prop :=
  ∀ before v, ∃ r after, tableBlock.found before (t ++ v) = r :: tableBlock.found after v ∧ r.parts = parts

theorem foundAs_statementText (temporary ifNotExists : Bool) (name : Name) {body options : Text}
    (hne : body ≠ []) (hsemicolon : ∀ c ∈ body, c ≠ ';')
    (hbody : ∀ before v, bodyEnd.Silent before body (") ENGINE=".toList ++ v))
    (hplain : hasSpelling "CREATE" options = false) :
    FoundAs (statementText temporary ifNotExists name body options)
      [(Part.body, body), (Part.name, name.quoted)] := by
  intro before v
  have hconsumes : tableBlock.Consumes := consumes_of_not_nullable rfl
  have hread := reads_blockText (v := ("InnoDB".toList ++ (options ++ [';'])) ++ v) temporary ifNotExists name
    hne hsemicolon (fun before => hbody before _) before
  have hfound := found_of_read? hconsumes hread
  rw [found_append_of_silent (silent_options hplain)] at hfound
  rw [statementText, List.append_assoc]
  exact ⟨_, _, hfound, rfl⟩

theorem foundAs_text (t : TableStatement) :
    FoundAs t.text [(Part.body, t.body), (Part.name, t.name.quoted)] := by
  rw [t.text_eq]
  exact foundAs_statementText t.temporary t.ifNotExists t.name t.body_ne_nil t.no_semicolon_body
    (fun _ _ => silent_body t _) t.optionsPlain

/-- Statements are found in their order, whatever stands between them. -/
theorem found_statements {σ : Type} {text : σ → Text} {parts : σ → List (Part × Text)}
    (h : ∀ s, FoundAs (text s) (parts s)) (statements : List (Filler × σ)) (trailer : Filler)
    (before : Option Char) :
    (tableBlock.found before
        (statements.flatMap (fun s => s.1.text ++ text s.2) ++ trailer.text)).map (·.parts) =
      statements.map fun s => parts s.2 := by
  induction statements generalizing before with
  | nil =>
      have hsilent : tableBlock.Silent before trailer.text [] := silent_filler trailer
      have hnil : tableBlock.found before trailer.text = [] := found_eq_nil_of_silent hsilent
      simpa using hnil
  | cons s statements ih =>
      obtain ⟨r, after, hfound, hparts⟩ := h s.2 (lastOf before s.1.text)
        (statements.flatMap (fun s => s.1.text ++ text s.2) ++ trailer.text)
      rw [List.flatMap_cons, List.append_assoc, List.append_assoc,
        found_append_of_silent (silent_filler s.1), hfound, List.map_cons, ih, hparts]
      rfl

end SchemaDump.MySQL
