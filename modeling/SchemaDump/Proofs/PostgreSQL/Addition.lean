import SchemaDump.Proofs.PostgreSQL.Alteration
import SchemaDump.Proofs.PostgreSQL.Silence
/- Reading a statement that adds a key to a table. It is read with the table as it is written, with keywords
in any letter case and any blanks between the words. The table may be called like one of them: a word that is
taken for another one leaves a text in which the statement does not go on. -/
namespace SchemaDump.PostgreSQL
open SqlPattern Pattern

variable {before : Option Char} {key p q : SqlPattern} {u v : Text} {r : Match Part} {word : String}

theorem rest_of_mem_readings_secondPart (hr : r ∈ (maybe (one (· == '.') ++ identifier)).readings before u)
    (hrest : BlankAhead r.rest) : Stops isBareChar u ∧ (r.rest = u ∨ ∃ w before,
      ∃ i ∈ identifier.readings before w, u = '.' :: w ∧ r.rest = i.rest) := by
  rcases List.mem_append.mp hr with hr | hr
  · obtain ⟨d, hd, i, hi, rfl⟩ := mem_readings_seq.mp hr
    obtain ⟨c, hc, -, -, htext⟩ := mem_readings_one hd
    obtain rfl := beq_iff_eq.mp hc
    exact ⟨htext ▸ stops_cons.mpr (by decide), .inr ⟨_, _, i, hi, htext, rfl⟩⟩
  · rw [List.mem_singleton.mp hr] at hrest ⊢
    exact ⟨hrest.stopsBare, .inl rfl⟩

/-- What follows a name with or without its schema, if it is a blank, is determined by the text. -/
theorem qualified_rest_unique {after : Option Char} {t : Text} {s : Match Part}
    (hr : r ∈ qualified.readings before t) (hs : s ∈ qualified.readings after t) (hrest : BlankAhead r.rest)
    (hsrest : BlankAhead s.rest) : r.rest = s.rest := by
  obtain ⟨i, hi, m, hm, rfl⟩ := mem_readings_seq.mp hr
  obtain ⟨j, hj, n, hn, rfl⟩ := mem_readings_seq.mp hs
  obtain ⟨hbare, hmrest⟩ := rest_of_mem_readings_secondPart hm hrest
  obtain ⟨hbare', hnrest⟩ := rest_of_mem_readings_secondPart hn hsrest
  have hfirst : i.rest = j.rest := identifier_rest_unique hi hj hbare hbare'
  have hdot : ∀ {w : Text}, BlankAhead ('.' :: w) → False :=
    fun h => h (stops_cons.mpr (by decide))
  rw [Match.andThen_rest] at hrest hsrest ⊢
  rw [Match.andThen_rest]
  rcases hmrest with hm | ⟨w, before, k, hk, hw, hm⟩ <;> rcases hnrest with hn | ⟨z, after, l, hl, hz, hn⟩
  · rw [hm, hn, hfirst]
  · rw [hm, hfirst, hz] at hrest
    exact (hdot hrest).elim
  · rw [hn, ← hfirst, hw] at hsrest
    exact (hdot hsrest).elim
  · rw [hw, hz] at hfirst
    obtain ⟨-, rfl⟩ := List.cons.inj hfirst
    rw [hm] at hrest ⊢
    rw [hn] at hsrest ⊢
    exact identifier_rest_unique hk hl hrest.stopsBare hsrest.stopsBare

def adds (key : SqlPattern) : SqlPattern :=
  blanks ++ (keyword "ADD" ++ (blanks ++ part Part.constraint key))

def addsTo (key : SqlPattern) : SqlPattern := part .table qualified ++ adds key

def addsToOnly (key : SqlPattern) : SqlPattern := maybe (keyword "ONLY" ++ blanks) ++ addsTo key

def addsToExisting (key : SqlPattern) : SqlPattern :=
  maybe (phrase ["IF", "EXISTS"] ++ blanks) ++ addsToOnly key

theorem readings_alterTable (key : SqlPattern) (before : Option Char) (t : Text) :
    (alterTable ++ part Part.constraint key).readings before t =
      (keyword "ALTER" ++ (blanks ++ (keyword "TABLE" ++ (blanks ++ addsToExisting key)))).readings
        before t := by
  have hphrase : (phrase ["ALTER", "TABLE"] : SqlPattern) = keyword "ALTER" ++ blanks ++ keyword "TABLE" :=
    rfl
  simp only [alterTable, hphrase, readings_seq_assoc]
  rfl

/-- A key that neither starts with a blank nor with the word in front of a key. -/
structure OpensKey (key : SqlPattern) : Prop where
  blank : ∀ c, isBlank c → ∀ t, key.Rejects (c :: t)
  add : ∀ (word : KeywordText "ADD") t, key.Rejects (word.text ++ t)

theorem rejects_part (label : Part) (h : p.Rejects v) : (part label p).Rejects v := by
  intro before
  rw [read?_part, h before]
  rfl

theorem rejects_qualified {name : Text} (hname : IsQualified name) (hv : BlankAhead v)
    (h : (adds key).Rejects v) : (addsTo key).Rejects (name ++ v) := by
  have hread := hname v hv.stopsBare hv.stopsDot none
  refine Rejects.part_seq Part.table fun before => read?_seq_eq_none.mpr fun a ha => ?_
  by_cases hblank : Stops isBlank a.rest
  · exact rejects_blanks hblank _
  · rw [qualified_rest_unique ha (mem_of_read? hread) hblank hv]
    exact h _

theorem rejects_word_target {word : Text} (hne : word ≠ []) (hchars : ∀ c ∈ word, isWordChar c)
    (hv : BlankAhead v) (h : (adds key).Rejects v) : (addsTo key).Rejects (word ++ v) :=
  rejects_qualified (Target.mk false (.bare ⟨word, hne, hchars⟩)).isQualified hv h

theorem rejects_addsTo_blank (c : Char) (hc : isBlank c) (t : Text) : (addsTo key).Rejects (c :: t) := by
  have hname : qualified.Rejects (c :: t) := by
    have hidentifier : identifier.Rejects (c :: t) :=
      .of_starts (by decide) (stops_cons.mpr (identifier_starts_of_isBlank hc))
    exact hidentifier.seq _
  exact (rejects_part Part.table hname).seq _

theorem rejects_addsToOnly_blank (c : Char) (hc : isBlank c) (t : Text) : (addsToOnly key).Rejects (c :: t) := by
  have honly : (keyword "ONLY" ++ blanks : SqlPattern).Rejects (c :: t) :=
    rejects_keyword_blank (by decide) rfl c hc t
  exact honly.missing (rejects_addsTo_blank c hc t)

theorem rejects_addsToExisting_blank (c : Char) (hc : isBlank c) (t : Text) :
    (addsToExisting key).Rejects (c :: t) := by
  have hphrase : (phrase ["IF", "EXISTS"] : SqlPattern) = keyword "IF" ++ blanks ++ keyword "EXISTS" := rfl
  have hguard : (phrase ["IF", "EXISTS"] ++ blanks : SqlPattern).Rejects (c :: t) := by
    rw [hphrase, rejects_assoc, rejects_assoc]
    exact rejects_keyword_blank (by decide) rfl c hc t
  exact hguard.missing (rejects_addsToOnly_blank c hc t)

/-- Behind a keyword it does not matter how many of the blanks are taken for the ones behind it. -/
theorem SpacedWord.rejects_seq (k : SpacedWord word) (hv : Stops isBlank v)
    (hblank : ∀ c, isBlank c → ∀ t, q.Rejects (c :: t)) (h : q.Rejects v) :
    (Pattern.keyword word ++ (blanks ++ q)).Rejects (k.text ++ v) := by
  rw [SpacedWord.text, List.append_assoc]
  exact .behind (fun _ => readings_spelled k.keyword.spelled) (rejects_blanks_run k.behind.blank hv hblank h)

/-- A statement up to the key that it adds. -/
structure AlterationHead where
  alter : SpacedWord "ALTER"
  table : SpacedWord "TABLE"
  guard : Option (SpacedWord "IF" × SpacedWord "EXISTS")
  only : Option (SpacedWord "ONLY")
  target : Spelling
  behind : Spacing
  add : SpacedWord "ADD"

namespace AlterationHead

variable (a : AlterationHead)

def guardText : Option (SpacedWord "IF" × SpacedWord "EXISTS") → Text
  | none => []
  | some (first, second) => first.text ++ second.text

def onlyText : Option (SpacedWord "ONLY") → Text
  | none => []
  | some only => only.text

def behindTarget : Text := a.behind.text ++ a.add.text

def text : Text :=
  a.alter.text ++ (a.table.text ++ (guardText a.guard ++ (onlyText a.only ++ (a.target.text ++ a.behindTarget))))

theorem stops_onlyText (v : Text) : Stops isBlank (onlyText a.only ++ (a.target.text ++ v)) := by
  cases a.only with
  | some only => exact only.stops_blank rfl (by decide) _
  | none => exact a.target.isQualified.stops _

theorem stops_guardText (v : Text) :
    Stops isBlank (guardText a.guard ++ (onlyText a.only ++ (a.target.text ++ (a.behindTarget ++ v)))) := by
  cases a.guard with
  | none => exact a.stops_onlyText _
  | some g =>
      rw [guardText, List.append_assoc]
      exact g.1.stops_blank rfl (by decide) _

theorem blankAhead_behindTarget (v : Text) : BlankAhead (a.behindTarget ++ v) := by
  rw [behindTarget, List.append_assoc]
  exact a.behind.blankAhead _

theorem rejects_behindTarget (hblank : ∀ c, isBlank c → ∀ t, q.Rejects (c :: t)) (h : q.Rejects (a.add.text ++ v)) :
    (blanks ++ q).Rejects (a.behindTarget ++ v) := by
  rw [behindTarget, List.append_assoc]
  exact rejects_blanks_run a.behind.blank (a.add.stops_blank rfl (by decide) v) hblank h

section

variable (hstops : Stops isBlank v) (hadd : (keyword "ADD" : SqlPattern).Rejects v)
include hstops hadd

theorem rejects_only : (keyword "ONLY" ++ blanks ++ addsTo key).Rejects (a.target.text ++ (a.behindTarget ++ v)) := by
  have hadds : (adds key).Rejects (a.add.behind.text ++ v) :=
    rejects_blanks_run a.add.behind.blank hstops (rejects_keyword_blank (by decide) rfl) (hadd.seq _)
  have hword : (addsTo key).Rejects (a.add.text ++ v) := by
    rw [SpacedWord.text, List.append_assoc]
    exact rejects_word_target (a.add.keyword.text_ne_nil rfl) (a.add.chars (by decide))
      (a.add.behind.blankAhead v) hadds
  rw [rejects_assoc]
  exact a.target.rejects_keyword (by decide) (by decide) (a.blankAhead_behindTarget v).stopsWord
    (a.rejects_behindTarget rejects_addsTo_blank hword)

omit hstops hadd in
theorem rejects_guard : (phrase ["IF", "EXISTS"] ++ blanks ++ q).Rejects
    (onlyText a.only ++ (a.target.text ++ (a.behindTarget ++ v))) := by
  have hphrase : (phrase ["IF", "EXISTS"] : SqlPattern) = keyword "IF" ++ blanks ++ keyword "EXISTS" := rfl
  rw [hphrase, rejects_assoc, rejects_assoc, rejects_assoc]
  cases a.only with
  | some only => exact only.rejects_other (by decide) (by decide) (by decide) (by decide) _ _
  | none =>
      exact a.target.rejects_keyword (by decide) (by decide) (a.blankAhead_behindTarget v).stopsWord
        (a.rejects_behindTarget (rejects_keyword_blank (by decide) rfl)
          (a.add.rejects_other (by decide) (by decide) (by decide) (by decide) _ _))

variable (hopens : OpensKey key) (hkey : key.Rejects v)
include hopens hkey

omit hadd in
theorem rejects_addsTo : (addsTo key).Rejects (a.target.text ++ (a.behindTarget ++ v)) := by
  have hadd : (keyword "ADD" ++ (blanks ++ part Part.constraint key)).Rejects (a.add.text ++ v) :=
    a.add.rejects_seq hstops (fun c hc t => rejects_part _ (hopens.blank c hc t)) (rejects_part _ hkey)
  exact rejects_qualified a.target.isQualified (a.blankAhead_behindTarget v)
    (a.rejects_behindTarget (rejects_keyword_blank (by decide) rfl) hadd)

theorem rejects_addsToOnly :
    (addsToOnly key).Rejects (onlyText a.only ++ (a.target.text ++ (a.behindTarget ++ v))) := by
  have htarget := a.rejects_addsTo hstops hopens hkey
  cases a.only with
  | none => exact Rejects.maybe_seq (a.rejects_only hstops hadd) htarget
  | some only =>
      have hblank : Stops isBlank (a.target.text ++ (a.behindTarget ++ v)) := a.target.isQualified.stops _
      have honly := only.rejects_seq hblank rejects_addsTo_blank htarget
      rw [← rejects_assoc] at honly
      -- `ONLY` may be the table, with the table for `ADD` and `ADD` for the key
      have hword : (keyword "ADD" ++ (blanks ++ part Part.constraint key)).Rejects
          (a.target.text ++ (a.behindTarget ++ v)) := by
        have hkeyword : (part Part.constraint key).Rejects (a.add.text ++ v) := by
          rw [SpacedWord.text, List.append_assoc]
          exact rejects_part _ (hopens.add a.add.keyword _)
        exact a.target.rejects_keyword (by decide) (by decide) (a.blankAhead_behindTarget v).stopsWord
          (a.rejects_behindTarget (fun c hc t => rejects_part _ (hopens.blank c hc t)) hkeyword)
      have hskipped : (addsTo key).Rejects (only.text ++ (a.target.text ++ (a.behindTarget ++ v))) := by
        rw [SpacedWord.text, List.append_assoc]
        exact rejects_word_target (only.keyword.text_ne_nil rfl) (only.chars (by decide)) (only.behind.blankAhead _)
          (rejects_blanks_run only.behind.blank hblank (rejects_keyword_blank (by decide) rfl) hword)
      exact Rejects.maybe_seq honly hskipped

theorem rejects_addsToExisting : (addsToExisting key).Rejects
    (guardText a.guard ++ (onlyText a.only ++ (a.target.text ++ (a.behindTarget ++ v)))) := by
  have honly := a.rejects_addsToOnly hstops hadd hopens hkey
  cases a.guard with
  | none => exact Rejects.maybe_seq a.rejects_guard honly
  | some g =>
      obtain ⟨first, second⟩ := g
      rw [guardText, List.append_assoc]
      have hexists := second.rejects_seq (a.stops_onlyText _) rejects_addsToOnly_blank honly
      have hblank : Stops isBlank (second.text ++ (onlyText a.only ++ (a.target.text ++ (a.behindTarget ++ v)))) :=
        second.stops_blank rfl (by decide) _
      have hguard := first.rejects_seq hblank (rejects_keyword_blank (by decide) rfl) hexists
      have hphrase : (phrase ["IF", "EXISTS"] : SqlPattern) = keyword "IF" ++ blanks ++ keyword "EXISTS" := rfl
      -- `IF` may be the table, with `EXISTS` for `ADD`
      have hadds : (adds key).Rejects (first.behind.text ++ (second.text ++ (onlyText a.only ++
          (a.target.text ++ (a.behindTarget ++ v))))) :=
        rejects_blanks_run first.behind.blank hblank (rejects_keyword_blank (by decide) rfl)
          (second.rejects_other (by decide) (by decide) (by decide) (by decide) _ _)
      have htable : (addsTo key).Rejects (first.text ++ (second.text ++ (onlyText a.only ++
          (a.target.text ++ (a.behindTarget ++ v))))) := by
        rw [SpacedWord.text, List.append_assoc]
        exact rejects_word_target (first.keyword.text_ne_nil rfl) (first.chars (by decide))
          (first.behind.blankAhead _) hadds
      have hskipped : (addsToOnly key).Rejects (first.text ++ (second.text ++ (onlyText a.only ++
          (a.target.text ++ (a.behindTarget ++ v))))) := by
        refine Rejects.maybe_seq ?_ htable
        rw [rejects_assoc]
        exact first.rejects_other (by decide) (by decide) (by decide) (by decide) _ _
      refine Rejects.maybe_seq ?_ hskipped
      rw [hphrase, rejects_assoc, rejects_assoc, rejects_assoc]
      exact hguard

theorem rejects : (alterTable ++ part .constraint key).Rejects (a.text ++ v) := by
  have hexisting := a.rejects_addsToExisting hstops hadd hopens hkey
  have htable := a.table.rejects_seq (a.stops_guardText v) rejects_addsToExisting_blank hexisting
  have hall := a.alter.rejects_seq (a.table.stops_blank rfl (by decide) _) (rejects_keyword_blank (by decide) rfl)
    htable
  intro before
  rw [read?, readings_alterTable, text]
  simpa only [read?, List.append_assoc] using hall before

end

section

variable (hkey : key.Reads u v []) (hstops : Stops isBlank (u ++ v))
  (hadd : (keyword "ADD" : SqlPattern).Rejects (u ++ v))
include hkey hstops

theorem reads_addsTo : (addsTo key).Reads (a.target.text ++ (a.behindTarget ++ u)) v
    [(.constraint, u), (.table, a.target.text)] := by
  have hadd := a.add.reads_seq hstops (hkey.part Part.constraint)
  have hadded : Stops isBlank ((a.add.text ++ u) ++ v) := by
    rw [List.append_assoc]
    exact a.add.stops_blank rfl (by decide) _
  have hadds : (adds key).Reads (a.behindTarget ++ u) v [(.constraint, u)] := by
    rw [behindTarget, List.append_assoc]
    exact (a.behind.reads hadded).seq hadd
  have hahead := a.blankAhead_behindTarget (u ++ v)
  rw [← List.append_assoc] at hahead
  have htarget := a.target.isQualified _ hahead.stopsBare hahead.stopsDot
  exact (htarget.part Part.table).seq hadds

include hadd

theorem reads_addsToOnly : (addsToOnly key).Reads (onlyText a.only ++ (a.target.text ++ (a.behindTarget ++ u))) v
    [(.constraint, u), (.table, a.target.text)] := by
  have htarget := a.reads_addsTo hkey hstops
  cases a.only with
  | none =>
      refine Reads.skipped ?_ htarget
      simpa only [onlyText, List.nil_append, List.append_assoc] using a.rejects_only hstops hadd
  | some only =>
      apply Reads.maybe_seq
      rw [reads_assoc]
      exact only.reads_seq (by rw [List.append_assoc]; exact a.target.isQualified.stops _) htarget

theorem reads_addsToExisting : (addsToExisting key).Reads
    (guardText a.guard ++ (onlyText a.only ++ (a.target.text ++ (a.behindTarget ++ u)))) v
    [(.constraint, u), (.table, a.target.text)] := by
  have honly := a.reads_addsToOnly hkey hstops hadd
  cases a.guard with
  | none =>
      refine Reads.skipped ?_ honly
      simpa only [guardText, List.nil_append, List.append_assoc] using a.rejects_guard
  | some g =>
      obtain ⟨first, second⟩ := g
      have hstop : ∀ w, Stops isBlank ((onlyText a.only ++ (a.target.text ++ w)) ++ v) := fun w => by
        rw [List.append_assoc, List.append_assoc]
        exact a.stops_onlyText _
      have hsecond : (phrase ["EXISTS"] ++ (blanks ++ addsToOnly key)).Reads (second.text ++ (onlyText a.only ++
          (a.target.text ++ (a.behindTarget ++ u)))) v [(.constraint, u), (.table, a.target.text)] :=
        second.reads_seq (hstop _) honly
      have hfirst := first.reads_phrase (by rw [List.append_assoc]; exact second.stops_blank rfl (by decide) _) hsecond
      apply Reads.maybe_seq
      rw [reads_assoc, guardText, List.append_assoc]
      exact hfirst

/-- A statement is read with the table as it is written. -/
theorem reads : (alterTable ++ part .constraint key).Reads (a.text ++ u) v
    [(.constraint, u), (.table, a.target.text)] := by
  have hexisting := a.reads_addsToExisting hkey hstops hadd
  have hstop : Stops isBlank ((guardText a.guard ++ (onlyText a.only ++ (a.target.text ++
      (a.behindTarget ++ u)))) ++ v) := by
    simpa only [List.append_assoc] using a.stops_guardText (u ++ v)
  have htable := a.table.reads_seq hstop hexisting
  have hall := a.alter.reads_seq (by rw [List.append_assoc]; exact a.table.stops_blank rfl (by decide) _) htable
  intro before
  rw [read?, readings_alterTable, text]
  simpa only [read?, List.append_assoc] using hall before

end

end AlterationHead

/-- A statement up to its key, as one of those that may be spelled in any way. -/
def Alteration.head (a : Alteration) : AlterationHead where
  alter := .plain _
  table := .plain _
  guard := if a.ifExists then some (.plain _, .plain _) else none
  only := if a.only then some (.plain _) else none
  target := a.target.spelling
  behind := ⟨a.space, a.spaceNonempty⟩
  add := .plain _

namespace Alteration

variable (a : Alteration)

theorem text_head : a.head.text = a.opening := by
  have hguard : AlterationHead.guardText a.head.guard = existsText a.ifExists := by
    rw [head]
    cases a.ifExists <;> rfl
  have honly : AlterationHead.onlyText a.head.only = onlyText a.only := by
    rw [head]
    cases a.only <;> rfl
  rw [AlterationHead.text, hguard, honly, AlterationHead.behindTarget, opening]
  simp only [head, a.target.text_spelling, SpacedWord.text, SpacedWord.plain, KeywordText.plain, Spacing.single,
    Indent.single, spacedWords, List.append_assoc, List.cons_append, List.nil_append]

theorem rejects_opening (hstops : Stops isBlank v) (hadd : (keyword "ADD" : SqlPattern).Rejects v)
    (hopens : OpensKey key) (hkey : key.Rejects v) :
    (alterTable ++ part Part.constraint key).Rejects (a.opening ++ v) := by
  rw [← a.text_head]
  exact a.head.rejects hstops hadd hopens hkey

theorem reads_opening (hkey : key.Reads u v []) (hstops : Stops isBlank (u ++ v))
    (hadd : (keyword "ADD" : SqlPattern).Rejects (u ++ v)) :
    (alterTable ++ part Part.constraint key).Reads (a.opening ++ u) v
      [(Part.constraint, u), (Part.table, a.target.text)] := by
  rw [← a.text_head, ← a.target.text_spelling]
  exact a.head.reads hkey hstops hadd

end Alteration

end SchemaDump.PostgreSQL
