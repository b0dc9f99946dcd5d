import SchemaDump.Definition.Marker
import SchemaDump.Proofs.Pattern.Reads
/- What a reference says to happen to a row when the row that it leads to is deleted or updated. None of it goes
to the column, so the actions are read along with the reference and cut off together with it. -/
namespace SchemaDump
open SqlPattern Pattern

variable {v : Text}

inductive ReferentialEvent
  | delete
  | update

inductive ReferentialOutcome
  | cascade
  | restrict
  | noAction
  | setNull
  | setDefault

structure ReferentialAction where
  event : ReferentialEvent
  outcome : ReferentialOutcome

def ReferentialEvent.word : ReferentialEvent → String
  | delete => "DELETE"
  | update => "UPDATE"

def ReferentialOutcome.words : ReferentialOutcome → List String
  | cascade => ["CASCADE"]
  | restrict => ["RESTRICT"]
  | noAction => ["NO", "ACTION"]
  | setNull => ["SET", "NULL"]
  | setDefault => ["SET", "DEFAULT"]

namespace ReferentialAction

def text (a : ReferentialAction) : Text :=
  ' ' :: ("ON".toList ++ ' ' :: (a.event.word.toList ++ ' ' :: spacedWords a.outcome.words))

theorem reads_event (e : ReferentialEvent) (v : Text) :
    (anyOf [keyword "DELETE", keyword "UPDATE"] : SqlPattern).Reads e.word.toList v [] := by
  cases e with
  | delete => exact (reads_keyword "DELETE" v).preferred _
  | update => exact .other (.of_clash (by decide) v) (reads_keyword "UPDATE" v)

theorem reads_outcome (o : ReferentialOutcome) (v : Text) : (anyOf [keyword "CASCADE", keyword "RESTRICT",
    phrase ["NO", "ACTION"], phrase ["SET", "NULL"], phrase ["SET", "DEFAULT"]] : SqlPattern).Reads
      (spacedWords o.words) v [] := by
  have hno : ∀ w, (phrase ["NO", "ACTION"] : SqlPattern).Rejects ("SET".toList ++ w) := fun w =>
    ((Rejects.of_clash (by decide) w).seq _).seq _
  cases o with
  | cascade => exact (reads_keyword "CASCADE" v).preferred _
  | restrict => exact .other (.of_clash (by decide) v) ((reads_keyword "RESTRICT" v).preferred _)
  | noAction =>
      have hphrase : (phrase ["NO", "ACTION"] : SqlPattern).Reads (spacedWords ["NO", "ACTION"]) v [] :=
        reads_phrase (by decide) (by decide) v
      exact .other (.of_clash (by decide) v) (.other (.of_clash (by decide) v) (hphrase.preferred _))
  | setNull =>
      have hphrase : (phrase ["SET", "NULL"] : SqlPattern).Reads (spacedWords ["SET", "NULL"]) v [] :=
        reads_phrase (by decide) (by decide) v
      exact .other (.of_clash (by decide) v) (.other (.of_clash (by decide) v)
        (.other (hno _) (hphrase.preferred _)))
  | setDefault =>
      have hphrase : (phrase ["SET", "DEFAULT"] : SqlPattern).Reads (spacedWords ["SET", "DEFAULT"]) v [] :=
        reads_phrase (by decide) (by decide) v
      have hnull : (phrase ["SET", "NULL"] : SqlPattern).Rejects (spacedWords ["SET", "DEFAULT"] ++ v) := by
        have hblank : Stops isBlank ("DEFAULT".toList ++ v) := stops_cons.mpr (by decide)
        have hword : (keyword "NULL" : SqlPattern).Rejects ("DEFAULT".toList ++ v) := .of_clash (by decide) v
        exact (rejects_assoc _ _ _ _).mpr (Rejects.keyword_seq (.blanks hblank hword))
      exact .other (.of_clash (by decide) v) (.other (.of_clash (by decide) v)
        (.other (hno _) (.other hnull hphrase)))

theorem reads (a : ReferentialAction) (v : Text) : referenceAction.Reads a.text v [] := by
  have hword : ∀ w, (blanks : SqlPattern).Reads [' '] (("ON".toList ++ w) ++ v) [] := fun w =>
    reads_blanks (stops_cons.mpr (by decide))
  have hevent : ∀ w, (blanks : SqlPattern).Reads [' '] ((a.event.word.toList ++ w) ++ v) [] := by
    intro w
    cases a.event <;> exact reads_blanks (stops_cons.mpr (by decide))
  have houtcome : (blanks : SqlPattern).Reads [' '] (spacedWords a.outcome.words ++ v) [] := by
    cases a.outcome <;> exact reads_blanks (stops_cons.mpr (by decide))
  have hall := (hword _).seq ((reads_keyword "ON" _).seq ((hevent _).seq ((reads_event a.event _).seq
    (houtcome.seq (reads_outcome a.outcome v)))))
  simp only [referenceAction, reads_assoc]
  exact hall

end ReferentialAction

def actionText (actions : List ReferentialAction) : Text := actions.flatMap (·.text)

theorem actionText_append (first more : List ReferentialAction) :
    actionText (first ++ more) = actionText first ++ actionText more := List.flatMap_append

def SqlPattern.referenceEnd : SqlPattern :=
  maybe (blanks ++ keyword "MATCH" ++ blanks ++ anyOf [keyword "FULL", keyword "PARTIAL", keyword "SIMPLE"]) ++
    many referenceAction

def EndsReference (v : Text) : Prop :=
  ∀ word ∈ ["MATCH", "ON"], ∀ q : SqlPattern, (blanks ++ (keyword word ++ q)).Rejects v

/-- A reference ends in front of blanks and what starts neither word. -/
theorem endsReference_of_blanks {g : Text} (hg : ∀ c ∈ g, isBlank c) (hv : Stops isBlank v)
    (hwords : ∀ word ∈ ["MATCH", "ON"], (keyword word : SqlPattern).Rejects v) : EndsReference (g ++ v) := by
  intro word hmem q
  cases g with
  | nil => exact rejects_blanks hv
  | cons c g =>
      obtain ⟨hc, hg⟩ := List.forall_mem_cons.mp hg
      obtain ⟨hletters, hnull⟩ : (∀ c ∈ word.toList, c.isAlpha) ∧ (keyword word : SqlPattern).nullable = false := by
        have hletters : ∀ word ∈ ["MATCH", "ON"],
            (∀ c ∈ word.toList, c.isAlpha) ∧ (keyword word : SqlPattern).nullable = false := by decide
        exact hletters word hmem
      have hgap : (Pattern.gap ++ (keyword word ++ q)).Rejects (g ++ v) :=
        .gap hg hv (by rw [append_eq_seq, nullable, hnull, Bool.false_and])
          (starts_keyword_seq_of_blank hnull hletters) ((hwords word hmem).seq q)
      rw [Pattern.blanks, run1, rejects_assoc]
      exact .behind (u := [c]) (fun before => readings_one hc before _) hgap

theorem reads_actionText (actions : List ReferentialAction) (hv : EndsReference v) :
    referenceEnd.Reads (actionText actions) v [] := by
  have hconsumes : referenceAction.Consumes := consumes_of_not_nullable rfl
  have hend : referenceAction.Rejects v := by
    simp only [referenceAction, rejects_assoc]
    exact hv "ON" (by decide) _
  have hactions : (many referenceAction).Reads (actionText actions) v [] :=
    reads_rounds hconsumes _ (fun _ => True) (fun a _ w _ => a.reads w) (fun _ _ _ => trivial) trivial hend
  have hmatch : ∀ q : SqlPattern, (blanks ++ (keyword "MATCH" ++ q)).Rejects (actionText actions ++ v) := by
    intro q
    cases actions with
    | nil => exact hv "MATCH" (by decide) q
    | cons a actions =>
        have hclash : ∀ w, (keyword "MATCH" : SqlPattern).Rejects ("ON".toList ++ w) := .of_clash (by decide)
        rw [actionText, List.flatMap_cons, ReferentialAction.text, List.append_assoc, List.cons_append,
          List.append_assoc]
        exact .blanks (stops_cons.mpr (by decide)) ((hclash _).seq q)
  have hmissing : (blanks ++ keyword "MATCH" ++ blanks ++ anyOf [keyword "FULL", keyword "PARTIAL",
      keyword "SIMPLE"] ++ many referenceAction : SqlPattern).Rejects (actionText actions ++ v) := by
    simp only [rejects_assoc]
    exact hmatch _
  exact Reads.skipped hmissing hactions

end SchemaDump
