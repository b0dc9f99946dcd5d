import SchemaDump.Proofs.Dialect.Detection
/- Detection in a longer text. What is a sign of a dialect on lines of its own is a sign of it between any other
lines, so lines that are added may say more about the dialect of a text but never less. -/
namespace SchemaDump

namespace Pattern

variable {ι : Type} {p q : Pattern ι} {before after : Option Char} {t u v : Text} {r : Match ι}

/-- Whether a pattern looks at nothing but the characters it reads, the edges of words excepted. -/
def isLocal : Pattern ι → Bool
  | empty | one _ | run _ _ | wordEdge => true
  | textEnd | many _ => false
  | seq p q | alt p q => p.isLocal && q.isLocal
  | part _ p => p.isLocal

/-- Behind what is read a word ends in front of more text if it ended there without it. -/
theorem head?_any_append (hv : Stops isWordChar v) (t : Text) :
    (t ++ v).head?.any isWordChar = t.head?.any isWordChar := by
  cases t with
  | nil =>
      cases v with
      | nil => rfl
      | cons c v => exact stops_cons.mp hv
  | cons c t => rfl

theorem any_lastOf (h : before.any isWordChar = after.any isWordChar) (t : Text) :
    (lastOf before t).any isWordChar = (lastOf after t).any isWordChar := by
  cases t with
  | nil => exact h
  | cons c t => rfl

/-- What is read in a text is read there between other texts, as long as no word goes on behind the seams. -/
theorem mem_readings_between (hp : p.isLocal) (hbefore : before.any isWordChar = after.any isWordChar)
    (hv : Stops isWordChar v) (hr : r ∈ p.readings before t) : r.extend v ∈ p.readings after (t ++ v) := by
  induction p generalizing before after t r with
  | empty =>
      rw [List.mem_singleton.mp hr]
      exact List.mem_singleton_self _
  | one accepts =>
      obtain ⟨c, hc, hread, hparts, rfl⟩ := mem_readings_one hr
      have hrest : r.extend v = ⟨[c], [], r.rest ++ v⟩ := by rw [Match.extend, hread, hparts]
      rw [hrest, List.cons_append, readings_one hc]
      exact List.mem_singleton_self _
  | run accepts preference =>
      obtain ⟨hparts, htext, hall⟩ := mem_readings_run.mp hr
      exact mem_readings_run.mpr ⟨hparts, by rw [← htext, List.append_assoc]; rfl, hall⟩
  | wordEdge =>
      rw [readings] at hr ⊢
      rw [head?_any_append hv, ← hbefore]
      split at hr
      · next hedge =>
        rw [if_pos hedge, List.mem_singleton.mp hr]
        exact List.mem_singleton_self _
      · cases hr
  | textEnd | many => cases hp
  | seq p q ihp ihq =>
      obtain ⟨hp, hq⟩ := Bool.and_eq_true_iff.mp hp
      obtain ⟨a, ha, b, hb, rfl⟩ := mem_readings_seq.mp hr
      exact mem_readings_seq.mpr ⟨a.extend v, ihp hp hbefore ha, b.extend v, ihq hq (any_lastOf hbefore a.read) hb, rfl⟩
  | alt p q ihp ihq =>
      obtain ⟨hp, hq⟩ := Bool.and_eq_true_iff.mp hp
      rcases List.mem_append.mp hr with hr | hr
      · exact List.mem_append_left _ (ihp hp hbefore hr)
      · exact List.mem_append_right _ (ihq hq hbefore hr)
  | part label p ih =>
      obtain ⟨a, ha, rfl⟩ := List.mem_map.mp hr
      exact List.mem_map.mpr ⟨a.extend v, ih hp hbefore ha, rfl⟩

/-- What occurs in a text occurs wherever that text stands apart from the words around it. -/
theorem occursIn_between (hp : p.isLocal) (hu : ∀ c ∈ u.getLast?, isWordChar c = false) (hv : Stops isWordChar v)
    (h : p.occursIn t) : p.occursIn (u ++ (t ++ v)) := by
  obtain ⟨x, y, rfl, hread⟩ := occursIn_iff.mp h
  obtain ⟨r, hr⟩ := List.exists_mem_of_ne_nil _ (mt readings_eq_nil_iff.mp hread)
  have hseam : (lastOf none []).any isWordChar = (lastOf none u).any isWordChar := by
    rw [lastOf_eq none u, Option.or_none]
    cases hlast : u.getLast? with
    | none => rfl
    | some c => exact (hu c hlast).symm
  have hbefore : (lastOf none x).any isWordChar = (lastOf none (u ++ x)).any isWordChar := by
    rw [lastOf_append]
    exact any_lastOf hseam x
  have htext : u ++ ((x ++ y) ++ v) = (u ++ x) ++ (y ++ v) := by simp only [List.append_assoc]
  exact occursIn_of_mem_readings htext (mem_readings_between hp hbefore hv hr)

end Pattern

open SqlPattern Pattern

namespace Dialect

variable {u sql v : Text}

/-- How much a detection says: nothing, that there are tables and no sign of MySQL, or MySQL. -/
def certainty : Option Dialect → Nat
  | none => 0
  | some .postgresql => 1
  | some .mysql => 2

theorem certainty_eq_zero_iff {d : Option Dialect} : certainty d = 0 ↔ d = none := by
  cases d with
  | none => exact ⟨fun _ => rfl, fun _ => rfl⟩
  | some d => cases d <;> exact ⟨(fun h => nomatch h), (fun h => nomatch h)⟩

theorem certainty_eq_two_iff {d : Option Dialect} : certainty d = 2 ↔ d = some .mysql := by
  cases d with
  | none => exact ⟨(fun h => nomatch h), (fun h => nomatch h)⟩
  | some d => cases d <;> simp [certainty]

theorem certainty_le_two (d : Option Dialect) : certainty d ≤ 2 := by
  cases d with
  | none => exact Nat.zero_le 2
  | some d => cases d <;> decide

theorem certainty_detect_mono {sql more : Text}
    (h : ∀ p ∈ [createTable, storageEngine, ownerTo, searchPath, publicQualified],
    p.occursIn sql → p.occursIn more) : certainty (detect sql) ≤ certainty (detect more) := by
  simp only [List.forall_mem_cons] at h
  obtain ⟨hcreate, hengine, howner, hpath, hpublic, -⟩ := h
  by_cases htable : createTable.occursIn sql
  · have htable' := hcreate htable
    by_cases hmysql : storageEngine.occursIn more
    · have hdetect : detect more = some .mysql := by simp [detect, htable', hmysql]
      rw [hdetect]
      exact certainty_le_two _
    · have hmysql' : ¬storageEngine.occursIn sql := fun hsql => hmysql (hengine hsql)
      by_cases hsign : ownerTo.occursIn sql || searchPath.occursIn sql || publicQualified.occursIn sql
      · have hsign' : ownerTo.occursIn more || searchPath.occursIn more || publicQualified.occursIn more := by
          simp only [Bool.or_eq_true] at hsign ⊢
          exact hsign.imp (Or.imp howner hpath) hpublic
        have hdetect : detect more = some .postgresql := by
          simp only [detect, htable', hmysql, hsign', Bool.not_true, Bool.false_eq_true, if_false, if_true]
        have hless : detect sql = some .postgresql := by
          simp only [detect, htable, hmysql', hsign, Bool.not_true, Bool.false_eq_true, if_false, if_true]
        rw [hdetect, hless]
      · have hless : detect sql = none := by
          simp only [detect, htable, hmysql', hsign, Bool.not_true, Bool.false_eq_true, if_false]
        rw [hless]
        exact Nat.zero_le _
  · have hless : detect sql = none := by simp [detect, htable]
    rw [hless]
    exact Nat.zero_le _

/-- What stands around a text never makes it say less, as long as it continues no word of it. -/
theorem certainty_detect_between (sql : Text) (hu : ∀ c ∈ u.getLast?, isWordChar c = false) (hv : Stops isWordChar v) :
    certainty (detect sql) ≤ certainty (detect (u ++ (sql ++ v))) := by
  have hlocal : ∀ p ∈ [createTable, storageEngine, ownerTo, searchPath, publicQualified], p.isLocal := by
    simp only [List.forall_mem_cons]
    exact ⟨rfl, rfl, rfl, rfl, rfl, fun _ hp => (nomatch hp)⟩
  exact certainty_detect_mono fun p hp => occursIn_between (hlocal p hp) hu hv

/-- Among joined texts each one stands between line breaks, or at an end. -/
theorem exists_unlines_eq {dumps : List Text} (h : sql ∈ dumps) :
    ∃ u v, Text.unlines dumps = u ++ (sql ++ v) ∧ (∀ c ∈ u.getLast?, c = '\n') ∧ ∀ c ∈ v.head?, c = '\n' := by
  have hnil : ∀ c ∈ (none : Option Char), c = '\n' := fun _ hc => absurd hc (Option.not_mem_none _)
  induction dumps with
  | nil => cases h
  | cons dump dumps ih =>
      cases dumps with
      | nil =>
          obtain rfl := List.mem_singleton.mp h
          exact ⟨[], [], by simp [Text.unlines], hnil, hnil⟩
      | cons next dumps =>
          rcases List.mem_cons.mp h with rfl | h
          · exact ⟨[], '\n' :: Text.unlines (next :: dumps), rfl, hnil, fun c hc => (Option.some.inj hc).symm⟩
          · obtain ⟨u, v, htext, hu, hv⟩ := ih h
            refine ⟨dump ++ '\n' :: u, v, ?_, fun c hc => ?_, hv⟩
            · rw [Text.unlines, htext, List.append_assoc, List.cons_append]
              exact fun hempty => List.ne_nil_of_mem h hempty
            · rw [List.getLast?_append_cons] at hc
              cases u with
              | nil => exact (Option.some.inj hc).symm
              | cons d u => exact hu c hc

/-- Lines around a text never make a dump that is recognised an unrecognised one, and never one of MySQL one of
PostgreSQL. So dumps with line breaks between them are recognised as soon as one of them is, and are one of MySQL
as soon as one of them is. -/
theorem detect_surrounded :
    (∀ before sql after : Text,
      certainty (detect sql) ≤ certainty (detect (before ++ '\n' :: (sql ++ '\n' :: after)))) ∧
    ∀ dumps : List Text,
      ((∃ sql ∈ dumps, detect sql ≠ none) → detect (Text.unlines dumps) ≠ none) ∧
      ((∃ sql ∈ dumps, detect sql = some .mysql) → detect (Text.unlines dumps) = some .mysql) := by
  have hbreak : isWordChar '\n' = false := by decide
  constructor
  · intro before sql after
    have hu : ∀ c ∈ (before ++ ['\n']).getLast?, isWordChar c = false := fun c hc => by
      rw [List.getLast?_concat] at hc
      exact Option.some.inj hc ▸ hbreak
    have hle := certainty_detect_between sql (v := '\n' :: after) hu (stops_cons.mpr hbreak)
    rwa [List.append_assoc] at hle
  · intro dumps
    have hle : ∀ sql ∈ dumps, certainty (detect sql) ≤ certainty (detect (Text.unlines dumps)) := by
      intro sql hsql
      obtain ⟨u, v, htext, hu, hv⟩ := exists_unlines_eq hsql
      rw [htext]
      exact certainty_detect_between sql (fun c hc => hu c hc ▸ hbreak) fun c hc => hv c hc ▸ hbreak
    constructor
    · rintro ⟨sql, hsql, hdetect⟩ hnone
      have hzero := hle sql hsql
      rw [hnone] at hzero
      exact hdetect (certainty_eq_zero_iff.mp (Nat.le_zero.mp hzero))
    · rintro ⟨sql, hsql, hdetect⟩
      have htwo := hle sql hsql
      rw [hdetect] at htwo
      exact certainty_eq_two_iff.mp (Nat.le_antisymm (certainty_le_two _) htwo)

/-- A table that MySQL has dumped between one of PostgreSQL and a note. -/
def mixedDumps : List Text :=
  ["CREATE TABLE public.people (\n    id integer\n);".toList,
    "CREATE TABLE \x60people\x60 (\n  \x60id\x60 int\n) ENGINE=InnoDB;".toList, "-- end of the dumps".toList]

theorem detect_mixedDumps : mixedDumps.map detect = [some .postgresql, some .mysql, none] ∧
    detect (Text.unlines mixedDumps) ≠ none ∧ detect (Text.unlines mixedDumps) = some .mysql := by
  have hdetect : mixedDumps.map detect = [some .postgresql, some .mysql, none] := by decide +kernel
  have hmysql : ∃ sql ∈ mixedDumps, detect sql = some .mysql := by decide +kernel
  have hknown : ∃ sql ∈ mixedDumps, detect sql ≠ none := by decide +kernel
  obtain ⟨hsome, hdecisive⟩ := detect_surrounded.2 mixedDumps
  exact ⟨hdetect, hsome hknown, hdecisive hmysql⟩

end Dialect

end SchemaDump
