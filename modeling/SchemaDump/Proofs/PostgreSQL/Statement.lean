import SchemaDump.Proofs.PostgreSQL.AddedKey
import SchemaDump.Proofs.PostgreSQL.Creation
/- Texts made of statements. If each statement is read where it stands, or not at all, the statements are
found in their order. -/
namespace SchemaDump.PostgreSQL
open SqlPattern Pattern

variable {v : Text}

/-- The pattern reads a text up to some place of it, with some parts and not again behind that, or it does not
read it at all. -/
def FoundIn (p : SqlPattern) (t read : Text) : Option (List (Part × Text)) → Prop
  | some parts => ∃ w, t = read ++ w ∧ (∀ v, p.Reads read (w ++ v) parts) ∧ ∀ before v, p.Silent before w v
  | none => ∀ before v, p.Silent before t v

section

variable {σ : Type} {text read : σ → Text} {f : Form} {p : SqlPattern} (h : f.Opens p)
  (hconsumes : p.Consumes) (hahead : ∀ s v, StatementAhead (text s ++ v))
  {parts : σ → Option (List (Part × Text))} (hparts : ∀ s, FoundIn p (text s) (read s) (parts s))
  (statements : List (Filler × σ)) (before : Option Char)

include h hconsumes hahead hparts

/-- Statements are found in their order, and each is read to its end before what stands behind them. -/
theorem exists_found_append (v : Text) : ∃ rs,
    p.found before (statements.flatMap (fun s => s.1.text ++ text s.2) ++ v) =
      rs ++ p.found (lastOf before (statements.flatMap fun s => s.1.text ++ text s.2)) v ∧
    rs.map (fun r => (r.read, r.parts)) = statements.filterMap (fun s => (parts s.2).map (read s.2, ·)) ∧
      ∀ r ∈ rs, v.length ≤ r.rest.length := by
  induction statements generalizing before with
  | nil => exact ⟨[], rfl, rfl, fun _ hr => nomatch hr⟩
  | cons s statements ih =>
      have hfiller : p.Silent before s.1.text (text s.2 ++
          (statements.flatMap (fun s => s.1.text ++ text s.2) ++ v)) := h.silent_filler s.1 (hahead s.2 _)
      have hstatement := hparts s.2
      rw [List.flatMap_cons, List.append_assoc, List.append_assoc, found_append_of_silent hfiller, lastOf_append,
        lastOf_append, List.filterMap_cons]
      cases hs : parts s.2 with
      | none =>
          rw [hs] at hstatement
          rw [found_append_of_silent (hstatement _ _)]
          exact ih _
      | some ps =>
          rw [hs] at hstatement
          obtain ⟨w, htext, hreads, hsilent⟩ := hstatement
          rw [htext, List.append_assoc, found_of_read? hconsumes (hreads _ _), found_append_of_silent (hsilent _ _),
            lastOf_append]
          obtain ⟨rs, hfound, hmap, hlength⟩ := ih (lastOf (lastOf (lastOf before s.1.text) (read s.2)) w)
          refine ⟨_ :: rs, congrArg (_ :: ·) hfound, congrArg (_ :: ·) hmap, ?_⟩
          intro r hr
          rcases List.mem_cons.mp hr with rfl | hr
          · simp only [List.length_append]
            omega
          · exact hlength r hr

theorem found_statements_read (trailer : Filler) :
    (p.found before (statements.flatMap (fun s => s.1.text ++ text s.2) ++ trailer.text)).map
        (fun r => (r.read, r.parts)) = statements.filterMap fun s => (parts s.2).map (read s.2, ·) := by
  obtain ⟨rs, hfound, hmap, -⟩ := exists_found_append h hconsumes hahead hparts statements before trailer.text
  have hsilent : ∀ before, p.Silent before trailer.text [] := fun before => h.silent_filler trailer (.inl rfl)
  rw [hfound, found_eq_nil_of_silent (hsilent _), List.append_nil, hmap]

theorem found_statements (trailer : Filler) :
    (p.found before (statements.flatMap (fun s => s.1.text ++ text s.2) ++ trailer.text)).map (·.parts) =
      statements.filterMap fun s => parts s.2 := by
  have hread := congrArg (List.map (·.2)) (found_statements_read h hconsumes hahead hparts statements before trailer)
  rw [List.map_map, List.map_filterMap] at hread
  refine hread.trans (congrArg (List.filterMap · statements) (funext fun s => ?_))
  cases parts s.2 <;> rfl

end

/-- A text is read through the tables and the statements that are found in it. -/
theorem parse_congr {t u : Text}
    (htables : (tableBlock.found none t).map (fun r => tableOf r.parts) =
      (tableBlock.found none u).map (fun r => tableOf r.parts))
    (hkeys : ∀ kind : KeyKind, (kind.statement.found none t).map (·.parts) =
      (kind.statement.found none u).map (·.parts)) : parse t = parse u := by
  have halterations : allAlterations t = allAlterations u := by
    rw [allAlterations, allAlterations, ← KeyKind.statement_primaryKey, ← KeyKind.statement_foreignKey]
    simp only [alterations_parts, hkeys]
  have hparse : ∀ sql, parse sql = ⟨(parse sql).tables⟩ := fun _ => rfl
  rw [hparse t, hparse u, parse_tables, parse_tables, htables, halterations]

variable {kind : TableKind} {ifNotExists : Bool} {target : Target} {body : Text}

theorem statementAhead_creation : StatementAhead (creationText kind ifNotExists target body ++ v) :=
  .inr ⟨"CREATE", by decide, .plain _, _, List.append_assoc _ _ _⟩

theorem foundIn_creation (hbody : ∀ before v, bodyEnd.Silent before body (')' :: ';' :: v)) :
    FoundIn tableBlock (creationText kind ifNotExists target body) (creationText kind ifNotExists target body)
      (some [(Part.body, body), (Part.name, target.text)]) :=
  ⟨[], (List.append_nil _).symm, fun v => reads_creation kind ifNotExists target fun before => hbody before v,
    fun _ _ => silent_nil _⟩

namespace Alteration

variable (a : Alteration)

def parts : List (Part × Text) := [(Part.constraint, a.clause.keyText), (Part.table, a.target.text)]

theorem statementAhead : StatementAhead (a.text ++ v) :=
  .inr ⟨"ALTER", by decide, .plain _, _, by rw [a.text_eq, List.append_assoc]; rfl⟩

theorem foundIn_statement (kind : KeyKind) :
    FoundIn kind.statement a.text (a.opening ++ a.clause.keyText)
      (((some a).filter (·.clause.kind = kind)).map parts) := by
  by_cases hkind : a.clause.kind = kind
  · rw [Option.filter_some, if_pos (decide_eq_true hkind), ← hkind]
    exact ⟨_, a.text_split, fun v => a.reads_statement _, fun _ _ => a.silent_end⟩
  · rw [Option.filter_some, if_neg (by simpa using hkind)]
    exact fun _ _ => a.silent_statement hkind

end Alteration

end SchemaDump.PostgreSQL
