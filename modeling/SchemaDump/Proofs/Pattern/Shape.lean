import SchemaDump.Proofs.Pattern.Rules
/- What the shape of a pattern tells of all its readings: whether they can be empty, which
characters they start with and which they contain. -/
namespace SchemaDump.Pattern

variable {ι : Type}

/-- Whether a pattern may read nothing. -/
def nullable : Pattern ι → Bool
  | one _ => false
  | seq p q => p.nullable && q.nullable
  | alt p q => p.nullable || q.nullable
  | part _ p => p.nullable
  | _ => true

/-- Whether what a pattern reads may start with a character. -/
def starts : Pattern ι → Char → Bool
  | one accepts, c => accepts c
  | run accepts _, c => accepts c
  | seq p q, c => p.starts c || p.nullable && q.starts c
  | alt p q, c => p.starts c || q.starts c
  | many p, c => p.starts c
  | part _ p, c => p.starts c
  | _, _ => false

/-- Whether what a pattern reads may end with a character. -/
def ends : Pattern ι → Char → Bool
  | one accepts, c => accepts c
  | run accepts _, c => accepts c
  | seq p q, c => q.ends c || q.nullable && p.ends c
  | alt p q, c => p.ends c || q.ends c
  | many p, c => p.ends c
  | part _ p, c => p.ends c
  | _, _ => false

/-- Whether what a pattern reads may contain a character. -/
def mentions : Pattern ι → Char → Bool
  | one accepts, c => accepts c
  | run accepts _, c => accepts c
  | seq p q, c => p.mentions c || q.mentions c
  | alt p q, c => p.mentions c || q.mentions c
  | many p, c => p.mentions c
  | part _ p, c => p.mentions c
  | _, _ => false

variable {p q : Pattern ι} {before : Option Char} {t : Text} {r : Match ι} {c : Char}

/-- What holds of single rounds, of reading nothing, and of one reading after another holds of
several rounds. -/
theorem rounds_closed {P : Match ι → Prop} {round : Option Char → Text → List (Match ι)}
    (hnil : ∀ t, P ⟨[], [], t⟩) (happend : ∀ r s, P r → P s → P (r.andThen s))
    (hround : ∀ before t, ∀ r ∈ round before t, P r) (bound : Text)
    (before : Option Char) (t : Text) : ∀ r ∈ rounds round bound before t, P r := by
  induction bound generalizing before t with
  | nil => simp [rounds, hnil]
  | cons _ bound ih =>
      intro r hr
      simp only [rounds, List.mem_append, List.mem_flatMap, List.mem_map, List.mem_singleton] at hr
      rcases hr with ⟨a, ha, b, hb, rfl⟩ | rfl
      · exact happend _ _ (hround _ _ a ha) (ih _ _ b hb)
      · exact hnil t

theorem read_ne_nil (h : p.nullable = false) (hr : r ∈ p.readings before t) : r.read ≠ [] := by
  induction p generalizing before t r with
  | one accepts =>
      cases t with
      | nil => simp [readings] at hr
      | cons d t =>
          simp only [readings] at hr
          split at hr
          · rw [List.mem_singleton.mp hr]
            exact List.cons_ne_nil d []
          · cases hr
  | seq p q ihp ihq =>
      obtain ⟨a, ha, b, hb, rfl⟩ := mem_readings_seq.mp hr
      intro hnil
      obtain ⟨hanil, hbnil⟩ := List.append_eq_nil_iff.mp hnil
      rcases Bool.and_eq_false_iff.mp h with hp | hq
      · exact ihp hp ha hanil
      · exact ihq hq hb hbnil
  | alt p q ihp ihq =>
      obtain ⟨hp, hq⟩ := Bool.or_eq_false_iff.mp h
      rcases List.mem_append.mp hr with hr | hr
      · exact ihp hp hr
      · exact ihq hq hr
  | part label p ih =>
      obtain ⟨a, ha, rfl⟩ := List.mem_map.mp hr
      rw [Match.labelled_read]
      exact ih h ha
  | empty | run | wordEdge | textEnd | many => cases h

theorem consumes_of_not_nullable (h : p.nullable = false) : p.Consumes :=
  fun _ _ _ hr => read_ne_nil h hr

theorem starts_of_mem (hr : r ∈ p.readings before t) : ∀ c ∈ r.read.head?, p.starts c := by
  induction p generalizing before t r with
  | one accepts =>
      cases t with
      | nil => simp [readings] at hr
      | cons d t =>
          simp only [readings] at hr
          split at hr
          · next hd =>
            rw [List.mem_singleton.mp hr]
            intro c hc
            rw [← Option.some.inj hc]
            exact hd
          · cases hr
  | run accepts preference =>
      intro c hc
      exact (mem_readings_run.mp hr).2.2 c (List.mem_of_mem_head? hc)
  | seq p q ihp ihq =>
      obtain ⟨a, ha, b, hb, rfl⟩ := mem_readings_seq.mp hr
      intro c hc
      rw [Match.andThen_read, List.head?_append] at hc
      simp only [starts, Bool.or_eq_true, Bool.and_eq_true]
      cases hread : a.read with
      | cons d u =>
          rw [hread] at hc
          exact .inl (ihp ha c (by rw [hread]; exact hc))
      | nil =>
          rw [hread] at hc
          cases hp : p.nullable with
          | false => exact absurd hread (read_ne_nil hp ha)
          | true => exact .inr ⟨rfl, ihq hb c hc⟩
  | alt p q ihp ihq =>
      intro c hc
      simp only [starts, Bool.or_eq_true]
      rcases List.mem_append.mp hr with hr | hr
      · exact .inl (ihp hr c hc)
      · exact .inr (ihq hr c hc)
  | many p ih =>
      refine rounds_closed (P := fun r => ∀ c ∈ r.read.head?, p.starts c) (by simp) ?_
        (fun _ _ _ ha => ih ha) t before t r hr
      intro r s hr hs c hc
      rw [Match.andThen_read, List.head?_append] at hc
      cases hfirst : r.read.head? with
      | some d =>
          rw [hfirst] at hc
          exact hr c (hfirst ▸ hc)
      | none =>
          rw [hfirst] at hc
          exact hs c hc
  | part label p ih =>
      obtain ⟨a, ha, rfl⟩ := List.mem_map.mp hr
      rw [Match.labelled_read]
      exact ih ha
  | empty =>
      rw [List.mem_singleton.mp hr]
      simp
  | wordEdge | textEnd =>
      simp only [readings] at hr
      split at hr
      · rw [List.mem_singleton.mp hr]
        simp
      · cases hr

theorem ends_of_mem (hr : r ∈ p.readings before t) : ∀ c ∈ r.read.getLast?, p.ends c := by
  induction p generalizing before t r with
  | one accepts =>
      cases t with
      | nil => simp [readings] at hr
      | cons d t =>
          simp only [readings] at hr
          split at hr
          · next hd =>
            rw [List.mem_singleton.mp hr]
            intro c hc
            rw [← Option.some.inj hc]
            exact hd
          · cases hr
  | run accepts preference =>
      intro c hc
      exact (mem_readings_run.mp hr).2.2 c (List.mem_of_getLast? hc)
  | seq p q ihp ihq =>
      obtain ⟨a, ha, b, hb, rfl⟩ := mem_readings_seq.mp hr
      intro c hc
      rw [Match.andThen_read, List.getLast?_append] at hc
      simp only [ends, Bool.or_eq_true, Bool.and_eq_true]
      cases hlast : b.read.getLast? with
      | some d =>
          rw [hlast] at hc
          exact .inl (ihq hb c (hlast ▸ hc))
      | none =>
          rw [hlast] at hc
          have hnil := List.getLast?_eq_none_iff.mp hlast
          cases hq : q.nullable with
          | false => exact absurd hnil (read_ne_nil hq hb)
          | true => exact .inr ⟨rfl, ihp ha c hc⟩
  | alt p q ihp ihq =>
      intro c hc
      simp only [ends, Bool.or_eq_true]
      rcases List.mem_append.mp hr with hr | hr
      · exact .inl (ihp hr c hc)
      · exact .inr (ihq hr c hc)
  | many p ih =>
      refine rounds_closed (P := fun r => ∀ c ∈ r.read.getLast?, p.ends c) (by simp) ?_
        (fun _ _ _ ha => ih ha) t before t r hr
      intro r s hr hs c hc
      rw [Match.andThen_read, List.getLast?_append] at hc
      cases hlast : s.read.getLast? with
      | some d =>
          rw [hlast] at hc
          exact hs c (hlast ▸ hc)
      | none =>
          rw [hlast] at hc
          exact hr c hc
  | part label p ih =>
      obtain ⟨a, ha, rfl⟩ := List.mem_map.mp hr
      rw [Match.labelled_read]
      exact ih ha
  | empty =>
      rw [List.mem_singleton.mp hr]
      simp
  | wordEdge | textEnd =>
      simp only [readings] at hr
      split at hr
      · rw [List.mem_singleton.mp hr]
        simp
      · cases hr

theorem mentions_of_mem (hr : r ∈ p.readings before t) : ∀ c ∈ r.read, p.mentions c := by
  induction p generalizing before t r with
  | one accepts =>
      cases t with
      | nil => simp [readings] at hr
      | cons d t =>
          simp only [readings] at hr
          split at hr
          · next hd =>
            rw [List.mem_singleton.mp hr]
            intro c hc
            rw [List.mem_singleton.mp hc]
            exact hd
          · cases hr
  | run accepts preference => exact (mem_readings_run.mp hr).2.2
  | seq p q ihp ihq =>
      obtain ⟨a, ha, b, hb, rfl⟩ := mem_readings_seq.mp hr
      intro c hc
      simp only [mentions, Bool.or_eq_true]
      rcases List.mem_append.mp hc with hc | hc
      · exact .inl (ihp ha c hc)
      · exact .inr (ihq hb c hc)
  | alt p q ihp ihq =>
      intro c hc
      simp only [mentions, Bool.or_eq_true]
      rcases List.mem_append.mp hr with hr | hr
      · exact .inl (ihp hr c hc)
      · exact .inr (ihq hr c hc)
  | many p ih =>
      refine rounds_closed (P := fun r => ∀ c ∈ r.read, p.mentions c) (by simp) ?_
        (fun _ _ _ ha => ih ha) t before t r hr
      intro r s hr hs c hc
      rcases List.mem_append.mp hc with hc | hc
      · exact hr c hc
      · exact hs c hc
  | part label p ih =>
      obtain ⟨a, ha, rfl⟩ := List.mem_map.mp hr
      rw [Match.labelled_read]
      exact ih ha
  | empty =>
      rw [List.mem_singleton.mp hr]
      simp
  | wordEdge | textEnd =>
      simp only [readings] at hr
      split at hr
      · rw [List.mem_singleton.mp hr]
        simp
      · cases hr

/-- A pattern that reads something cannot be read where none of its first characters stands. -/
theorem read?_eq_none_of_starts (hp : p.nullable = false) (h : Stops p.starts t) :
    p.read? before t = none := by
  cases hr : p.read? before t with
  | none => rfl
  | some r =>
      have hm := mem_of_read? hr
      have ht := read?_text hr
      cases hread : r.read with
      | nil => exact absurd hread (read_ne_nil hp hm)
      | cons c u =>
          have hc := starts_of_mem hm c (by rw [hread]; rfl)
          rw [hread] at ht
          rw [← ht, List.cons_append, stops_cons, hc] at h
          cases h

theorem silent_of_starts {u v : Text} (hp : p.nullable = false) (h : ∀ c ∈ u, p.starts c = false) :
    p.Silent before u v := by
  rw [silent_iff]
  intro x y hu hy
  cases y with
  | nil => exact absurd rfl hy
  | cons c y =>
      apply read?_eq_none_of_starts hp
      exact stops_cons.mpr (h c (by rw [hu]; exact List.mem_append_right x List.mem_cons_self))

/-- The text of a part is a piece of what is read. -/
theorem isInfix_of_mem_parts (hr : r ∈ p.readings before t) : ∀ part ∈ r.parts, part.2 <:+: r.read := by
  induction p generalizing before t r with
  | one accepts => rw [(mem_readings_one hr).choose_spec.2.1]; simp
  | run accepts preference => rw [(mem_readings_run.mp hr).1]; simp
  | seq p q ihp ihq =>
      obtain ⟨a, ha, b, hb, rfl⟩ := mem_readings_seq.mp hr
      intro part hpart
      rcases List.mem_append.mp hpart with hpart | hpart
      · exact (ihq hb part hpart).trans (List.suffix_append _ _).isInfix
      · exact (ihp ha part hpart).trans (List.prefix_append _ _).isInfix
  | alt p q ihp ihq =>
      rcases List.mem_append.mp hr with hr | hr
      · exact ihp hr
      · exact ihq hr
  | many p ih =>
      refine rounds_closed (P := fun r => ∀ part ∈ r.parts, part.2 <:+: r.read) (by simp) ?_
        (fun _ _ _ ha => ih ha) t before t r hr
      intro r s hr hs part hpart
      rcases List.mem_append.mp hpart with hpart | hpart
      · exact (hs part hpart).trans (List.suffix_append _ _).isInfix
      · exact (hr part hpart).trans (List.prefix_append _ _).isInfix
  | part label p ih =>
      obtain ⟨a, ha, rfl⟩ := List.mem_map.mp hr
      intro part hpart
      rcases List.mem_cons.mp hpart with rfl | hpart
      · exact List.infix_rfl
      · exact ih ha part hpart
  | empty => rw [List.mem_singleton.mp hr]; simp
  | wordEdge | textEnd =>
      simp only [readings] at hr
      split at hr
      · rw [List.mem_singleton.mp hr]; simp
      · cases hr

theorem mem_read_of_mem_parts (hr : r ∈ p.readings before t) :
    ∀ part ∈ r.parts, ∀ c ∈ part.2, c ∈ r.read :=
  fun part hpart _ hc => (isInfix_of_mem_parts hr part hpart).subset hc

theorem not_mem_read (hr : r ∈ p.readings before t) (h : p.mentions c = false) :
    c ∉ r.read := by
  intro hc
  rw [mentions_of_mem hr c hc] at h
  cases h

end SchemaDump.Pattern
