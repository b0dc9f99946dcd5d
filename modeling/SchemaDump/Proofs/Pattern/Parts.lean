import SchemaDump.Proofs.Pattern.Shape
/- Which labelled parts a pattern has, and which of them are never empty, told from its shape. -/
namespace SchemaDump.Pattern

variable {ι : Type}

/-- The labelled parts of a pattern, wherever they stand in it. -/
def labelled : Pattern ι → List (ι × Pattern ι)
  | seq p q | alt p q => p.labelled ++ q.labelled
  | many p => p.labelled
  | part label p => (label, p) :: p.labelled
  | empty | one _ | run _ _ | wordEdge | textEnd => []

/-- A text that is read as one of the labelled parts. -/
def Fits (parts : List (ι × Pattern ι)) (part : ι × Text) : Prop :=
  ∃ inner, (part.1, inner) ∈ parts ∧ ∃ before t, ∃ r ∈ inner.readings before t, r.read = part.2

variable {p : Pattern ι} {before : Option Char} {t : Text} {r : Match ι}

theorem Fits.mono {parts more : List (ι × Pattern ι)} {part : ι × Text} (h : Fits parts part)
    (hmore : ∀ q ∈ parts, q ∈ more) : Fits more part := by
  obtain ⟨inner, hinner, hread⟩ := h
  exact ⟨inner, hmore _ hinner, hread⟩

theorem fits_of_mem_parts (hr : r ∈ p.readings before t) : ∀ part ∈ r.parts, Fits p.labelled part := by
  induction p generalizing before t r with
  | one accepts =>
      cases t with
      | nil => cases hr
      | cons c t =>
          simp only [readings] at hr
          split at hr
          · rw [List.mem_singleton.mp hr]
            exact fun _ hpart => absurd hpart List.not_mem_nil
          · cases hr
  | run accepts preference =>
      rw [(mem_readings_run.mp hr).1]
      exact fun _ hpart => absurd hpart List.not_mem_nil
  | seq p q ihp ihq =>
      obtain ⟨a, ha, b, hb, rfl⟩ := mem_readings_seq.mp hr
      intro part hpart
      rcases List.mem_append.mp hpart with hpart | hpart
      · exact (ihq hb part hpart).mono fun _ => List.mem_append_right _
      · exact (ihp ha part hpart).mono fun _ => List.mem_append_left _
  | alt p q ihp ihq =>
      intro part hpart
      rcases List.mem_append.mp hr with hr | hr
      · exact (ihp hr part hpart).mono fun _ => List.mem_append_left _
      · exact (ihq hr part hpart).mono fun _ => List.mem_append_right _
  | many p ih =>
      refine rounds_closed (P := fun r => ∀ part ∈ r.parts, Fits p.labelled part) (by simp) ?_
        (fun _ _ _ ha => ih ha) t before t r hr
      intro r s hr hs part hpart
      rcases List.mem_append.mp hpart with hpart | hpart
      · exact hs part hpart
      · exact hr part hpart
  | part label p ih =>
      obtain ⟨a, ha, rfl⟩ := List.mem_map.mp hr
      intro part hpart
      rcases List.mem_cons.mp hpart with rfl | hpart
      · exact ⟨p, List.mem_cons_self, before, t, a, ha, rfl⟩
      · exact (ih ha part hpart).mono fun _ => List.mem_cons_of_mem _
  | empty =>
      rw [List.mem_singleton.mp hr]
      exact fun _ hpart => absurd hpart List.not_mem_nil
  | wordEdge | textEnd =>
      simp only [readings] at hr
      split at hr
      · rw [List.mem_singleton.mp hr]
        exact fun _ hpart => absurd hpart List.not_mem_nil
      · cases hr

/-- Whether all that a pattern reads ends with a text of some kind. -/
def EndsIn (p : Pattern ι) (front : Text → Prop) : Prop :=
  ∀ before t, ∀ r ∈ p.readings before t, ∃ x f, r.read = x ++ f ∧ front f

variable {front : Text → Prop} {q : Pattern ι}

theorem EndsIn.behind (h : q.EndsIn front) (p : Pattern ι) : (p ++ q).EndsIn front := by
  intro before t r hr
  obtain ⟨a, -, b, hb, rfl⟩ := mem_readings_seq.mp hr
  obtain ⟨x, f, hread, hf⟩ := h _ _ b hb
  exact ⟨a.read ++ x, f, by rw [Match.andThen_read, hread, List.append_assoc], hf⟩

theorem EndsIn.assoc {s : Pattern ι} (h : (p ++ (q ++ s)).EndsIn front) : (p ++ q ++ s).EndsIn front := by
  intro before t r hr
  rw [readings_seq_assoc] at hr
  exact h before t r hr

theorem EndsIn.maybe (hp : p.EndsIn front) (hq : q.EndsIn front) : (p ++ Pattern.maybe q).EndsIn front := by
  intro before t r hr
  obtain ⟨a, ha, b, hb, rfl⟩ := mem_readings_seq.mp hr
  rcases mem_readings_maybe.mp hb with hb | rfl
  · exact hq.behind p before t _ (mem_readings_seq.mpr ⟨a, ha, b, hb, rfl⟩)
  · obtain ⟨x, f, hread, hf⟩ := hp _ _ a ha
    exact ⟨x, f, by rw [Match.andThen_read, hread, List.append_nil], hf⟩

variable [DecidableEq ι] {label : ι}

/-- Whether each part of a label takes at least one character. -/
def fills (label : ι) : Pattern ι → Bool
  | seq p q | alt p q => p.fills label && q.fills label
  | many p => p.fills label
  | part other p => (other ≠ label || !p.nullable) && p.fills label
  | empty | one _ | run _ _ | wordEdge | textEnd => true

theorem nullable_of_fills (h : p.fills label) : ∀ inner, (label, inner) ∈ p.labelled → inner.nullable = false := by
  induction p with
  | seq p q ihp ihq | alt p q ihp ihq =>
      obtain ⟨hp, hq⟩ := Bool.and_eq_true_iff.mp h
      intro inner hinner
      rcases List.mem_append.mp hinner with hinner | hinner
      · exact ihp hp inner hinner
      · exact ihq hq inner hinner
  | many p ih => exact ih h
  | part other p ih =>
      obtain ⟨hother, hp⟩ := Bool.and_eq_true_iff.mp h
      intro inner hinner
      rcases List.mem_cons.mp hinner with heq | hinner
      · obtain ⟨rfl, rfl⟩ := Prod.mk.inj heq
        simpa using hother
      · exact ih hp inner hinner
  | empty | one | run | wordEdge | textEnd => exact fun _ hinner => absurd hinner List.not_mem_nil

theorem part?_ne_nil {text : Text} (h : p.fills label) (hr : r ∈ p.readings before t)
    (hpart : r.part? label = some text) : text ≠ [] := by
  obtain ⟨part, hfound, rfl⟩ := Option.map_eq_some_iff.mp hpart
  have hlabel : part.1 = label := by simpa using List.find?_some hfound
  obtain ⟨inner, hinner, before, t, a, ha, hread⟩ := fits_of_mem_parts hr part (List.mem_of_find?_eq_some hfound)
  rw [← hread]
  exact read_ne_nil (nullable_of_fills h inner (hlabel ▸ hinner)) ha

theorem part?_andThen (r s : Match ι) (label : ι) : (r.andThen s).part? label = (s.part? label).or (r.part? label) := by
  rw [Match.part?, Match.andThen_parts, List.find?_append, Option.map_or]
  rfl

theorem part?_eq_none (hlabel : label ∉ p.labelled.map (·.1)) (hr : r ∈ p.readings before t) :
    r.part? label = none := by
  rw [Match.part?, Option.map_eq_none_iff, List.find?_eq_none]
  intro part hpart heq
  obtain ⟨inner, hinner, -⟩ := fits_of_mem_parts hr part hpart
  exact hlabel (List.mem_map.mpr ⟨_, hinner, of_decide_eq_true heq⟩)

/-- A part that a pattern does not have is looked up in what was read in front of it. -/
theorem part?_andThen_of_not_mem {s : Match ι} (hlabel : label ∉ p.labelled.map (·.1))
    (hr : r ∈ p.readings before t) : (s.andThen r).part? label = s.part? label := by
  rw [part?_andThen, part?_eq_none hlabel hr, Option.none_or]

/-- Whether each reading has a part of a label, read by `inner` behind a text of some kind. -/
def HasPart (p : Pattern ι) (label : ι) (front : Text → Prop) (inner : Pattern ι) : Prop :=
  ∀ before t, ∀ r ∈ p.readings before t, ∃ x f w y, r.read = x ++ (f ++ (w ++ y)) ∧ front f ∧
    r.part? label = some w ∧ ∃ b v, ∃ a ∈ inner.readings b v, a.read = w

theorem EndsIn.hasPart (h : p.EndsIn front) (label : ι) (inner : Pattern ι) :
    (p ++ part label inner).HasPart label front inner := by
  intro before t r hr
  obtain ⟨a, ha, b, hb, rfl⟩ := mem_readings_seq.mp hr
  obtain ⟨c, hc, rfl⟩ := List.mem_map.mp hb
  obtain ⟨x, f, hread, hf⟩ := h _ _ a ha
  refine ⟨x, f, c.read, [], ?_, hf, ?_, _, _, c, hc, rfl⟩
  · rw [Match.andThen_read, Match.labelled_read, hread, List.append_nil, List.append_assoc]
  · rw [part?_andThen]
    simp [Match.part?]

theorem HasPart.seq {inner : Pattern ι} (h : p.HasPart label front inner) (hlabel : label ∉ q.labelled.map (·.1)) :
    (p ++ q).HasPart label front inner := by
  intro before t r hr
  obtain ⟨a, ha, b, hb, rfl⟩ := mem_readings_seq.mp hr
  obtain ⟨x, f, w, y, hread, hf, hpart, hinner⟩ := h _ _ a ha
  refine ⟨x, f, w, y ++ b.read, ?_, hf, ?_, hinner⟩
  · simp only [Match.andThen_read, hread, List.append_assoc]
  · rw [part?_andThen_of_not_mem hlabel hb, hpart]

theorem isInfix_of_part? {text : Text} (hr : r ∈ p.readings before t) (hpart : r.part? label = some text) :
    text <:+: t := by
  obtain ⟨part, hfound, rfl⟩ := Option.map_eq_some_iff.mp hpart
  have hread := isInfix_of_mem_parts hr part (List.mem_of_find?_eq_some hfound)
  exact hread.trans (readings_text p before t r hr ▸ (List.prefix_append _ _).isInfix)

end SchemaDump.Pattern
