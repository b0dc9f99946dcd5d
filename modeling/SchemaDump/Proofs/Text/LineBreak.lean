import Mathlib.Data.List.Induction
import SchemaDump.Proofs.Definition.Split
/- Line breaks with a carriage return in front of each line feed. A text is trimmed, filtered and
cut into lines in the same way whichever form its breaks have. -/
namespace SchemaDump
namespace Text

/-- The text with a carriage return in front of each line feed. -/
def withReturns (t : Text) : Text := t.flatMap fun c => if c = '\n' then ['\r', '\n'] else [c]

variable {t u v : Text} {c : Char}

@[simp] theorem withReturns_nil : withReturns [] = [] := rfl

@[simp] theorem withReturns_feed (t : Text) :
    withReturns ('\n' :: t) = '\r' :: '\n' :: t.withReturns := rfl

theorem withReturns_cons (hc : c ≠ '\n') (t : Text) : withReturns (c :: t) = c :: t.withReturns := by
  simp [withReturns, hc]

@[simp] theorem withReturns_append (u v : Text) :
    withReturns (u ++ v) = u.withReturns ++ v.withReturns := List.flatMap_append

theorem withReturns_eq_self (h : '\n' ∉ t) : t.withReturns = t := by
  induction t with
  | nil => rfl
  | cons c t ih =>
      rw [withReturns_cons (Ne.symm (List.ne_of_not_mem_cons h)), ih (List.not_mem_of_not_mem_cons h)]

@[simp] theorem withReturns_eq_nil_iff : t.withReturns = [] ↔ t = [] := by
  cases t with
  | nil => simp
  | cons c t => by_cases hc : c = '\n' <;> simp [withReturns, hc]

/-- A carriage return and the line feed behind it are classified alike. -/
def Alike (accepts : Char → Bool) : Prop := accepts '\r' = accepts '\n'

instance (accepts : Char → Bool) : Decidable (Alike accepts) :=
  inferInstanceAs (Decidable (_ = _))

theorem head?_withReturns_any {accepts : Char → Bool} (h : Alike accepts) (t : Text) :
    t.withReturns.head?.any accepts = t.head?.any accepts := by
  cases t with
  | nil => rfl
  | cons c t =>
      by_cases hc : c = '\n'
      · subst hc
        exact h
      · rw [withReturns_cons hc]
        rfl

theorem dropWhile_withReturns {accepts : Char → Bool} (h : Alike accepts) (t : Text) :
    t.withReturns.dropWhile accepts = withReturns (t.dropWhile accepts) := by
  induction t with
  | nil => rfl
  | cons c t ih =>
      by_cases hc : c = '\n'
      · subst hc
        cases hfeed : accepts '\n' with
        | true =>
            rw [withReturns_feed, List.dropWhile_cons_of_pos (h.trans hfeed),
              List.dropWhile_cons_of_pos hfeed, List.dropWhile_cons_of_pos hfeed, ih]
        | false =>
            have hreturn : ¬accepts '\r' := by simp [show accepts '\r' = _ from h, hfeed]
            rw [withReturns_feed, List.dropWhile_cons_of_neg hreturn,
              List.dropWhile_cons_of_neg (by simp [hfeed]), withReturns_feed]
      · cases haccepts : accepts c with
        | true =>
            rw [withReturns_cons hc, List.dropWhile_cons_of_pos haccepts,
              List.dropWhile_cons_of_pos haccepts, ih]
        | false =>
            rw [withReturns_cons hc, List.dropWhile_cons_of_neg (by simp [haccepts]),
              List.dropWhile_cons_of_neg (by simp [haccepts]), withReturns_cons hc]

theorem takeWhile_withReturns {accepts : Char → Bool} (h : Alike accepts) (t : Text) :
    t.withReturns.takeWhile accepts = withReturns (t.takeWhile accepts) := by
  have hsplit : t.withReturns.takeWhile accepts ++ t.withReturns.dropWhile accepts =
      withReturns (t.takeWhile accepts) ++ t.withReturns.dropWhile accepts := by
    rw [List.takeWhile_append_dropWhile, dropWhile_withReturns h, ← withReturns_append,
      List.takeWhile_append_dropWhile]
  exact List.append_cancel_right hsplit

theorem filter_withReturns {keep : Char → Bool} (hreturn : keep '\r') (hfeed : keep '\n') (t : Text) :
    t.withReturns.filter keep = withReturns (t.filter keep) := by
  induction t with
  | nil => rfl
  | cons c t ih =>
      by_cases hc : c = '\n'
      · subst hc
        rw [withReturns_feed, List.filter_cons_of_pos hreturn, List.filter_cons_of_pos hfeed,
          List.filter_cons_of_pos hfeed, ih, withReturns_feed]
      · cases hkeep : keep c with
        | true =>
            rw [withReturns_cons hc, List.filter_cons_of_pos hkeep, List.filter_cons_of_pos hkeep, ih,
              withReturns_cons hc]
        | false =>
            rw [withReturns_cons hc, List.filter_cons_of_neg (by simp [hkeep]),
              List.filter_cons_of_neg (by simp [hkeep]), ih]

theorem trimStart_withReturns (t : Text) : t.withReturns.trimStart = t.trimStart.withReturns :=
  dropWhile_withReturns (show Alike isBlank by decide) t

theorem trimEnd_concat_of_not_blank (hc : isBlank c = false) (t : Text) :
    trimEnd (t ++ [c]) = t ++ [c] := by
  apply trimEnd_eq_self
  rw [List.getLast?_concat]
  exact fun d hd => Option.some.inj hd ▸ hc

theorem trimEnd_withReturns (t : Text) : t.withReturns.trimEnd = t.trimEnd.withReturns := by
  induction t using List.reverseRecOn with
  | nil => rfl
  | append_singleton t c ih =>
      rw [withReturns_append]
      cases hblank : isBlank c with
      | true =>
          rw [trimEnd_concat_blank hblank, ← ih]
          by_cases hc : c = '\n'
          · subst hc
            have hbreak : withReturns t ++ withReturns ['\n'] = (withReturns t ++ ['\r']) ++ ['\n'] := by
              simp
            rw [hbreak, trimEnd_concat_blank (by decide), trimEnd_concat_blank (by decide)]
          · rw [withReturns_cons hc, withReturns_nil, trimEnd_concat_blank hblank]
      | false =>
          have hc : c ≠ '\n' := by
            rintro rfl
            exact absurd hblank (by decide)
          rw [trimEnd_concat_of_not_blank hblank, withReturns_append, withReturns_cons hc,
            withReturns_nil, trimEnd_concat_of_not_blank hblank]

theorem trim_withReturns (t : Text) : t.withReturns.trim = t.trim.withReturns := by
  rw [trim, trim, trimStart_withReturns, trimEnd_withReturns]

theorem splitAtChar_withReturns {d : Char} (hreturn : d ≠ '\r') (hfeed : d ≠ '\n') (t : Text) :
    Text.splitAtChar d t.withReturns = (t.splitAtChar d).map withReturns := by
  induction t with
  | nil => rfl
  | cons c t ih =>
      by_cases hc : c = '\n'
      · subst hc
        obtain ⟨part, parts, hparts, hcons⟩ := splitAtChar_cons (t := t) (Ne.symm hfeed)
        obtain ⟨p, ps, hp, hpcons⟩ := splitAtChar_cons (t := withReturns t) (Ne.symm hfeed)
        obtain ⟨q, qs, hq, hqcons⟩ :=
          splitAtChar_cons (t := '\n' :: withReturns t) (Ne.symm hreturn)
        rw [hpcons] at hq
        rw [ih, hparts] at hp
        obtain ⟨rfl, rfl⟩ := List.cons.inj hp
        obtain ⟨rfl, rfl⟩ := List.cons.inj hq
        rw [withReturns_feed, hqcons, hcons]
        rfl
      · rw [withReturns_cons hc]
        by_cases hd : c = d
        · rw [splitAtChar, if_pos hd, splitAtChar, if_pos hd, ih]
          rfl
        · obtain ⟨part, parts, hparts, hcons⟩ := splitAtChar_cons (t := t) hd
          obtain ⟨p, ps, hp, hpcons⟩ := splitAtChar_cons (t := withReturns t) hd
          rw [ih, hparts] at hp
          obtain ⟨rfl, rfl⟩ := List.cons.inj hp
          rw [hpcons, hcons, List.map_cons, withReturns_cons hc]

/-- Lines with a carriage return at the end of each but the last. -/
def endedByReturn : List Text → List Text
  | [] => []
  | [last] => [last]
  | line :: lines => (line ++ ['\r']) :: endedByReturn lines

theorem splitAtFeed_withReturns (t : Text) :
    t.withReturns.splitAtChar '\n' = endedByReturn (t.splitAtChar '\n') := by
  induction t with
  | nil => rfl
  | cons c t ih =>
      by_cases hc : c = '\n'
      · subst hc
        obtain ⟨p, ps, hp, hpcons⟩ :=
          splitAtChar_cons (d := '\n') (c := '\r') (t := '\n' :: withReturns t) (by decide)
        rw [splitAtChar, if_pos rfl] at hp
        obtain ⟨rfl, rfl⟩ := List.cons.inj hp
        rw [withReturns_feed, hpcons, ih, splitAtChar, if_pos rfl]
        obtain ⟨line, lines, hsplit⟩ := List.exists_cons_of_ne_nil (splitAtChar_ne_nil '\n' t)
        rw [hsplit]
        rfl
      · obtain ⟨part, parts, hparts, hcons⟩ := splitAtChar_cons (t := t) hc
        obtain ⟨p, ps, hp, hpcons⟩ := splitAtChar_cons (t := withReturns t) hc
        rw [ih, hparts] at hp
        rw [withReturns_cons hc, hpcons, hcons]
        cases parts with
        | nil =>
            obtain ⟨rfl, rfl⟩ := List.cons.inj hp
            rfl
        | cons next parts =>
            obtain ⟨rfl, rfl⟩ := List.cons.inj hp
            rfl

theorem closeLines_endedByReturn {lines : List Text} (h : ∀ line ∈ lines, '\r' ∉ line) :
    closeLines (endedByReturn lines) = closeLines lines := by
  induction lines with
  | nil => rfl
  | cons line lines ih =>
      cases lines with
      | nil => rfl
      | cons next lines =>
          have hrest := ih fun l hl => h l (List.mem_cons_of_mem line hl)
          have hadded : dropReturn (line ++ ['\r']) = line := by
            rw [dropReturn, if_pos List.getLast?_concat, List.dropLast_concat]
          have hnone : dropReturn line = line := by
            rw [dropReturn, if_neg]
            exact fun hlast => h line List.mem_cons_self (List.mem_of_getLast? hlast)
          obtain ⟨first, more, hmore⟩ : ∃ first more, endedByReturn (next :: lines) = first :: more := by
            cases lines <;> exact ⟨_, _, rfl⟩
          rw [endedByReturn, hmore, closeLines_cons, ← hmore, hrest, hadded, closeLines_cons, hnone]
          · exact List.cons_ne_nil next lines

theorem mem_of_mem_splitAtChar {d : Char} {part : Text} (h : part ∈ t.splitAtChar d) (hc : c ∈ part) :
    c ∈ t := by
  induction t generalizing part with
  | nil =>
      rw [List.mem_singleton.mp h] at hc
      cases hc
  | cons e t ih =>
      by_cases he : e = d
      · rw [splitAtChar, if_pos he] at h
        rcases List.mem_cons.mp h with rfl | h
        · cases hc
        · exact List.mem_cons_of_mem e (ih h hc)
      · obtain ⟨first, rest, hsplit, hcons⟩ := splitAtChar_cons (t := t) he
        rw [hcons] at h
        rcases List.mem_cons.mp h with rfl | h
        · rcases List.mem_cons.mp hc with rfl | hc
          · exact List.mem_cons_self
          · exact List.mem_cons_of_mem e (ih (hsplit ▸ List.mem_cons_self) hc)
        · exact List.mem_cons_of_mem e (ih (hsplit ▸ List.mem_cons_of_mem _ h) hc)

theorem lines_withReturns (h : '\r' ∉ t) : t.withReturns.lines = t.lines := by
  rw [lines, splitAtFeed_withReturns, closeLines_endedByReturn, lines]
  exact fun line hline hmem => h (mem_of_mem_splitAtChar hline hmem)

end Text
end SchemaDump
