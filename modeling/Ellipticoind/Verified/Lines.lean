import Mathlib.Algebra.GroupWithZero.Nat
import Mathlib.Data.List.Basic
import Mathlib.Data.List.DropRight

/-!
# Lines in pieces

A text of lines is cut into pieces, and every piece is read by itself: blanks
are taken off its ends and the rest is split at the separators.  The separator
is a blank too, so a piece may begin or end with one.

Nothing is lost by this, but a line that is cut becomes two.  `blocks` counts the
lines of a text that are not blank; it grows by one with every such cut, and a
piece is split into at least as many parts.

## Main results

* `parts_stream` — what becomes of whole lines.
* `texts_eq_iff` — the pieces give the lines back if, and only if, no line is cut.
-/

namespace Ellipticoind.Verified.Lines

variable {α : Type} (sep : α) (blank : α → Bool)

/-- The lines, each with the separator behind it. -/
def stream (lines : List (List α)) : List α := lines.flatMap (· ++ [sep])

/-- The text without the blanks at its ends. -/
def trim (text : List α) : List α := (text.dropWhile blank).rdropWhile blank

/-- A line that begins and ends with a letter. -/
structure Tidy (line : List α) : Prop where
  sep_notMem : sep ∉ line
  first : ∃ c rest, line = c :: rest ∧ blank c = false
  last : ∃ rest c, line = rest ++ [c] ∧ blank c = false

/-- The place between two texts is the end of a line, on one side of the
separator or the other. -/
def EndsLine (x y : List α) : Prop :=
  x = [] ∨ y = [] ∨ x.getLast? = some sep ∨ y.head? = some sep

/-- What a piece is split into. -/
def parts [DecidableEq α] (piece : List α) : List (List α) := (trim blank piece).splitOn sep

/-- What all pieces are split into, but for empty parts. -/
def texts [DecidableEq α] (pieces : List (List α)) : List (List α) :=
  (pieces.flatMap (parts sep blank)).filter (· ≠ [])

variable {sep blank}

@[simp] theorem stream_nil : stream sep [] = [] := rfl

theorem stream_cons (line : List α) (lines : List (List α)) :
    stream sep (line :: lines) = line ++ sep :: stream sep lines := by
  simp [stream]

theorem stream_append (lines others : List (List α)) :
    stream sep (lines ++ others) = stream sep lines ++ stream sep others :=
  List.flatMap_append

/-! ## Whole lines -/

/-- What ends with a separator ends with a line. -/
theorem stream_split {lines : List (List α)} (hlines : ∀ line ∈ lines, sep ∉ line) :
    ∀ {x y : List α}, stream sep lines = x ++ y → x = [] ∨ x.getLast? = some sep →
      ∃ before after, lines = before ++ after ∧ x = stream sep before ∧
        y = stream sep after := by
  induction lines with
  | nil =>
      intro x y h _
      obtain ⟨rfl, rfl⟩ := List.append_eq_nil_iff.mp h.symm
      exact ⟨[], [], rfl, rfl, rfl⟩
  | cons line lines ih =>
      intro x y h hx
      obtain ⟨hline, hrest⟩ := List.forall_mem_cons.mp hlines
      rcases hx with rfl | hlast
      · exact ⟨[], line :: lines, rfl, rfl, h.symm⟩
      · rw [stream_cons, List.append_eq_append_iff] at h
        rcases h with ⟨tail, rfl, htail⟩ | ⟨tail, rfl, htail⟩
        · -- the text reaches behind the line
          cases tail with
          | nil =>
              rw [List.append_nil] at hlast
              exact absurd (List.mem_of_getLast? hlast) hline
          | cons c tail =>
              obtain ⟨rfl, hstream⟩ := List.cons.inj htail
              have htail' : tail = [] ∨ tail.getLast? = some sep := by
                cases tail with
                | nil => exact .inl rfl
                | cons c' tail =>
                    rw [List.getLast?_append_cons, List.getLast?_cons_cons] at hlast
                    exact .inr hlast
              obtain ⟨before, after, rfl, rfl, rfl⟩ := ih hrest hstream htail'
              exact ⟨line :: before, after, rfl, (stream_cons line before).symm, rfl⟩
        · exact absurd (List.mem_append_left _ (List.mem_of_getLast? hlast)) hline

theorem EndsLine.of_append {x y z : List α} (h : EndsLine sep (x ++ y) z) :
    EndsLine sep y z := by
  by_cases hy : y = []
  · exact .inl hy
  · rcases h with h | h | h | h
    · exact absurd (List.append_eq_nil_iff.mp h).2 hy
    · exact .inr (.inl h)
    · rw [List.getLast?_append_of_ne_nil _ hy] at h
      exact .inr (.inr (.inl h))
    · exact .inr (.inr (.inr h))

/-- The same behind a separator that is left from the line before. -/
theorem stream_split_lead {lines : List (List α)} (hlines : ∀ line ∈ lines, sep ∉ line)
    {lead x y : List α} (hlead : lead = [] ∨ lead = [sep])
    (h : x ++ y = lead ++ stream sep lines) (hx : x.getLast? = some sep) :
    ∃ before after, lines = before ++ after ∧ x = lead ++ stream sep before ∧
      y = stream sep after := by
  rcases hlead with rfl | rfl
  · exact stream_split hlines h.symm (.inr hx)
  · cases x with
    | nil => cases hx
    | cons c x =>
        obtain ⟨rfl, hrest⟩ := List.cons.inj h
        have hx' : x = [] ∨ x.getLast? = some c := by
          cases x with
          | nil => exact .inl rfl
          | cons c' x =>
              rw [List.getLast?_cons_cons] at hx
              exact .inr hx
        obtain ⟨before, after, rfl, rfl, rfl⟩ := stream_split hlines hrest.symm hx'
        exact ⟨before, after, rfl, rfl, rfl⟩

/-- Blanks at the ends are taken off, and nothing else. -/
theorem trim_eq {lead body trail : List α} (hlead : ∀ c ∈ lead, blank c = true)
    (htrail : ∀ c ∈ trail, blank c = true)
    (hfirst : ∃ c rest, body = c :: rest ∧ blank c = false)
    (hlast : ∃ rest c, body = rest ++ [c] ∧ blank c = false) :
    trim blank (lead ++ (body ++ trail)) = body := by
  have hdrop : (lead ++ (body ++ trail)).dropWhile blank = body ++ trail := by
    obtain ⟨c, rest, rfl, hc⟩ := hfirst
    rw [List.dropWhile_append_of_pos hlead, List.cons_append,
      List.dropWhile_cons_of_neg (by simp [hc])]
  rw [trim, hdrop]
  clear hdrop
  induction trail using List.reverseRecOn with
  | nil =>
      obtain ⟨rest, c, rfl, hc⟩ := hlast
      rw [List.append_nil, List.rdropWhile_concat_neg _ _ _ (by simp [hc])]
  | append_singleton trail c ih =>
      rw [← List.append_assoc, List.rdropWhile_concat_pos _ _ _ (htrail c (by simp))]
      exact ih fun c' hc' => htrail c' (List.mem_append_left _ hc')

variable [DecidableEq α]

/-- Lines without the last separator. -/
theorem stream_body {lines : List (List α)} (hne : lines ≠ [])
    (htidy : ∀ line ∈ lines, Tidy sep blank line) :
    ∃ body, stream sep lines = body ++ [sep] ∧ body.splitOn sep = lines ∧
      (∃ c rest, body = c :: rest ∧ blank c = false) ∧
      ∃ rest c, body = rest ++ [c] ∧ blank c = false := by
  induction lines with
  | nil => exact absurd rfl hne
  | cons line lines ih =>
      obtain ⟨hline, hrest⟩ := List.forall_mem_cons.mp htidy
      by_cases hlines : lines = []
      · subst hlines
        exact ⟨line, stream_cons line [], List.splitOn_eq_singleton hline.sep_notMem,
          hline.first, hline.last⟩
      · obtain ⟨body, hstream, hsplit, -, rest, c, rfl, hc⟩ := ih hlines hrest
        refine ⟨line ++ sep :: (rest ++ [c]), ?_, ?_, ?_, ?_⟩
        · rw [stream_cons, hstream]
          simp
        · rw [List.splitOn_append_cons_self_of_not_mem hline.sep_notMem, hsplit]
        · obtain ⟨c', rest', rfl, hc'⟩ := hline.first
          exact ⟨c', _, List.cons_append, hc'⟩
        · exact ⟨line ++ sep :: rest, c, by simp, hc⟩

theorem parts_blank {piece : List α} (h : ∀ c ∈ piece, blank c = true) :
    (parts sep blank piece).filter (· ≠ []) = [] := by
  have hdrop : piece.dropWhile blank = [] := List.dropWhile_eq_nil_iff.mpr h
  rw [parts, trim, hdrop, List.rdropWhile_nil, List.splitOn_nil]
  rfl

/-- **Whole lines are given back, with or without a separator at either end.** -/
theorem parts_stream (hsep : blank sep = true) {lines : List (List α)}
    (htidy : ∀ line ∈ lines, Tidy sep blank line) {lead piece trail : List α}
    (hlead : ∀ c ∈ lead, c = sep) (htrail : ∀ c ∈ trail, c = sep)
    (h : piece ++ trail = lead ++ stream sep lines) (hlength : trail.length ≤ 1) :
    (parts sep blank piece).filter (· ≠ []) = lines := by
  have hblank : ∀ {xs : List α}, (∀ c ∈ xs, c = sep) → ∀ c ∈ xs, blank c = true :=
    fun hxs c hc => hxs c hc ▸ hsep
  by_cases hne : lines = []
  · subst hne
    rw [stream_nil, List.append_nil] at h
    refine parts_blank fun c hc => hblank hlead c ?_
    rw [← h]
    exact List.mem_append_left _ hc
  · obtain ⟨body, hstream, hsplit, hfirst, hlast⟩ := stream_body hne htidy
    have hpiece : ∃ rest, piece = lead ++ (body ++ rest) ∧ ∀ c ∈ rest, c = sep := by
      rw [hstream, ← List.append_assoc] at h
      cases trail with
      | nil =>
          rw [List.append_nil] at h
          exact ⟨[sep], by rw [h, List.append_assoc], by simp⟩
      | cons c trail =>
          have hnil : trail = [] := List.length_eq_zero_iff.mp (by simpa using hlength)
          subst hnil
          have heq := List.append_inj_left' h rfl
          exact ⟨[], by rw [heq, List.append_nil], by simp⟩
    obtain ⟨rest, rfl, hrest⟩ := hpiece
    have htrim := trim_eq (hblank hlead) (hblank hrest) hfirst hlast
    rw [parts, htrim, hsplit]
    refine List.filter_eq_self.mpr fun line hline => ?_
    obtain ⟨c, tail, rfl, -⟩ := (htidy line hline).first
    simp

/-! ## Counting -/

/-- How many stretches without a separator have a letter, but for the first one
if that has been seen to. -/
def blocks (sep : α) (blank : α → Bool) : Bool → List α → Nat
  | _, [] => 0
  | seen, c :: rest =>
      if c = sep then blocks sep blank false rest
      else if blank c = true ∨ seen = true then blocks sep blank seen rest
      else blocks sep blank true rest + 1

theorem blocks_true_le (xs : List α) :
    blocks sep blank true xs ≤ blocks sep blank false xs ∧
      blocks sep blank false xs ≤ blocks sep blank true xs + 1 := by
  induction xs with
  | nil => simp [blocks]
  | cons c rest ih =>
      by_cases hsep : c = sep
      · simp [blocks, hsep]
      · by_cases hc : blank c = true
        · simpa [blocks, hsep, hc] using ih
        · simp [blocks, hsep, hc]

theorem blocks_le_false (seen : Bool) (xs : List α) :
    blocks sep blank seen xs ≤ blocks sep blank false xs := by
  cases seen with
  | false => exact le_rfl
  | true => exact (blocks_true_le xs).1

/-- A cut adds to the count, if anything. -/
theorem blocks_append_le (seen : Bool) (xs ys : List α) :
    blocks sep blank seen (xs ++ ys) ≤
      blocks sep blank seen xs + blocks sep blank false ys := by
  induction xs generalizing seen with
  | nil => simpa [blocks] using blocks_le_false seen ys
  | cons c rest ih =>
      rw [List.cons_append, blocks, blocks]
      split
      · exact ih false
      · split
        · exact ih seen
        · have := ih true
          omega

theorem blocks_flatten_le (pieces : List (List α)) :
    blocks sep blank false pieces.flatten ≤ (pieces.map (blocks sep blank false)).sum := by
  induction pieces with
  | nil => simp [blocks]
  | cons piece pieces ih =>
      have happend : blocks sep blank false (piece ++ pieces.flatten) ≤
          blocks sep blank false piece + blocks sep blank false pieces.flatten :=
        blocks_append_le false piece pieces.flatten
      rw [List.flatten_cons, List.map_cons, List.sum_cons]
      omega

theorem blocks_dropWhile (xs : List α) :
    blocks sep blank false (xs.dropWhile blank) = blocks sep blank false xs := by
  induction xs with
  | nil => rfl
  | cons c rest ih =>
      by_cases hc : blank c = true
      · rw [List.dropWhile_cons_of_pos hc, ih, blocks]
        simp [hc]
      · rw [List.dropWhile_cons_of_neg hc]

theorem blocks_concat_blank {c : α} (hc : blank c = true) (seen : Bool) (xs : List α) :
    blocks sep blank seen (xs ++ [c]) = blocks sep blank seen xs := by
  induction xs generalizing seen with
  | nil => simp [blocks, hc]
  | cons c' rest ih =>
      rw [List.cons_append, blocks, blocks, ih false, ih seen, ih true]

/-- Blanks at the ends do not count. -/
theorem blocks_trim (xs : List α) :
    blocks sep blank false (trim blank xs) = blocks sep blank false xs := by
  rw [trim, ← blocks_dropWhile xs]
  generalize xs.dropWhile blank = ys
  induction ys using List.reverseRecOn with
  | nil => rfl
  | append_singleton ys c ih =>
      by_cases hc : blank c = true
      · rw [List.rdropWhile_concat_pos _ _ _ hc, ih, blocks_concat_blank hc]
      · rw [List.rdropWhile_concat_neg _ _ _ hc]

/-- Every stretch that has a letter is a part that is not empty. -/
theorem blocks_le_splitOn (xs : List α) :
    blocks sep blank false xs ≤ ((xs.splitOn sep).filter (· ≠ [])).length ∧
      blocks sep blank true xs ≤ ((xs.splitOn sep).tail.filter (· ≠ [])).length := by
  induction xs with
  | nil => simp [blocks]
  | cons c rest ih =>
      obtain ⟨ihfalse, ihtrue⟩ := ih
      have htrue : blocks sep blank false rest ≤ blocks sep blank true rest + 1 :=
        (blocks_true_le rest).2
      rw [List.splitOn_cons_eq_if_modifyHead, blocks, blocks]
      by_cases hsep : c = sep
      · simp only [hsep, if_true, beq_self_eq_true]
        constructor
        · rw [List.filter_cons_of_neg (by simp)]
          exact ihfalse
        · exact ihfalse
      · obtain ⟨part, parts, hparts⟩ :=
          List.exists_cons_of_ne_nil (List.splitOn_ne_nil sep rest)
        have hbeq : (c == sep) = false := beq_eq_false_iff_ne.mpr hsep
        rw [hparts, List.tail_cons] at ihtrue
        rw [if_neg hsep, if_neg hsep, hparts, hbeq]
        simp only [Bool.false_eq_true, if_false, List.modifyHead_cons, List.tail_cons,
          or_false, or_true, if_true]
        rw [List.filter_cons_of_pos (by simp), List.length_cons]
        refine ⟨?_, ihtrue⟩
        split <;> omega

theorem blocks_le_parts (piece : List α) :
    blocks sep blank false piece ≤ ((parts sep blank piece).filter (· ≠ [])).length := by
  rw [← blocks_trim piece]
  exact (blocks_le_splitOn _).1

theorem blocks_le_texts (pieces : List (List α)) :
    (pieces.map (blocks sep blank false)).sum ≤ (texts sep blank pieces).length := by
  induction pieces with
  | nil => simp
  | cons piece pieces ih =>
      have hpiece : blocks sep blank false piece ≤
          ((parts sep blank piece).filter (· ≠ [])).length := blocks_le_parts piece
      rw [texts] at ih ⊢
      rw [List.map_cons, List.sum_cons, List.flatMap_cons, List.filter_append,
        List.length_append]
      omega

/-! ## A line that is cut -/

/-- Once a letter has been seen, the rest of its stretch does not count. -/
theorem blocks_true_append {line : List α} (hline : sep ∉ line) (rest : List α) :
    blocks sep blank true (line ++ rest) = blocks sep blank true rest := by
  induction line with
  | nil => rfl
  | cons c line ih =>
      have hc := List.ne_of_not_mem_cons hline
      have hline := List.not_mem_of_not_mem_cons hline
      rw [List.cons_append, blocks, if_neg (Ne.symm hc), if_pos (.inr rfl), ih hline]

/-- A stretch that ends with a letter counts. -/
theorem blocks_last {part rest : List α} (hpart : sep ∉ part)
    (hlast : ∃ before c, part = before ++ [c] ∧ blank c = false) :
    blocks sep blank false (part ++ sep :: rest) = 1 + blocks sep blank false rest := by
  induction part with
  | nil =>
      obtain ⟨before, c, h, -⟩ := hlast
      cases before <;> cases h
  | cons c part ih =>
      have hsep : c ≠ sep := (List.ne_of_not_mem_cons hpart).symm
      have hpart := List.not_mem_of_not_mem_cons hpart
      by_cases hblank : blank c = true
      · obtain ⟨before, c', h, hc'⟩ := hlast
        cases before with
        | nil =>
            cases h
            rw [hblank] at hc'
            cases hc'
        | cons c'' before =>
            have htail : part = before ++ [c'] := (List.cons.inj h).2
            rw [List.cons_append, blocks, if_neg hsep, if_pos (.inl hblank)]
            exact ih hpart ⟨before, c', htail, hc'⟩
      · rw [List.cons_append, blocks, if_neg hsep, if_neg (by simp [hblank]),
          blocks_true_append hpart, blocks, if_pos rfl, Nat.add_comm]

theorem blocks_stream {lines : List (List α)} (htidy : ∀ line ∈ lines, Tidy sep blank line) :
    blocks sep blank false (stream sep lines) = lines.length := by
  induction lines with
  | nil => rfl
  | cons line lines ih =>
      obtain ⟨hline, hrest⟩ := List.forall_mem_cons.mp htidy
      rw [stream_cons, blocks_last hline.sep_notMem hline.last, ih hrest, List.length_cons,
        Nat.add_comm]

/-- A cut that is at no line's end makes two of one. -/
theorem blocks_of_cut {lines : List (List α)}
    (htidy : ∀ line ∈ lines, Tidy sep blank line) :
    ∀ {x y : List α}, stream sep lines = x ++ y → ¬ EndsLine sep x y →
      lines.length + 1 ≤ blocks sep blank false x + blocks sep blank false y := by
  induction lines with
  | nil =>
      intro x y h hcut
      obtain ⟨rfl, rfl⟩ := List.append_eq_nil_iff.mp h.symm
      exact absurd (.inl rfl) hcut
  | cons line lines ih =>
      intro x y h hcut
      obtain ⟨hline, hrest⟩ := List.forall_mem_cons.mp htidy
      simp only [EndsLine, not_or] at hcut
      obtain ⟨hx, hy, hlast, hhead⟩ := hcut
      rw [stream_cons, List.append_eq_append_iff] at h
      rcases h with ⟨tail, rfl, htail⟩ | ⟨tail, rfl, htail⟩
      · cases tail with
        | nil =>
            rw [List.nil_append] at htail
            exact absurd (by rw [← htail]; rfl) hhead
        | cons c tail =>
            obtain ⟨rfl, hstream⟩ := List.cons.inj htail
            have htail' : ¬ EndsLine sep tail y := by
              cases tail with
              | nil => exact absurd (by simp) hlast
              | cons c' tail =>
                  rw [List.getLast?_append_cons, List.getLast?_cons_cons] at hlast
                  simp only [EndsLine, not_or]
                  exact ⟨List.cons_ne_nil _ _, hy, hlast, hhead⟩
            have := ih hrest hstream htail'
            rw [blocks_last hline.sep_notMem hline.last, List.length_cons]
            omega
      · -- the text ends within the line
        have hpart : sep ∉ tail := fun hmem => hline.sep_notMem (List.mem_append_right _ hmem)
        have htail' : ∃ before c, tail = before ++ [c] ∧ blank c = false := by
          obtain ⟨before, c, heq, hc⟩ := hline.last
          rcases List.eq_nil_or_concat tail with rfl | ⟨front, c', rfl⟩
          · rw [List.nil_append] at htail
            exact absurd (by rw [htail]; rfl) hhead
          · rw [List.concat_eq_append, ← List.append_assoc] at heq
            obtain ⟨-, hc'⟩ := List.append_inj' heq rfl
            cases hc'
            exact ⟨front, c, List.concat_eq_append, hc⟩
        have hfirst : 1 ≤ blocks sep blank false x := by
          obtain ⟨c, rest, heq, hc⟩ := hline.first
          cases x with
          | nil => exact absurd rfl hx
          | cons c' x =>
              obtain ⟨rfl, -⟩ := List.cons.inj heq
              have hne : c' ≠ sep := fun hmem => hline.sep_notMem (hmem ▸ List.mem_cons_self)
              rw [blocks, if_neg hne, if_neg (by simp [hc])]
              omega
        rw [htail, blocks_last hpart htail', blocks_stream hrest, List.length_cons]
        omega

/-! ## All pieces -/

/-- What the first of the pieces gives, and what is left to the others. -/
theorem parts_of_endsLine (hsep : blank sep = true) {lines : List (List α)}
    (htidy : ∀ line ∈ lines, Tidy sep blank line) {lead piece rest : List α}
    (hlead : lead = [] ∨ lead = [sep]) (h : piece ++ rest = lead ++ stream sep lines)
    (hend : EndsLine sep piece rest) :
    ∃ before after lead', lines = before ++ after ∧ (lead' = [] ∨ lead' = [sep]) ∧
      rest = lead' ++ stream sep after ∧
      (parts sep blank piece).filter (· ≠ []) = before := by
  have hnotMem : ∀ line ∈ lines, sep ∉ line := fun line hline => (htidy line hline).sep_notMem
  have hseps : ∀ c ∈ lead, c = sep := by
    rcases hlead with rfl | rfl <;> simp
  rcases hend with rfl | rfl | hlast | hhead
  · exact ⟨[], lines, lead, rfl, hlead, h, parts_blank (by simp)⟩
  · exact ⟨lines, [], [], (List.append_nil lines).symm, .inl rfl, rfl,
      parts_stream hsep htidy hseps (by simp) h (by simp)⟩
  · obtain ⟨before, after, rfl, hpiece, hrest⟩ := stream_split_lead hnotMem hlead h hlast
    have htidy' : ∀ line ∈ before, Tidy sep blank line :=
      fun line hline => htidy line (List.mem_append_left _ hline)
    rw [← List.append_nil piece] at hpiece
    exact ⟨before, after, [], rfl, .inl rfl, hrest,
      parts_stream hsep htidy' hseps (by simp) hpiece (by simp)⟩
  · cases rest with
    | nil => cases hhead
    | cons c rest =>
        cases hhead
        have h' : (piece ++ [sep]) ++ rest = lead ++ stream sep lines := by
          rw [← h, List.append_assoc]
          rfl
        obtain ⟨before, after, rfl, hpiece, hrest⟩ :=
          stream_split_lead hnotMem hlead h' (by simp)
        have htidy' : ∀ line ∈ before, Tidy sep blank line :=
          fun line hline => htidy line (List.mem_append_left _ hline)
        refine ⟨before, after, [sep], rfl, .inr rfl, by rw [hrest]; rfl, ?_⟩
        exact parts_stream hsep htidy' hseps (by simp) hpiece (by simp)

theorem texts_of_cuts (hsep : blank sep = true) {pieces : List (List α)} :
    ∀ {lines : List (List α)} {lead : List α}, (∀ line ∈ lines, Tidy sep blank line) →
      (lead = [] ∨ lead = [sep]) → pieces.flatten = lead ++ stream sep lines →
      (∀ before after, pieces = before ++ after →
        EndsLine sep before.flatten after.flatten) →
      texts sep blank pieces = lines := by
  induction pieces with
  | nil =>
      intro lines lead htidy hlead h _
      have hnil : stream sep lines = [] := (List.append_eq_nil_iff.mp h.symm).2
      cases lines with
      | nil => rfl
      | cons line lines =>
          rw [stream_cons] at hnil
          simp at hnil
  | cons piece pieces ih =>
      intro lines lead htidy hlead h hcuts
      have hend := hcuts [piece] pieces rfl
      rw [List.flatten_singleton] at hend
      obtain ⟨before, after, lead', rfl, hlead', hrest, hparts⟩ :=
        parts_of_endsLine hsep htidy hlead h hend
      have hafter : texts sep blank pieces = after := by
        refine ih (fun line hline => htidy line (List.mem_append_right _ hline)) hlead' hrest ?_
        rintro front back rfl
        exact (hcuts (piece :: front) back rfl).of_append
      rw [texts] at hafter ⊢
      rw [List.flatMap_cons, List.filter_append, hparts, hafter]

/-- **The pieces give the lines back if, and only if, no line is cut.** -/
theorem texts_eq_iff (hsep : blank sep = true) {lines pieces : List (List α)}
    (htidy : ∀ line ∈ lines, Tidy sep blank line)
    (h : pieces.flatten = stream sep lines) :
    texts sep blank pieces = lines ↔ ∀ before after, pieces = before ++ after →
      EndsLine sep before.flatten after.flatten := by
  constructor
  · rintro htexts before after rfl
    by_contra hcut
    rw [List.flatten_append] at h
    have hcount := blocks_of_cut htidy h.symm hcut
    have hbefore : blocks sep blank false before.flatten ≤
        (before.map (blocks sep blank false)).sum := blocks_flatten_le before
    have hafter : blocks sep blank false after.flatten ≤
        (after.map (blocks sep blank false)).sum := blocks_flatten_le after
    have htotal : ((before ++ after).map (blocks sep blank false)).sum ≤
        (texts sep blank (before ++ after)).length := blocks_le_texts (before ++ after)
    rw [List.map_append, List.sum_append, htexts] at htotal
    omega
  · exact texts_of_cuts hsep htidy (.inl rfl) h

end Ellipticoind.Verified.Lines
