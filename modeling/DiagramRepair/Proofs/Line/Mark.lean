import DiagramRepair.Proofs.Line.Normal
import Mathlib.Data.List.Forall2

namespace DiagramRepair.Line

open Pattern

variable {c : Char} {k k' s t tail u v x y : Text} {inner : String}

def undecorated (x : Text) : Text := x.filter fun c ↦ !among "()\x7b\x7d" c

def bare (x : Text) : Text := undecorated (Text.dropQuotes x)

/-- The brackets of the text come in groups, none of which holds any of the inner characters. -/
inductive Grouped (inner : String) : Text → Prop
  | nil : Grouped inner []
  | plain {c : Char} {t : Text} (hc : c ≠ '[' ∧ c ≠ ']') : Grouped inner t → Grouped inner (c :: t)
  | group {y t : Text} (hy : ∀ c ∈ y, among inner c = false) :
      Grouped inner t → Grouped inner ('[' :: (y ++ ']' :: t))

abbrev Boxed (x : Text) : Prop := Grouped "[]\"|" x

def EndsArrow (k : Text) : Prop := ∃ k' arrow s, k = k' ++ (arrow ++ s) ∧ IsArrow arrow ∧ Blank s

def EndsDashes (k : Text) : Prop := ∃ k' s, k = k' ++ (Text.of "--" ++ s) ∧ Blank s

def BarsApart (x : Text) : Prop := ∀ u v, x = u ++ '|' :: v → ¬ EndsArrow u

/-- The text can stand in quotes by itself: no group in it would lose decorations. -/
structure Standing (x : Text) : Prop where
  boxed : Boxed x
  unquoted : '"' ∉ x
  apart : BarsApart x
  undecorated_eq : '[' ∈ x → undecorated x = x

structure Quotable (x : Text) : Prop where
  boxed : Boxed x
  unquoted : '"' ∉ x
  apart : BarsApart (undecorated x)
  -- an opening bracket and quote before a terminator are taken for a dangling tail
  head : (undecorated x).head? ≠ some ';'

def needsQuotes (x : Text) : Bool :=
  x.head?.all (· != '\'') && x.any (among "[]|") && !(singleGroupPattern.fullMatch? x).isSome

structure Labels (k x : Text) : Prop where
  boxed : Boxed x
  -- an odd number of quotes turns what is behind the label inside out
  quotes : x.count '"' % 2 = 0
  apart : BarsApart (bare x)
  head : (bare x).head? ≠ some ';'
  unquoted : (undecorated x).head? ≠ some '"'
  -- a label gets its quotes behind a name; behind dashes they look like those of an edge label
  place : needsQuotes x → k.getLast?.any (fun c ↦ !Text.isBlank c) ∧ ¬ EndsDashes k

def gluedTo (k x : Text) : Bool := opensGluedLabel k.getLast? (x ++ ['"'])

def isNamed (k : Text) : Bool := k.getLast?.any isIdentifierChar

inductive Mark where
  | label (x : Text)
  | quoted (x : Text)
  | standing (x : Text)
  | bar (x : Text)
  | quotedBar (x : Text)
  | dangling (x : Text)
  | broken (s x s' : Text)
  | edge (x : Text)

/-- A run of characters and the mark that ends it. -/
structure Part where
  run : Text
  mark : Mark

namespace Mark

def text : Mark → Text
  | label x => '[' :: (x ++ [']'])
  | quoted x => '[' :: '"' :: (x ++ ['"', ']'])
  | standing x => '"' :: (x ++ ['"'])
  | bar x => '|' :: (x ++ ['|'])
  | quotedBar x => '|' :: '"' :: (x ++ ['"', '|'])
  | dangling x => '[' :: '"' :: (x ++ ['[', '"'])
  | broken s x s' => '-' :: '-' :: (s ++ '[' :: '"' :: (x ++ '[' :: '"' :: s'))
  | edge x => '-' :: '-' :: ' ' :: '"' :: (x ++ ['"', ' '])

def Fits (k : Text) : Mark → Prop
  | label x => Labels k x
  | quoted x | dangling x => Quotable x ∧ ¬ EndsDashes k
  | standing x => Standing x ∧ (gluedTo k x → Quotable x)
  | bar x => Standing x ∧ x ≠ [] ∧ '|' ∉ x ∧ EndsArrow k
  | quotedBar x | edge x => Standing x
  | broken s x s' =>
    Standing x ∧ x ≠ [] ∧ '\n' ∉ x ∧ x.head? ≠ some ';' ∧ Blank s ∧ Blank s'

/-- No step turns the mark into one of another kind but by its quotes or decorations. -/
def IsSettled : Mark → Prop
  | standing _ | dangling _ | broken _ _ _ => False
  | _ => True

def IsDangling : Mark → Prop
  | dangling _ => True
  | _ => False

def IsBroken : Mark → Prop
  | broken _ _ _ => True
  | _ => False

def IsWhole : Mark → Prop
  | dangling _ | broken _ _ _ => False
  | _ => True

end Mark

def Part.IsGlued (p : Part) : Prop := ∃ x, p.mark = .standing x ∧ gluedTo p.run x

def render : List Part → (tail : Text) → Text
  | [], tail => tail
  | p :: ps, tail => p.run ++ (p.mark.text ++ render ps tail)

def firstRun : List Part → (tail : Text) → Text
  | [], tail => tail
  | p :: _, _ => p.run

def Mark.Precedes (ps : List Part) (tail : Text) : Mark → Prop
  | dangling _ => ps = [] ∧ tail = [] ∨ ∃ r, firstRun ps tail = ';' :: r
  | broken _ _ _ => (∃ r, firstRun ps tail = Text.of "-->" ++ r) ∧ ∀ p ∈ ps, ¬ p.IsGlued
  | _ => True

structure IsRun (k : Text) : Prop where
  plain : ∀ c ∈ k, c ≠ '"' ∧ c ≠ '['
  apart : BarsApart k

inductive Orderly : List Part → (tail : Text) → Prop
  | nil {tail : Text} : IsRun tail → Orderly [] tail
  | cons {p : Part} {ps : List Part} {tail : Text} : IsRun p.run → p.mark.Fits p.run →
      p.mark.Precedes ps tail → Orderly ps tail → Orderly (p :: ps) tail

namespace Mark

def bracketed (k : Text) : Mark → Mark
  | standing x => if gluedTo k x then quoted x else standing x
  | m => m

def closed (_ : Text) : Mark → Mark
  | dangling x => quoted x
  | m => m

def straightened (_ : Text) : Mark → Mark
  | broken _ x _ => edge x
  | m => m

def labelQuoted (_ : Text) : Mark → Mark
  | label x => if needsQuotes x then quoted (Text.dropQuotes x) else label x
  | m => m

def barQuoted (_ : Text) : Mark → Mark
  | bar x => quotedBar x
  | m => m

def stripped (k : Text) : Mark → Mark
  | label x =>
    if isNamed k && !x.head?.any (among "([/\\\x7b") then label (undecorated x) else label x
  | quoted x => if isNamed k then quoted (undecorated x) else quoted x
  | m => m

def repaired (k : Text) (m : Mark) : Mark :=
  labelQuoted k (straightened k (closed k (bracketed k m)))

def finished (k : Text) (m : Mark) : Mark := stripped k (barQuoted k m)

end Mark

def mapMarks (f : Text → Mark → Mark) (ps : List Part) : List Part :=
  ps.map fun p ↦ ⟨p.run, f p.run p.mark⟩

theorem IsRun.not_open (hk : IsRun k) : '[' ∉ k := fun hmem ↦ (hk.plain _ hmem).2 rfl

theorem not_open_of_blank (hs : Blank s) : '[' ∉ s := not_mem_of_class hs (by decide)

theorem not_dash_of_blank (hs : Blank s) : '-' ∉ s := not_mem_of_class hs (by decide)

def isArrowChar (c : Char) : Bool := among "-=>." c || Text.isBlank c

theorem isArrowChar_of_mem {arrow : Text} (harrow : IsArrow arrow) (hs : Blank s)
    (hc : c ∈ arrow ++ s) : isArrowChar c := by
  have hsign : ∀ sign ∈ [Text.of "-->", Text.of "---", Text.of "==>", Text.of "-.->"],
      ∀ c ∈ sign, isArrowChar c := by decide
  rcases List.mem_append.mp hc with hc | hc
  · refine hsign arrow ?_ c hc
    simpa [IsArrow, IsLineArrow, or_assoc] using harrow
  · simp [isArrowChar, hs c hc]

theorem EndsArrow.of_append (hc : isArrowChar c = false) (h : EndsArrow (k ++ c :: u)) :
    EndsArrow u := by
  obtain ⟨k', arrow, s, heq, harrow, hs⟩ := h
  have hnot : c ∉ arrow ++ s := fun hmem ↦ by simp [isArrowChar_of_mem harrow hs hmem] at hc
  obtain ⟨k'', -, rfl⟩ := Text.exists_of_not_mem_right hnot heq.symm
  exact ⟨k'', arrow, s, rfl, harrow, hs⟩

theorem not_endsArrow_nil : ¬ EndsArrow [] := by
  rintro ⟨k', arrow, s, heq, harrow, -⟩
  obtain ⟨-, rfl, -⟩ : k' = [] ∧ arrow = [] ∧ s = [] := by simpa using heq.symm
  revert harrow
  simp [IsArrow, IsLineArrow, Text.of]

theorem barsApart_of_not_mem (h : '|' ∉ x) : BarsApart x := by
  rintro u v rfl
  simp at h

theorem EndsArrow.filter {f : Char → Bool} (hf : ∀ c, isArrowChar c → f c) (h : EndsArrow u) :
    EndsArrow (u.filter f) := by
  obtain ⟨k', arrow, s, rfl, harrow, hs⟩ := h
  have hkeep : (arrow ++ s).filter f = arrow ++ s :=
    List.filter_eq_self.mpr fun c hc ↦ hf c (isArrowChar_of_mem harrow hs hc)
  exact ⟨k'.filter f, arrow, s, by rw [List.filter_append, hkeep], harrow, hs⟩

theorem BarsApart.of_filter {f : Char → Bool} (hf : ∀ c, isArrowChar c → f c) (hbar : f '|')
    (h : BarsApart (x.filter f)) : BarsApart x := by
  rintro u v rfl hu
  exact h (u.filter f) (v.filter f) (by simp [hbar]) (hu.filter hf)

theorem EndsDashes.getLast? (h : EndsDashes k) : ∃ c, k.getLast? = some c ∧ isArrowChar c := by
  obtain ⟨k', s, rfl, hs⟩ := h
  rcases List.eq_nil_or_concat s with rfl | ⟨s, c, rfl⟩
  · exact ⟨'-', by simp [Text.of], by decide⟩
  · exact ⟨c, by simp, by simp [isArrowChar, hs c (by simp)]⟩

theorem not_isIdentifierChar_of_isArrowChar (h : isArrowChar c) : isIdentifierChar c = false := by
  have hsign : ∀ c ∈ "-=>.".toList, isWordChar c = false := by decide
  rcases Bool.or_eq_true _ _ |>.mp h with h | h
  · exact hsign c (among_eq_true.mp h)
  · exact not_isWordChar_of_isBlank h

theorem not_endsDashes_of_isNamed (h : isNamed k) : ¬ EndsDashes k := by
  intro hk
  obtain ⟨c, hc, harrow⟩ := hk.getLast?
  simp [isNamed, hc, not_isIdentifierChar_of_isArrowChar harrow] at h

theorem Grouped.plain_append (hu : ∀ c ∈ u, c ≠ '[' ∧ c ≠ ']') (h : Grouped inner t) :
    Grouped inner (u ++ t) := by
  induction u with
  | nil => exact h
  | cons c u ih => exact .plain (hu c (by simp)) (ih fun d hd ↦ hu d (by simp [hd]))

theorem Grouped.append (hx : Grouped inner x) (ht : Grouped inner t) : Grouped inner (x ++ t) := by
  induction hx with
  | nil => exact ht
  | plain hc _ ih => exact .plain hc ih
  | group hy _ ih => simpa using Grouped.group hy ih

theorem Grouped.filter {f : Char → Bool} (hopen : f '[') (hclose : f ']') (h : Grouped inner x) :
    Grouped inner (x.filter f) := by
  induction h with
  | nil => exact .nil
  | plain hc _ ih =>
    rw [List.filter_cons]
    split
    · exact .plain hc ih
    · exact ih
  | @group y t hy _ ih =>
    have hsplit : ('[' :: (y ++ ']' :: t)).filter f = '[' :: (y.filter f ++ ']' :: t.filter f) := by
      simp [hopen, hclose]
    rw [hsplit]
    exact .group (fun c hc ↦ hy c (List.mem_filter.mp hc).1) ih

theorem Grouped.mono {outer : String} (hsub : ∀ c ∈ outer.toList, c ∈ inner.toList)
    (h : Grouped inner x) : Grouped outer x := by
  induction h with
  | nil => exact .nil
  | plain hc _ ih => exact .plain hc ih
  | group hy _ ih =>
    refine .group (fun c hc ↦ ?_) ih
    rw [among_eq_false]
    exact fun hmem ↦ among_eq_false.mp (hy c hc) (hsub c hmem)

theorem not_mem_of_group (hy : ∀ c ∈ y, among inner c = false) : ∀ c ∈ inner.toList, c ∉ y :=
  fun c hc hmem ↦ among_eq_false.mp (hy c hmem) hc

theorem Grouped.of_group (hy : ∀ c ∈ y, among "[]\"|" c = false) : Grouped inner y := by
  have hnot := not_mem_of_group hy
  have hplain : ∀ c ∈ y, c ≠ '[' ∧ c ≠ ']' := fun c hc ↦
    ⟨fun h ↦ hnot '[' (by decide) (h ▸ hc), fun h ↦ hnot ']' (by decide) (h ▸ hc)⟩
  simpa using Grouped.nil.plain_append hplain

theorem keeps_of_isArrowChar (h : isArrowChar c) : !among "()\x7b\x7d" c := by
  have hsign : ∀ c ∈ "()\x7b\x7d".toList, isArrowChar c = false := by decide
  rw [Bool.not_eq_true', among_eq_false]
  exact fun hmem ↦ by simp [hsign c hmem] at h

theorem ne_quote_of_isArrowChar (h : isArrowChar c) : (c != '"') = true :=
  bne_iff_ne.mpr (ne_of_class h (by decide))

theorem undecorated_undecorated (x : Text) : undecorated (undecorated x) = undecorated x := by
  simp [undecorated, List.filter_filter]

theorem bare_undecorated (x : Text) : bare (undecorated x) = bare x := by
  simp only [bare, undecorated, Text.dropQuotes, List.filter_filter]
  refine List.filter_congr fun c _ ↦ ?_
  cases among "()\x7b\x7d" c <;> simp

theorem head?_ne_of_filter {f : Char → Bool} (hc : f c) (h : (x.filter f).head? ≠ some c) :
    x.head? ≠ some c := by
  cases x with
  | nil => simp
  | cons d x =>
    rintro ⟨⟩
    simp [hc] at h

theorem BarsApart.of_undecorated (h : BarsApart (undecorated x)) : BarsApart x :=
  h.of_filter (fun _ ↦ keeps_of_isArrowChar) (by decide)

theorem BarsApart.of_bare (h : BarsApart (bare x)) : BarsApart x :=
  h.of_undecorated.of_filter (fun _ ↦ ne_quote_of_isArrowChar) (by decide)

theorem head?_of_singleGroup (h : (singleGroupPattern.fullMatch? x).isSome) :
    x.head? = some '[' := by
  obtain ⟨m, hm⟩ := Option.isSome_iff_exists.mp h
  obtain ⟨⟨gs, htakes, -⟩, -, hx⟩ := of_match? (by decide) hm
  simp only [singleGroupPattern, textEnd, takes_append_place, takes_append_sign, many, noneOf,
    takes_append_star_one, takes_sign, existsAndEq, true_and] at htakes
  obtain ⟨-, v, hu, -⟩ := htakes
  simp [hx, hu]

theorem needsQuotes_of_undecorated (hshape : x.head?.any (among "([/\\\x7b") = false)
    (h : needsQuotes (undecorated x)) : needsQuotes x := by
  simp only [needsQuotes, Bool.and_eq_true, Bool.not_eq_true'] at h ⊢
  obtain ⟨⟨hhead, hany⟩, -⟩ := h
  refine ⟨⟨?_, ?_⟩, ?_⟩
  · cases x with
    | nil => rfl
    | cons c x =>
      rw [List.head?_cons, Option.all_some, bne_iff_ne]
      rintro rfl
      simp [undecorated, among] at hhead
  · obtain ⟨c, hc, hmark⟩ := List.any_eq_true.mp hany
    exact List.any_eq_true.mpr ⟨c, (List.mem_filter.mp hc).1, hmark⟩
  · rw [Bool.eq_false_iff]
    intro hsingle
    rw [head?_of_singleGroup hsingle] at hshape
    revert hshape
    decide

theorem Labels.quotable (h : Labels k x) : Quotable (Text.dropQuotes x) where
  boxed := h.boxed.filter (by decide) (by decide)
  unquoted hmem := by simp [Text.dropQuotes] at hmem
  apart := h.apart
  head := h.head

theorem Labels.undecorated (hshape : x.head?.any (among "([/\\\x7b") = false) (h : Labels k x) :
    Labels k (undecorated x) where
  boxed := h.boxed.filter (by decide) (by decide)
  quotes := by
    rw [Line.undecorated, List.count_filter (by decide)]
    exact h.quotes
  apart := by
    rw [bare_undecorated]
    exact h.apart
  head := by
    rw [bare_undecorated]
    exact h.head
  unquoted := by
    rw [undecorated_undecorated]
    exact h.unquoted
  place hneeds := h.place (needsQuotes_of_undecorated hshape hneeds)

theorem Quotable.undecorated (h : Quotable x) : Quotable (undecorated x) where
  boxed := h.boxed.filter (by decide) (by decide)
  unquoted hmem := h.unquoted (List.mem_filter.mp hmem).1
  apart := by
    rw [undecorated_undecorated]
    exact h.apart
  head := by
    rw [undecorated_undecorated]
    exact h.head

theorem isNamed_of_gluedTo (h : gluedTo k x) : isNamed k := by
  simp only [gluedTo, opensGluedLabel, Bool.and_eq_true] at h
  exact h.1.1

namespace Mark

variable {m : Mark} {f g : Text → Mark → Mark}

structure IsStep (f : Text → Mark → Mark) : Prop where
  fits : ∀ {k m}, m.Fits k → (f k m).Fits k
  settled : ∀ k m, f k m = m ∨ (f k m).IsSettled

theorem IsStep.comp (hf : IsStep f) (hg : IsStep g) : IsStep fun k m ↦ f k (g k m) where
  fits h := hf.fits (hg.fits h)
  settled k m := by
    rcases hf.settled k (g k m) with heq | hsettled
    · rw [heq]
      exact hg.settled k m
    · exact .inr hsettled

theorem IsSettled.isWhole (hm : m.IsSettled) : m.IsWhole := by
  cases m with
  | standing | dangling | broken => exact hm.elim
  | label | quoted | bar | quotedBar | edge => trivial

theorem IsStep.isWhole (hf : IsStep f) (hm : m.IsWhole) : (f k m).IsWhole := by
  rcases hf.settled k m with heq | hsettled
  · rwa [heq]
  · exact hsettled.isWhole

theorem isStep_bracketed : IsStep bracketed where
  fits {k m} h := by
    cases m with
    | standing x =>
      rw [bracketed]
      split
      · rename_i hglued
        exact ⟨h.2 hglued, not_endsDashes_of_isNamed (isNamed_of_gluedTo hglued)⟩
      · exact h
    | label | quoted | bar | quotedBar | dangling | broken | edge => exact h
  settled k m := by
    cases m with
    | standing x =>
      rw [bracketed]
      split
      · exact .inr trivial
      · exact .inl rfl
    | label | quoted | bar | quotedBar | dangling | broken | edge => exact .inl rfl

theorem isStep_closed : IsStep closed where
  fits {k m} h := by cases m <;> exact h
  settled k m := by
    cases m with
    | dangling x => exact .inr trivial
    | label | quoted | standing | bar | quotedBar | broken | edge => exact .inl rfl

theorem isStep_straightened : IsStep straightened where
  fits {k m} h := by
    cases m with
    | broken => exact h.1
    | label | quoted | standing | bar | quotedBar | dangling | edge => exact h
  settled k m := by
    cases m with
    | broken => exact .inr trivial
    | label | quoted | standing | bar | quotedBar | dangling | edge => exact .inl rfl

theorem isStep_labelQuoted : IsStep labelQuoted where
  fits {k m} h := by
    cases m with
    | label x =>
      rw [labelQuoted]
      split
      · rename_i hneeds
        exact ⟨h.quotable, (h.place hneeds).2⟩
      · exact h
    | quoted | standing | bar | quotedBar | dangling | broken | edge => exact h
  settled k m := by
    cases m with
    | label x =>
      rw [labelQuoted]
      split <;> exact .inr trivial
    | quoted | standing | bar | quotedBar | dangling | broken | edge => exact .inl rfl

theorem isStep_barQuoted : IsStep barQuoted where
  fits {k m} h := by
    cases m with
    | bar => exact h.1
    | label | quoted | standing | quotedBar | dangling | broken | edge => exact h
  settled k m := by
    cases m with
    | bar => exact .inr trivial
    | label | quoted | standing | quotedBar | dangling | broken | edge => exact .inl rfl

theorem isStep_stripped : IsStep stripped where
  fits {k m} h := by
    cases m with
    | label x =>
      rw [stripped]
      split
      · rename_i hnamed
        simp only [Bool.and_eq_true, Bool.not_eq_true'] at hnamed
        exact h.undecorated hnamed.2
      · exact h
    | quoted x =>
      rw [stripped]
      split
      · exact ⟨h.1.undecorated, h.2⟩
      · exact h
    | standing | bar | quotedBar | dangling | broken | edge => exact h
  settled k m := by
    cases m with
    | label x | quoted x =>
      rw [stripped]
      split <;> exact .inr trivial
    | standing | bar | quotedBar | dangling | broken | edge => exact .inl rfl

theorem isStep_repaired : IsStep repaired :=
  isStep_labelQuoted.comp (isStep_straightened.comp (isStep_closed.comp isStep_bracketed))

theorem isStep_finished : IsStep finished := isStep_stripped.comp isStep_barQuoted

theorem finished_label (k x : Text) : (label x).finished k =
    if isNamed k && !x.head?.any (among "([/\\\x7b") then label (undecorated x) else label x := rfl

theorem finished_quoted (k x : Text) :
    (quoted x).finished k = if isNamed k then quoted (undecorated x) else quoted x := rfl

theorem repaired_label (k x : Text) : (label x).repaired k =
    if needsQuotes x then quoted (Text.dropQuotes x) else label x := rfl

theorem finished_finished (k : Text) (m : Mark) : (m.finished k).finished k = m.finished k := by
  cases m with
  | label x =>
    rw [finished_label]
    split
    · rw [finished_label, undecorated_undecorated, ite_self]
    · rename_i h
      rw [finished_label, if_neg h]
  | quoted x =>
    rw [finished_quoted]
    split
    · rw [finished_quoted, undecorated_undecorated, ite_self]
    · rename_i h
      rw [finished_quoted, if_neg h]
  | standing | bar | quotedBar | dangling | broken | edge => rfl

theorem repaired_finished_quoted (k x : Text) :
    ((quoted x).finished k).repaired k = (quoted x).finished k := by
  rw [finished_quoted]
  split <;> rfl

/-- A mark that the steps have gone over is not changed by them any more. -/
theorem repaired_finished_repaired (k : Text) (m : Mark) :
    ((m.repaired k).finished k).repaired k = (m.repaired k).finished k := by
  cases m with
  | label x =>
    rw [repaired_label]
    split
    · exact repaired_finished_quoted k _
    · rename_i hneeds
      rw [finished_label]
      split
      · rename_i hshape
        simp only [Bool.and_eq_true, Bool.not_eq_true'] at hshape
        rw [repaired_label, if_neg fun h ↦ hneeds (needsQuotes_of_undecorated hshape.2 h)]
      · rw [repaired_label, if_neg hneeds]
  | standing x =>
    have hrepaired : (standing x).repaired k =
        if gluedTo k x then quoted x else standing x := by
      simp only [repaired, bracketed]
      split <;> rfl
    rw [hrepaired]
    split
    · exact repaired_finished_quoted k x
    · exact hrepaired.trans (if_neg ‹_›)
  | quoted x | dangling x => exact repaired_finished_quoted k x
  | bar | quotedBar | broken | edge => rfl

end Mark

variable {p q : Part} {ps qs : List Part}

/-- The second part is the first one, with another mark that no step takes for something else. -/
structure Part.Improves (p q : Part) : Prop where
  run : q.run = p.run
  fits : p.mark.Fits p.run → q.mark.Fits p.run
  settled : q.mark = p.mark ∨ q.mark.IsSettled

theorem Part.Improves.isGlued (h : p.Improves q) (hq : q.IsGlued) : p.IsGlued := by
  obtain ⟨x, hmark, hglued⟩ := hq
  rcases h.settled with heq | hsettled
  · exact ⟨x, heq ▸ hmark, h.run ▸ hglued⟩
  · rw [hmark] at hsettled
    exact hsettled.elim

theorem firstRun_of_improves (h : List.Forall₂ Part.Improves ps qs) :
    firstRun qs tail = firstRun ps tail := by
  cases h with
  | nil => rfl
  | cons h _ => exact h.run

theorem not_isGlued_of_improves (h : List.Forall₂ Part.Improves ps qs)
    (hps : ∀ p ∈ ps, ¬ p.IsGlued) : ∀ q ∈ qs, ¬ q.IsGlued := by
  induction h with
  | nil => exact List.forall_mem_nil _
  | cons h _ ih =>
    rw [List.forall_mem_cons] at hps ⊢
    exact ⟨fun hq ↦ hps.1 (h.isGlued hq), ih hps.2⟩

theorem Mark.Precedes.improves {m : Mark} (h : List.Forall₂ Part.Improves ps qs)
    (hm : m.Precedes ps tail) : m.Precedes qs tail := by
  cases m with
  | dangling x =>
    rcases hm with ⟨rfl, rfl⟩ | hfirst
    · cases h
      exact .inl ⟨rfl, rfl⟩
    · rw [← firstRun_of_improves h] at hfirst
      exact .inr hfirst
  | broken s x s' =>
    obtain ⟨hfirst, hglued⟩ := hm
    rw [← firstRun_of_improves h] at hfirst
    exact ⟨hfirst, not_isGlued_of_improves h hglued⟩
  | label | quoted | standing | bar | quotedBar | edge => trivial

theorem Mark.precedes_of_isSettled {m : Mark} (hm : m.IsSettled) : m.Precedes ps tail := by
  cases m with
  | standing | dangling | broken => exact hm.elim
  | label | quoted | bar | quotedBar | edge => trivial

theorem Orderly.improves (h : Orderly ps tail) (hqs : List.Forall₂ Part.Improves ps qs) :
    Orderly qs tail := by
  induction h generalizing qs with
  | nil htail =>
    cases hqs
    exact .nil htail
  | cons hrun hfits hprecedes _ ih =>
    cases hqs with
    | @cons _ q _ qs hq hqs =>
      refine .cons (hq.run ▸ hrun) (hq.run ▸ hq.fits hfits) ?_ (ih hqs)
      rcases hq.settled with heq | hsettled
      · exact heq ▸ hprecedes.improves hqs
      · exact Mark.precedes_of_isSettled hsettled

theorem improves_mapMarks {f : Text → Mark → Mark} (hf : Mark.IsStep f) (ps : List Part) :
    List.Forall₂ Part.Improves ps (mapMarks f ps) := by
  rw [mapMarks, List.forall₂_map_right_iff, List.forall₂_same]
  exact fun p _ ↦ ⟨rfl, hf.fits, hf.settled p.run p.mark⟩

theorem Orderly.mapMarks {f : Text → Mark → Mark} (hf : Mark.IsStep f) (h : Orderly ps tail) :
    Orderly (mapMarks f ps) tail := h.improves (improves_mapMarks hf ps)

theorem forall_mapMarks {P Q : Mark → Prop} {f : Text → Mark → Mark}
    (hf : ∀ k m, P m → Q (f k m)) (hps : ∀ p ∈ ps, P p.mark) :
    ∀ p ∈ Line.mapMarks f ps, Q p.mark := by
  intro q hq
  obtain ⟨p, hp, rfl⟩ := List.mem_map.mp hq
  exact hf p.run p.mark (hps p hp)

theorem mapMarks_eq_self {f : Text → Mark → Mark} (hf : ∀ p ∈ ps, f p.run p.mark = p.mark) :
    Line.mapMarks f ps = ps := by
  have hid : Line.mapMarks f ps = ps.map id := List.map_congr_left fun p hp ↦ by
    rw [hf p hp]
    rfl
  rw [hid, List.map_id]

theorem mapMarks_mapMarks (f g : Text → Mark → Mark) (ps : List Part) :
    Line.mapMarks f (Line.mapMarks g ps) = Line.mapMarks (fun k m ↦ f k (g k m)) ps := by
  simp [Line.mapMarks]

end DiagramRepair.Line
