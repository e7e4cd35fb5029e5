import DiagramRepair.Proofs.Placeholder.Escapes
import DiagramRepair.Proofs.Rule.Words
import DiagramRepair.Repair.Rule
import Mathlib.Data.List.Find

namespace DiagramRepair.DiagramKind

open Pattern Registry

variable {l l' s s' t t' b : Text} {ls ls' rest inner : List Text} {p : Pattern} {k : DiagramKind}
  {inFrontMatter : Bool}

/-- Lines that say nothing of the diagram: blank ones, comments, and sections of front matter from
one line of three dashes to the next. -/
inductive Preamble : List Text → Prop
  | nil : Preamble []
  | blank {l : Text} {ls : List Text} (hl : Text.trim l = []) (h : Preamble ls) : Preamble (l :: ls)
  | comment {l : Text} {ls : List Text} (hl : (Text.trim l).startsWith ['%', '%'])
    (h : Preamble ls) : Preamble (l :: ls)
  | frontMatter {first last : Text} (inner : List Text) {ls : List Text}
    (hfirst : Text.trim first = ['-', '-', '-'])
    (hinner : ∀ l ∈ inner, Text.trim l ≠ ['-', '-', '-']) (hlast : Text.trim last = ['-', '-', '-'])
    (h : Preamble ls) : Preamble (first :: (inner ++ last :: ls))

theorem ofLines_dashes (hl : Text.trim l = ['-', '-', '-']) :
    ofLines inFrontMatter (l :: rest) = ofLines (!inFrontMatter) rest := by
  rw [ofLines]
  exact if_pos hl

theorem ofLines_skip (hl : Text.trim l ≠ ['-', '-', '-'])
    (hskip : inFrontMatter ∨ Text.trim l = [] ∨ (Text.trim l).startsWith ['%', '%']) :
    ofLines inFrontMatter (l :: rest) = ofLines inFrontMatter rest := by
  rw [ofLines]
  simp only [if_neg hl]
  refine if_pos ?_
  simpa [or_assoc] using hskip

theorem ofLines_inner (hinner : ∀ l ∈ inner, Text.trim l ≠ ['-', '-', '-']) :
    ofLines true (inner ++ rest) = ofLines true rest := by
  induction inner with
  | nil => rfl
  | cons l inner ih =>
    rw [List.forall_mem_cons] at hinner
    rw [List.cons_append, ofLines_skip hinner.1 (.inl rfl), ih hinner.2]

theorem Preamble.ofLines_append (h : Preamble ls) (rest : List Text) :
    ofLines false (ls ++ rest) = ofLines false rest := by
  induction h with
  | nil => rfl
  | blank hl _ ih => rw [List.cons_append, ofLines_skip (by simp [hl]) (.inr (.inl hl)), ih]
  | @comment l _ hl _ ih =>
    have hdashes : Text.trim l ≠ ['-', '-', '-'] := by
      intro hdashes
      rw [hdashes] at hl
      exact absurd hl (by decide)
    rw [List.cons_append, ofLines_skip hdashes (.inr (.inr hl)), ih]
  | frontMatter inner hfirst hinner hlast _ ih =>
    rw [List.cons_append, List.append_assoc, List.cons_append, ofLines_dashes hfirst, Bool.not_false,
      ofLines_inner hinner, ofLines_dashes hlast, Bool.not_true, ih]

theorem detect_preamble (h : Preamble (Text.lines t)) (content : Text) :
    detect (t ++ '\n' :: content) = detect content := by
  rw [detect, Text.lines_append_newline]
  exact h.ofLines_append _

def isEscapeStart (c : Char) : Bool := c == '\\' || c == '#' || c == tokenOpen

theorem isEscapeStart_iff {c : Char} : isEscapeStart c ↔ c ∈ ['\\', '#', tokenOpen] := by
  simp [isEscapeStart, or_assoc]

/-- The two are the same up to an escape in each of them, if there is one. -/
inductive BeginsAlike : Text → Text → Prop
  | same (l : Text) : BeginsAlike l l
  | escape (s : Text) {c c' : Char} (t t' : Text) (hc : isEscapeStart c) (hc' : isEscapeStart c') :
    BeginsAlike (s ++ c :: t) (s ++ c' :: t')

namespace BeginsAlike

theorem symm (h : BeginsAlike l l') : BeginsAlike l' l := by
  cases h with
  | same => exact .same l
  | escape s t t' hc hc' => exact .escape s t' t hc' hc

theorem append (h : BeginsAlike l l') (s : Text) : BeginsAlike (s ++ l) (s ++ l') := by
  cases h with
  | same => exact .same _
  | escape s' t t' hc hc' =>
    rw [← List.append_assoc, ← List.append_assoc]
    exact .escape (s ++ s') t t' hc hc'

theorem trim (h : BeginsAlike l l') : BeginsAlike (Text.trim l) (Text.trim l') := by
  have hblank : ∀ c, isEscapeStart c → Text.isBlank c = false := by
    simp only [isEscapeStart_iff]
    decide
  cases h with
  | same => exact .same _
  | escape s t t' hc hc' =>
    rw [Text.trim_append_cons (hblank _ hc), Text.trim_append_cons (hblank _ hc')]
    exact .escape _ _ _ hc hc'

/-- A start without escapes is a start of both, and the two go on alike. -/
theorem exists_append (h : BeginsAlike (s ++ t) l') (hs : ∀ c ∈ s, isEscapeStart c = false) :
    ∃ t', l' = s ++ t' ∧ BeginsAlike t t' := by
  generalize hl : s ++ t = l at h
  cases h with
  | same => exact ⟨t, hl.symm, .same t⟩
  | @escape u c c' v v' hc hc' =>
    have hnot : c ∉ s := fun hmem ↦ by simp [hs c hmem] at hc
    obtain ⟨u', rfl, rfl⟩ := Text.exists_of_not_mem_left hnot hl
    exact ⟨u' ++ c' :: v', List.append_assoc _ _ _, .escape u' v v' hc hc'⟩

theorem eq_of_forall (h : BeginsAlike l l') (hl : ∀ c ∈ l, isEscapeStart c = false) : l' = l := by
  cases h with
  | same => rfl
  | @escape s c _ _ _ hc => simp [hl c (by simp)] at hc

theorem eq_iff (h : BeginsAlike l l') (hs : ∀ c ∈ s, isEscapeStart c = false) : l = s ↔ l' = s := by
  constructor
  · rintro rfl
    exact h.eq_of_forall hs
  · rintro rfl
    exact h.symm.eq_of_forall hs

theorem startsWith_eq (h : BeginsAlike l l') (hs : ∀ c ∈ s, isEscapeStart c = false) :
    Text.startsWith l s = Text.startsWith l' s := by
  have hmono : ∀ {l l'}, BeginsAlike l l' → s <+: l → s <+: l' := by
    rintro l l' h ⟨t, rfl⟩
    obtain ⟨t', rfl, -⟩ := h.exists_append hs
    exact List.prefix_append s t'
  rw [Bool.eq_iff_iff, Text.startsWith, Text.startsWith, List.isPrefixOf_iff_prefix,
    List.isPrefixOf_iff_prefix]
  exact ⟨hmono h, hmono h.symm⟩

/-- No escape begins like a word. -/
theorem head?_any (h : BeginsAlike l l') : l.head?.any isWordChar = l'.head?.any isWordChar := by
  have hword : ∀ c, isEscapeStart c → isWordChar c = false := by
    simp only [isEscapeStart_iff]
    decide +kernel
  cases h with
  | same => rfl
  | escape s t t' hc hc' =>
    cases s with
    | nil => simp [hword _ hc, hword _ hc']
    | cons d s => rfl

end BeginsAlike

theorem of_mem_headers : ∀ header ∈ headers, header.1.steady ∧ header.1.selfContained ∧
    ∀ c ∈ ['\\', '#', tokenOpen], header.1.shuns c := by
  decide

theorem isMatch_header (hp : p.steady) : (textStart ++ p ++ wordEdge).isMatch l ↔ ∃ u r gs,
    l = u ++ r ∧ p.Takes [] u r gs ∧ u.getLast?.any isWordChar != r.head?.any isWordChar := by
  have hsteady : (textStart ++ p ++ wordEdge).steady := by
    change (true && p.steady && true) = true
    simpa using hp
  have hstart : ∀ {u r gs}, (textStart ++ p).Takes [] u r gs ↔ p.Takes [] u r gs := by
    simp [takes_append, takes_textStart]
  rw [isMatch_iff hsteady]
  simp only [wordEdge, takes_append_place, hstart, List.append_nil, List.head?_reverse, and_comm]

theorem isMatch_of_beginsAlike (hp : (p, k) ∈ headers) (h : BeginsAlike l l')
    (hl : (textStart ++ p ++ wordEdge).isMatch l) : (textStart ++ p ++ wordEdge).isMatch l' := by
  obtain ⟨hsteady, hself, hshuns⟩ := of_mem_headers _ hp
  obtain ⟨u, r, gs, rfl, htakes, hedge⟩ := (isMatch_header hsteady).mp hl
  have hu : ∀ c ∈ u, isEscapeStart c = false := by
    intro c hc
    rw [Bool.eq_false_iff, ne_eq, isEscapeStart_iff]
    exact fun hmem ↦ htakes.not_mem (hshuns c hmem) hc
  obtain ⟨r', rfl, hr⟩ := h.exists_append hu
  exact (isMatch_header hsteady).mpr ⟨u, r', gs, rfl, htakes.anywhere hself _ _, hr.head?_any ▸ hedge⟩

theorem ofHeader_congr (h : BeginsAlike l l') : ofHeader l = ofHeader l' := by
  rw [ofHeader, ofHeader, List.find?_congr]
  rintro ⟨p, k⟩ hp
  exact Bool.eq_iff_iff.mpr ⟨isMatch_of_beginsAlike hp h, isMatch_of_beginsAlike hp h.symm⟩

theorem ofLines_congr (h : List.Forall₂ BeginsAlike ls ls') :
    ofLines inFrontMatter ls = ofLines inFrontMatter ls' := by
  induction h generalizing inFrontMatter with
  | nil => rfl
  | @cons l l' _ _ hl _ ih =>
    have hdashes := hl.trim.eq_iff (s := ['-', '-', '-']) (by decide)
    have hcomment := hl.trim.startsWith_eq (s := ['%', '%']) (by decide)
    have hempty : (Text.trim l).isEmpty = (Text.trim l').isEmpty := by
      rw [Bool.eq_iff_iff, List.isEmpty_iff, List.isEmpty_iff]
      exact hl.trim.eq_iff (s := []) (by simp)
    simp only [ofLines, hdashes, hcomment, hempty, ofHeader_congr hl.trim, ih]

/-- What holds no line feed goes in front of the first line and leaves the others. -/
theorem forall₂_lines_append {u v : Text} (hu : '\n' ∉ u) (hv : '\n' ∉ v)
    (halike : ∀ l l', BeginsAlike l l' → BeginsAlike (u ++ l) (v ++ l'))
    (h : List.Forall₂ BeginsAlike (Text.lines t) (Text.lines t')) :
    List.Forall₂ BeginsAlike (Text.lines (u ++ t)) (Text.lines (v ++ t')) := by
  obtain ⟨l, ls, ht⟩ := List.exists_cons_of_ne_nil (Text.lines_ne_nil t)
  obtain ⟨l', ls', ht'⟩ := List.exists_cons_of_ne_nil (Text.lines_ne_nil t')
  rw [ht, ht', List.forall₂_cons] at h
  rw [Text.lines_append_of_not_mem hu ht, Text.lines_append_of_not_mem hv ht']
  exact .cons (halike l l' h.1) h.2

theorem forall₂_lines_of_edits {E : (b u r v : Text) → Prop}
    (hE : ∀ {b u r v}, E b u r v → '\n' ∉ u ∧ '\n' ∉ v ∧ ∀ l l', BeginsAlike (u ++ l) (v ++ l'))
    (h : Edits E b t t') : List.Forall₂ BeginsAlike (Text.lines t) (Text.lines t') := by
  induction h with
  | nil => exact .cons (.same _) .nil
  | @keep b t t' c _ ih =>
    by_cases hc : c = '\n'
    · rw [hc, Text.lines_newline_cons, Text.lines_newline_cons]
      exact .cons (.same _) ih
    · have hline : '\n' ∉ [c] := by simpa using Ne.symm hc
      exact forall₂_lines_append hline hline (fun l l' h ↦ h.append [c]) ih
  | edit he _ ih =>
    obtain ⟨hu, hv, halike⟩ := hE he
    exact forall₂_lines_append hu hv (fun l l' _ ↦ halike l l') ih

theorem forall₂_lines_hideEscapes [Nonces] (content : Text) :
    List.Forall₂ BeginsAlike (Text.lines content) (Text.lines (hideEscapes content).1) := by
  have hedits : Edits (fun _ u _ v ↦ '\n' ∉ u ∧ '\n' ∉ v ∧
      ∀ l l', BeginsAlike (u ++ l) (v ++ l')) []
      ((Part.ofPattern escapePattern content).flatMap Part.text) (hideEscapes content).1 := by
    refine Part.edits_conceal (fun u v hu hv ↦ ?_) []
    obtain ⟨-, hnewline, c, u, rfl, hc⟩ := exists_of_hidden_escape hu
    obtain ⟨n, -, rfl⟩ := hv
    refine ⟨hnewline, newline_not_mem_token (hideEscapes_registry content).1 n, fun l l' ↦ ?_⟩
    have hstart : isEscapeStart c := by rcases hc with rfl | rfl <;> rfl
    exact .escape [] _ _ hstart (by decide)
  rw [flatMap_text_escapes] at hedits
  exact forall₂_lines_of_edits id hedits

/-- A repair tells the kind of a diagram from the text in which the escapes are hidden. -/
theorem detect_hideEscapes [Nonces] (content : Text) : detect (hideEscapes content).1 = detect content :=
  (ofLines_congr (forall₂_lines_hideEscapes content)).symm

/-- The kind is that of the text behind the preamble, and so in a repair, where the escapes are
hidden, it is this text that says whether a rule for flowcharts does anything. -/
theorem detect_append_preamble [Nonces] (h : Preamble (Text.lines t)) (content : Text) :
    detect (t ++ '\n' :: content) = detect content ∧
      let ctx := RepairContext.ofContent (hideEscapes (t ++ '\n' :: content)).1
      ∀ name f names shown, (RepairRule.onFlowcharts name f).apply ctx names shown =
        .ok (if (detect content).isFlowchart then f ctx names shown else (shown, names)) := by
  have hdetect := detect_preamble h content
  refine ⟨hdetect, ?_⟩
  intro ctx name f names shown
  have hkind : ctx.kind = detect content := (detect_hideEscapes _).trans hdetect
  simp only [RepairRule.onFlowcharts, hkind]

section

attribute [local instance] Nonces.zeros

/-- Headers of other kinds in a comment and in a section, an empty section right behind it, and
dashes with blanks around them. -/
theorem detect_append_preamble_sections :
    let t := Text.of "%% graph TD\n\n---\ngantt\n%% pie\n \n\t--- \n---\n---"
    let content := Text.of "sequenceDiagram\nA --\\> B"
    let ctx := RepairContext.ofContent (hideEscapes (t ++ '\n' :: content)).1
    Preamble (Text.lines t) ∧ detect (t ++ '\n' :: content) = .sequence ∧
      ∀ names shown, RepairRule.fixInvalidArrows.apply ctx names shown = .ok (shown, names) := by
  intro t content ctx
  have hpreamble : Preamble (Text.lines t) := by
    have hlines : Text.lines t = ["%% graph TD", "", "---", "gantt", "%% pie", " ", "\t--- ", "---",
        "---"].map Text.of := by decide
    rw [hlines]
    refine .comment (by decide) (.blank (by decide) ?_)
    refine .frontMatter (["gantt", "%% pie", " "].map Text.of) (by decide) (by decide) (by decide) ?_
    exact .frontMatter [] (by decide) (by decide) (by decide) .nil
  have hkind : detect content = .sequence := by decide
  obtain ⟨hdetect, hrule⟩ := detect_append_preamble hpreamble content
  refine ⟨hpreamble, hdetect.trans hkind, fun names shown ↦ ?_⟩
  exact (hrule _ _ names shown).trans (by rw [hkind]; rfl)

end

end DiagramRepair.DiagramKind
