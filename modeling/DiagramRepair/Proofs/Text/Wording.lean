import DiagramRepair.Proofs.Pattern.Search
import DiagramRepair.Proofs.Text.Lines

namespace DiagramRepair

open Pattern Text

variable {c : Char} {markup markup' : CharClass} {s t t' u v : Text}

def isLabelMarkup (c : Char) : Bool := isBlank c || among "\"[]" c

def isShapeMarkup (c : Char) : Bool := isLabelMarkup c || among "()\x7b\x7d" c

def wording (markup : CharClass) (t : Text) : Text := t.filter fun c ↦ !markup c

@[simp] theorem wording_nil (markup : CharClass) : wording markup [] = [] := rfl

@[simp] theorem wording_append (markup : CharClass) (u v : Text) :
    wording markup (u ++ v) = wording markup u ++ wording markup v := List.filter_append u v

theorem wording_cons (markup : CharClass) (c : Char) (t : Text) :
    wording markup (c :: t) = wording markup [c] ++ wording markup t :=
  wording_append markup [c] t

theorem wording_eq_nil (h : ∀ c ∈ t, markup c) : wording markup t = [] :=
  List.filter_eq_nil_iff.mpr fun c hc ↦ by simp [h c hc]

theorem wording_eq_self (h : ∀ c ∈ t, markup c = false) : wording markup t = t :=
  List.filter_eq_self.mpr fun c hc ↦ by simp [h c hc]

/-- What more markup leaves of a text is left of its wording too. -/
theorem wording_wording (h : ∀ c, markup c → markup' c) (t : Text) :
    wording markup' (wording markup t) = wording markup' t := by
  simp only [wording, List.filter_filter]
  refine List.filter_congr fun c _ ↦ ?_
  cases hc : markup c with
  | true => simp [h c hc]
  | false => simp

theorem wording_mono (h : ∀ c, markup c → markup' c)
    (ht : wording markup t' = wording markup t) : wording markup' t' = wording markup' t := by
  rw [← wording_wording h t', ht, wording_wording h]

theorem wording_shape_of_label (h : wording isLabelMarkup t' = wording isLabelMarkup t) :
    wording isShapeMarkup t' = wording isShapeMarkup t :=
  wording_mono (fun c hc ↦ by simp [isShapeMarkup, hc]) h

theorem wording_blank (hs : ∀ c ∈ s, isBlank c) : wording isLabelMarkup s = [] :=
  wording_eq_nil fun c hc ↦ by simp [isLabelMarkup, hs c hc]

@[simp] theorem wording_trimEnd (t : Text) :
    wording isLabelMarkup (trimEnd t) = wording isLabelMarkup t := by
  obtain ⟨s, hs, hblank⟩ := exists_trimEnd t
  conv_rhs => rw [hs]
  simp [wording_blank hblank]

@[simp] theorem wording_trimStart (t : Text) :
    wording isLabelMarkup (trimStart t) = wording isLabelMarkup t := by
  obtain ⟨s, hs, hblank⟩ := exists_trimStart t
  conv_rhs => rw [hs]
  simp [wording_blank hblank]

@[simp] theorem wording_trim (t : Text) :
    wording isLabelMarkup (trim t) = wording isLabelMarkup t := by
  rw [trim, wording_trimEnd, wording_trimStart]

@[simp] theorem wording_dropQuotes (t : Text) :
    wording isLabelMarkup (dropQuotes t) = wording isLabelMarkup t := by
  simp only [wording, dropQuotes, List.filter_filter]
  refine List.filter_congr fun c _ ↦ ?_
  by_cases hc : c = '"'
  · subst hc
    rfl
  · simp [hc]

/-- Nothing is left of the brackets and quotes around a label. -/
theorem wording_wrapping : wording isLabelMarkup (Text.of "[") = [] ∧
    wording isLabelMarkup (Text.of "]") = [] ∧ wording isLabelMarkup (Text.of "[\"") = [] ∧
    wording isLabelMarkup (Text.of "\"]") = [] := by decide

theorem wording_unlines (ls : List Text) :
    wording isLabelMarkup (unlines ls) = ls.flatMap (wording isLabelMarkup) := by
  induction ls with
  | nil => rfl
  | cons l ls ih =>
    by_cases hnil : ls = []
    · simp [hnil, unlines_singleton]
    · have hnewline : wording isLabelMarkup ['\n'] = [] := by decide
      rw [unlines_cons hnil, wording_append, wording_cons, hnewline, ih, List.nil_append,
        List.flatMap_cons]

/-- The wording stays if every stretch that is replaced says the same as before. -/
theorem Pattern.Edits.wording_eq {E : (b u r v : Text) → Prop}
    (hE : ∀ {b u r v}, E b u r v → wording markup v = wording markup u) {b : Text}
    (h : Edits E b t t') : wording markup t' = wording markup t := by
  induction h with
  | nil => rfl
  | @keep b t t' c _ ih => rw [wording_cons, ih, ← wording_cons]
  | edit he _ ih => rw [wording_append, wording_append, hE he, ih]

end DiagramRepair
