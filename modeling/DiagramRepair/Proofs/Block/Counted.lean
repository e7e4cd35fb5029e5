import DiagramRepair.Block.Closed
import DiagramRepair.Proofs.Pattern.First
import DiagramRepair.Proofs.Placeholder.Hiding
import DiagramRepair.Proofs.Rule.Note

namespace DiagramRepair

open Pattern

variable {b r r' s t u u' v w content whole : Text} {gs : Groups} {c : Char}

/-- What opens a block for the count. The word may stand on a later line than the sign. -/
def countedOpening : Pattern :=
  lineStart ++ many (oneOf " \t") ++ (sign "```" ||| sign "~~~") ++ blanks ++ word "mermaid" ++
    wordEdge

def countedFence : Pattern := many (oneOf " \t") ++ (sign "```" ||| sign "~~~")

def IsFenceSign (u : Text) : Prop := u = Text.of "```" ∨ u = Text.of "~~~"

def IsCountedFence (u : Text) : Prop :=
  ∃ m f, u = m ++ f ∧ (∀ c ∈ m, among " \t" c) ∧ IsFenceSign f

def IsCountedOpening (u : Text) : Prop :=
  ∃ v s w, u = v ++ (s ++ w) ∧ IsCountedFence v ∧ Blank s ∧ IsWord "mermaid" w

theorem IsFenceSign.exists_cons (h : IsFenceSign u) :
    ∃ c v, u = c :: v ∧ v.length = 2 ∧ among " \t" c = false ∧ '\n' ∉ u := by
  rcases h with rfl | rfl <;> exact ⟨_, _, rfl, rfl, by decide⟩

theorem IsWord.head_mermaid (h : IsWord "mermaid" w) :
    ∃ c v, w = c :: v ∧ sameLetter 'm' c ∧ Text.isBlank c = false := by
  have hletters : "mermaid".toList = 'm' :: "ermaid".toList := rfl
  rw [IsWord, hletters] at h
  obtain ⟨c, v, hc, -, rfl⟩ := List.forall₂_cons_left_iff.mp h
  have hm : c.toLower = 'm' := by simpa [sameLetter] using hc
  exact ⟨c, v, rfl, hc, not_isBlank_of_isIdentChar (isIdentChar_of_toLower (hm ▸ by decide))⟩

theorem IsCountedFence.ne_nil (hu : IsCountedFence u) : u ≠ [] := by
  obtain ⟨m, f, rfl, -, hf⟩ := hu
  obtain ⟨c, v, rfl, -⟩ := hf.exists_cons
  simp

theorem IsCountedFence.unique (hu : IsCountedFence u) (hu' : IsCountedFence u')
    (h : u ++ r = u' ++ r') : u = u' ∧ r = r' := by
  obtain ⟨m, f, rfl, hm, hf⟩ := hu
  obtain ⟨m', f', rfl, hm', hf'⟩ := hu'
  obtain ⟨c, v, rfl, hv, hc, -⟩ := hf.exists_cons
  obtain ⟨c', v', rfl, hv', hc', -⟩ := hf'.exists_cons
  rw [List.append_assoc, List.append_assoc] at h
  obtain ⟨rfl, hsigns⟩ := Text.run_unique hm hm' (by simpa using hc) (by simpa using hc') h
  obtain ⟨hsign, rfl⟩ := List.append_inj hsigns (by simp [hv, hv'])
  exact ⟨by rw [hsign], rfl⟩

theorem IsCountedFence.not_mem (hu : IsCountedFence u) : '\n' ∉ u := by
  obtain ⟨m, f, rfl, hm, hf⟩ := hu
  obtain ⟨-, -, -, -, -, hno⟩ := hf.exists_cons
  rw [List.mem_append, not_or]
  exact ⟨not_mem_of_class hm (by decide), hno⟩

theorem IsCountedOpening.unique (hu : IsCountedOpening u) (hu' : IsCountedOpening u')
    (h : u ++ r = u' ++ r') : u = u' ∧ r = r' := by
  obtain ⟨v, s, w, rfl, hv, hs, hw⟩ := hu
  obtain ⟨v', s', w', rfl, hv', hs', hw'⟩ := hu'
  obtain ⟨c, x, hx, -, hc⟩ := hw.head_mermaid
  obtain ⟨c', x', hx', -, hc'⟩ := hw'.head_mermaid
  simp only [List.append_assoc] at h
  obtain ⟨rfl, hblanks⟩ := hv.unique hv' h
  obtain ⟨rfl, hwords⟩ := Text.run_unique hs hs' (by simpa [hx] using hc)
    (by simpa [hx'] using hc') hblanks
  obtain ⟨rfl, rfl⟩ := List.append_inj hwords (hw.length_eq.symm.trans hw'.length_eq)
  exact ⟨rfl, rfl⟩

theorem IsWord.newline_not_mem (h : IsWord "mermaid" w) : '\n' ∉ w := by
  intro hmem
  obtain ⟨l, hl, hsame⟩ := exists_of_forall₂ h hmem
  have hletters : ∀ l ∈ "mermaid".toList, sameLetter l '\n' = false := by decide
  simp [hletters l hl] at hsame

/-- The opening can reach over the end of a line only with blanks and the word. -/
theorem IsCountedOpening.after_newline (h : IsCountedOpening (u ++ '\n' :: v)) :
    ∃ s w, v = s ++ w ∧ Blank s ∧ IsWord "mermaid" w := by
  obtain ⟨x, s, w, huv, hx, hs, hw⟩ := h
  obtain ⟨a, -, ha⟩ := Text.exists_of_not_mem_left hx.not_mem huv.symm
  obtain ⟨s', rfl, rfl⟩ := Text.exists_of_not_mem_right hw.newline_not_mem ha
  exact ⟨s', w, rfl, fun c hc ↦ hs c (by simp [hc]), hw⟩

def AtLineStart (b : Text) : Prop := b.head?.all (· == '\n')

def AtWordEdge (u r : Text) : Prop := u.getLast?.any isWordChar ≠ r.head?.any isWordChar

theorem atWordEdge_append (ht : ∀ c ∈ t.head?, c = '\n') :
    AtWordEdge u (r ++ t) ↔ AtWordEdge u r := by
  cases r with
  | cons c r => exact .rfl
  | nil =>
    have hhead : t.head?.any isWordChar = false := by
      cases h : t.head? with
      | none => rfl
      | some c =>
        obtain rfl := ht c h
        decide
    simp [AtWordEdge, hhead]

theorem takes_fenceSign :
    (sign "```" ||| sign "~~~").Takes b u r gs ↔ IsFenceSign u ∧ gs = [] := by
  simp only [takes_or, takes_sign, ← or_and_right]
  rfl

theorem takes_countedFence : countedFence.Takes b u r gs ↔ IsCountedFence u ∧ gs = [] := by
  simp only [countedFence, takes_append_of (fun _ _ _ _ ↦ takes_fenceSign), many, oneOf,
    takes_star_one, IsCountedFence]
  constructor
  · rintro ⟨m, f, rfl, hf, hm, rfl⟩
    exact ⟨⟨m, f, rfl, hm, hf⟩, rfl⟩
  · rintro ⟨⟨m, f, rfl, hm, hf⟩, rfl⟩
    exact ⟨m, f, rfl, hf, hm, rfl⟩

theorem takes_lineStart : lineStart.Takes b u r gs ↔ AtLineStart b ∧ u = [] ∧ gs = [] := by
  rw [lineStart, takes_place, AtLineStart]
  tauto

theorem takes_countedOpening : countedOpening.Takes b u r gs ↔
    (AtLineStart b ∧ IsCountedOpening u ∧ AtWordEdge u r) ∧ gs = [] := by
  have hedge : ∀ {s w}, IsWord "mermaid" w →
      ((((s ++ w).reverse ++ b).head?.any isWordChar != r.head?.any isWordChar) = true ↔
        AtWordEdge (s ++ w) r) := by
    intro s w hw
    obtain ⟨c, v, rfl, -⟩ := hw.head_mermaid
    rw [List.head?_append_of_ne_nil _ (by simp), List.head?_reverse, bne_iff_ne, AtWordEdge]
  simp only [countedOpening, wordEdge, takes_append_place, takes_append_word, takes_append_blanks,
    takes_append_of (fun _ _ _ _ ↦ takes_fenceSign), many, oneOf, takes_append_star_one,
    takes_lineStart]
  constructor
  · rintro ⟨hplace, v, w, rfl, hw, v', s, rfl, hs, m, f, rfl, hf, x, y, rfl, hy, hb, rfl, rfl⟩
    refine ⟨⟨hb, ?_, (hedge hw).mp hplace⟩, rfl⟩
    exact ⟨y ++ f, s, w, by simp, ⟨y, f, rfl, hy, hf⟩, hs, hw⟩
  · rintro ⟨⟨hb, ⟨v, s, w, rfl, ⟨m, f, rfl, hm, hf⟩, hs, hw⟩, hplace⟩, rfl⟩
    rw [← List.append_assoc] at hplace ⊢
    exact ⟨(hedge hw).mpr hplace, _, w, rfl, hw, _, s, rfl, hs, m, f, rfl, hf, [], m, rfl, hm, hb,
      rfl, rfl⟩

theorem isMatch_countedFence :
    countedFence.isMatch t ↔ ∃ u r, t = u ++ r ∧ IsCountedFence u := by
  rw [isMatch_iff (by decide)]
  simp only [takes_countedFence]
  exact ⟨fun ⟨u, r, _, h, hu, _⟩ ↦ ⟨u, r, h, hu⟩, fun ⟨u, r, h, hu⟩ ↦ ⟨u, r, [], h, hu, rfl⟩⟩

theorem isMatch_countedOpening :
    countedOpening.isMatch t ↔ ∃ u r, t = u ++ r ∧ IsCountedOpening u ∧ AtWordEdge u r := by
  rw [isMatch_iff (by decide)]
  simp only [takes_countedOpening]
  constructor
  · rintro ⟨u, r, gs, rfl, ⟨-, hu, hedge⟩, -⟩
    exact ⟨u, r, rfl, hu, hedge⟩
  · rintro ⟨u, r, rfl, hu, hedge⟩
    exact ⟨u, r, [], rfl, ⟨rfl, hu, hedge⟩, rfl⟩

def countedLine : Pattern := countedOpening ++ many any ++ sign "\n"

def countedEnd : Pattern := sign "\n" ++ countedFence

theorem takes_countedLine : countedLine.Takes b u r gs ↔
    (∃ v w, u = v ++ (w ++ ['\n']) ∧ AtLineStart b ∧ IsCountedOpening v ∧
      AtWordEdge v (w ++ '\n' :: r) ∧ '\n' ∉ w) ∧ gs = [] := by
  simp only [countedLine, takes_append_sign, many,
    takes_append_of (fun _ _ _ _ ↦ takes_star_any), takes_countedOpening]
  constructor
  · rintro ⟨x, rfl, v, w, rfl, hw, ⟨hb, hv, hedge⟩, rfl⟩
    exact ⟨⟨v, w, by simp, hb, hv, by simpa using hedge, hw⟩, rfl⟩
  · rintro ⟨⟨v, w, rfl, hb, hv, hedge, hw⟩, rfl⟩
    exact ⟨v ++ w, by simp, v, w, rfl, hw, ⟨hb, hv, by simpa using hedge⟩, rfl⟩

theorem takes_countedEnd : countedEnd.Takes b u r gs ↔
    (∃ v, u = '\n' :: v ∧ IsCountedFence v) ∧ gs = [] := by
  simp only [countedEnd, takes_append_of (fun _ _ _ _ ↦ takes_countedFence), takes_sign]
  constructor
  · rintro ⟨v, w, rfl, hw, rfl, rfl⟩
    exact ⟨⟨w, rfl, hw⟩, rfl⟩
  · rintro ⟨⟨w, rfl, hw⟩, rfl⟩
    exact ⟨_, w, rfl, hw, rfl, rfl⟩

theorem run_countedLine {α : Type} {cs : List (String × Text × Text)} (k : Place → Option α)
    (hb : AtLineStart b) (hv : IsCountedOpening v) (hedge : AtWordEdge v w) (hw : '\n' ∉ w) :
    countedLine.run ⟨b, v ++ (w ++ '\n' :: t), cs⟩ k =
      k ⟨(v ++ (w ++ ['\n'])).reverse ++ b, t, cs⟩ := by
  have htakes : countedLine.Takes b (v ++ (w ++ ['\n'])) t [] :=
    takes_countedLine.mpr ⟨⟨v, w, rfl, hb, hv, (atWordEdge_append (by simp)).mpr hedge, hw⟩, rfl⟩
  refine run_of_unique (by decide) (by decide) (by simp) htakes fun u' r' h htakes' ↦ ?_
  obtain ⟨⟨v', w', rfl, -, hv', -, hw'⟩, -⟩ := takes_countedLine.mp htakes'
  simp only [List.append_assoc, List.cons_append, List.nil_append] at h
  obtain ⟨rfl, hrest⟩ := hv.unique hv' h
  obtain ⟨rfl, -⟩ := Text.append_cons_inj hw hw' hrest
  rfl

theorem run_countedEnd {α : Type} {cs : List (String × Text × Text)} (k : Place → Option α)
    (hu : IsCountedFence u) :
    countedEnd.run ⟨b, '\n' :: (u ++ t), cs⟩ k = k ⟨('\n' :: u).reverse ++ b, t, cs⟩ := by
  have htakes : countedEnd.Takes b ('\n' :: u) t [] := takes_countedEnd.mpr ⟨⟨u, rfl, hu⟩, rfl⟩
  refine run_of_unique (by decide) (by decide) rfl htakes fun u' r' h htakes' ↦ ?_
  obtain ⟨⟨v, rfl, hv⟩, -⟩ := takes_countedEnd.mp htakes'
  rw [(hu.unique hv (List.cons.inj h).2).1]

theorem run_closedBlockPattern {α : Type} (pl : Place) (k : Place → Option α) :
    closedBlockPattern.run pl k = countedLine.run pl fun s ↦
      (manyLazy (one fun _ ↦ true)).run s fun s' ↦
        countedEnd.run ⟨s'.before, s'.after, ("content", s.after, s'.after) :: s'.captures⟩ k :=
  rfl

def EndsBlock (t : Text) : Prop := ∃ u r, t = '\n' :: (u ++ r) ∧ IsCountedFence u

/-- The text is a block from its opening to the sign of its closing fence. No line of the content
but the first begins with a fence. -/
def IsCountedBlock (whole content : Text) : Prop :=
  ∃ v w u, whole = v ++ (w ++ '\n' :: (content ++ '\n' :: u)) ∧ IsCountedOpening v ∧
    AtWordEdge v w ∧ '\n' ∉ w ∧ IsCountedFence u ∧ ∀ x y, content = x ++ y → ¬ EndsBlock y

theorem endsBlock_append (hs : s ≠ []) : EndsBlock (s ++ '\n' :: t) ↔ EndsBlock s := by
  obtain ⟨c, s, rfl⟩ := List.exists_cons_of_ne_nil hs
  constructor
  · rintro ⟨u, r, h, hu⟩
    obtain ⟨rfl, hrest⟩ := List.cons.inj h
    obtain ⟨z, rfl, -⟩ := Text.exists_of_not_mem_left hu.not_mem hrest.symm
    exact ⟨u, z, rfl, hu⟩
  · rintro ⟨u, r, h, hu⟩
    exact ⟨u, r ++ '\n' :: t, by simp [h], hu⟩

theorem exists_match_of_isCountedBlock (hb : AtLineStart b) (h : IsCountedBlock whole content)
    (r : Text) :
    ∃ m, closedBlockPattern.matchAt? b (whole ++ r) = some m ∧ m.whole = whole ∧
      m.group "content" = content := by
  obtain ⟨v, w, u, rfl, hv, hedge, hw, hu, hfirst⟩ := h
  have htext : v ++ (w ++ '\n' :: (content ++ '\n' :: u)) ++ r =
      v ++ (w ++ '\n' :: (content ++ '\n' :: (u ++ r))) := by simp
  refine ⟨⟨b, v ++ (w ++ '\n' :: (content ++ '\n' :: u)), r,
    [("content", content ++ '\n' :: (u ++ r), '\n' :: (u ++ r))]⟩, ?_, rfl, ?_⟩
  · rw [matchAt?, htext, run_closedBlockPattern, run_countedLine _ hb hv hedge hw]
    refine run_manyLazy_one rfl (fun _ _ ↦ rfl) (fun x y h hy ↦ ?_) ?_
    · refine run_eq_none (by decide) fun u' r' _ he htakes ↦ hfirst x y h ?_
      obtain ⟨⟨z, rfl, hz⟩, -⟩ := takes_countedEnd.mp htakes
      exact (endsBlock_append hy).mp ⟨z, r', he, hz⟩
    · rw [run_countedEnd _ hu, ← htext, List.length_append, Nat.add_sub_cancel, List.take_left]
  · simp [Match.group, Match.group?]

theorem exists_of_match {m : Match} (h : closedBlockPattern.matchAt? b t = some m) :
    ∃ v w x y, t = v ++ (w ++ '\n' :: (x ++ y)) ∧ AtLineStart b ∧ IsCountedOpening v ∧
      AtWordEdge v w ∧ '\n' ∉ w ∧ EndsBlock y := by
  rw [matchAt?, run_closedBlockPattern] at h
  obtain ⟨_, r, cs, rfl, hline, h⟩ := (sound_and_complete countedLine (by decide)).1 h
  obtain ⟨⟨v, w, rfl, hb, hv, hedge, hw⟩, -⟩ := takes_countedLine.mp hline
  obtain ⟨x, y, _, rfl, -, h⟩ := (sound_and_complete (manyLazy (one fun _ ↦ true)) rfl).1 h
  obtain ⟨_, r, _, rfl, hend, -⟩ := (sound_and_complete countedEnd (by decide)).1 h
  obtain ⟨⟨u, rfl, hu⟩, -⟩ := takes_countedEnd.mp hend
  refine ⟨v, w, x, '\n' :: (u ++ r), by simp, hb, hv, ?_, hw, u, r, rfl, hu⟩
  exact (atWordEdge_append (by simp)).mp hedge

/-- A match is a counted block, as it ends at the first place where a block can end. -/
theorem isCountedBlock_of_match {m : Match} (h : closedBlockPattern.matchAt? b t = some m) :
    AtLineStart b ∧ IsCountedBlock m.whole (m.group "content") ∧ ∃ r, t = m.whole ++ r := by
  obtain ⟨v, w, x, y, rfl, hb, hv, hedge, hw, hend⟩ := exists_of_match h
  obtain ⟨content, z, rfl, ⟨u, r, hz, hu⟩, hfirst⟩ := Text.exists_first hend x
  have hblock : IsCountedBlock (v ++ (w ++ '\n' :: (content ++ '\n' :: u))) content := by
    refine ⟨v, w, u, rfl, hv, hedge, hw, hu, fun y₁ y₂ hcontent hy₂ ↦ ?_⟩
    have hne : y₂ ≠ [] := by
      rintro rfl
      obtain ⟨_, _, hnil, -⟩ := hy₂
      cases hnil
    refine hfirst y₁ y₂ hcontent hne ?_
    rw [hz]
    exact (endsBlock_append hne).mpr hy₂
  obtain ⟨m', hm', hwhole, hgroup⟩ := exists_match_of_isCountedBlock hb hblock r
  have htext : v ++ (w ++ '\n' :: (content ++ z ++ y)) =
      v ++ (w ++ '\n' :: (content ++ '\n' :: u)) ++ r := by simp [hz]
  rw [htext, hm'] at h
  obtain rfl := Option.some.inj h
  rw [hwhole, hgroup]
  exact ⟨hb, hblock, r, htext⟩

end DiagramRepair
