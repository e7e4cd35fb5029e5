import DiagramRepair.Proofs.Block.Counted
import DiagramRepair.Proofs.Block.Fence
import DiagramRepair.Proofs.Block.Segment

namespace DiagramRepair

open Pattern

variable {b b' r t u v w content whole : Text} {c : Char} {ts ts' : List Text}

/-- The fences of the block are its fences for the count as well. Its first line cannot be taken for
a fence, as the line feed before it belongs to the opening. -/
def Block.Counted (b : Block) : Prop :=
  countedOpening.isMatch b.opening ∧ b.inner ≠ [] ∧
    (∀ l ∈ b.inner.tail, countedFence.isMatch l = false) ∧ b.closing.any countedFence.isMatch

/-- Wherever a block opens in the text, for the count, there it is closed in the text as well. -/
def Settled (t : Text) : Prop :=
  ∀ n < t.length, (countedOpening.matchAt? (t.take n).reverse (t.drop n)).isSome →
    (closedBlockPattern.matchAt? (t.take n).reverse (t.drop n)).isSome

def Segment.Counted : Segment → Prop
  | text t => Settled t
  | diagram b => b.isClosed → b.Counted

instance : DecidablePred Block.Counted := fun _ ↦ inferInstanceAs (Decidable (_ ∧ _ ∧ _ ∧ _))

instance : DecidablePred Settled := fun _ ↦ inferInstanceAs (Decidable (∀ _ < _, _ → _))

instance : DecidablePred Segment.Counted
  | .text t => inferInstanceAs (Decidable (Settled t))
  | .diagram _ => inferInstanceAs (Decidable (_ → _))

def Opens (b t : Text) : Prop :=
  AtLineStart b ∧ ∃ u r, t = u ++ r ∧ IsCountedOpening u ∧ AtWordEdge u r

def Closes (b t : Text) : Prop :=
  AtLineStart b ∧ ∃ whole content r, t = whole ++ r ∧ IsCountedBlock whole content

theorem isSome_countedOpening : (countedOpening.matchAt? b t).isSome ↔ Opens b t := by
  constructor
  · intro h
    obtain ⟨m, hm⟩ := Option.isSome_iff_exists.mp h
    obtain ⟨⟨gs, htakes, -⟩, rfl, ht⟩ := of_matchAt? (by decide) hm
    obtain ⟨⟨hb, hu, hedge⟩, -⟩ := takes_countedOpening.mp htakes
    exact ⟨hb, m.whole, m.after, ht, hu, hedge⟩
  · rintro ⟨hb, u, r, rfl, hu, hedge⟩
    exact matchAt?_isSome (by decide) (takes_countedOpening.mpr ⟨⟨hb, hu, hedge⟩, rfl⟩)

theorem isSome_closedBlockPattern : (closedBlockPattern.matchAt? b t).isSome ↔ Closes b t := by
  constructor
  · intro h
    obtain ⟨m, hm⟩ := Option.isSome_iff_exists.mp h
    obtain ⟨hb, hblock, r, hr⟩ := isCountedBlock_of_match hm
    exact ⟨hb, _, _, r, hr, hblock⟩
  · rintro ⟨hb, whole, content, r, rfl, hblock⟩
    obtain ⟨m, hm, -⟩ := exists_match_of_isCountedBlock hb hblock r
    rw [hm]
    rfl

theorem Closes.opens (h : Closes b t) : Opens b t := by
  obtain ⟨hb, _, content, r, rfl, v, w, u, rfl, hv, hedge, -⟩ := h
  refine ⟨hb, v, w ++ '\n' :: (content ++ '\n' :: u) ++ r, by simp, hv, ?_⟩
  rw [List.append_assoc]
  exact (atWordEdge_append (by simp)).mpr hedge

theorem IsCountedOpening.exists_cons (h : IsCountedOpening u) : ∃ c v, u = c :: v ∧ c ≠ '\n' := by
  obtain ⟨x, s, w, rfl, hx, -⟩ := h
  have hno := hx.not_mem
  obtain ⟨c, x, rfl⟩ := List.exists_cons_of_ne_nil hx.ne_nil
  exact ⟨c, x ++ (s ++ w), rfl, fun h ↦ hno (by simp [h])⟩

theorem not_opens_newline (b t : Text) : ¬ Opens b ('\n' :: t) := by
  rintro ⟨-, u, r, h, hu, -⟩
  obtain ⟨c, v, rfl, hc⟩ := hu.exists_cons
  exact hc (List.cons.inj h).1.symm

theorem IsCountedBlock.ne_nil (h : IsCountedBlock whole content) : whole ≠ [] := by
  obtain ⟨v, w, u, rfl, hv, -⟩ := h
  obtain ⟨c, v, rfl, -⟩ := hv.exists_cons
  simp

theorem atLineStart_append (hu : u ≠ []) (b b' : Text) :
    AtLineStart (u.reverse ++ b) ↔ AtLineStart (u.reverse ++ b') := by
  obtain ⟨c, v, hv⟩ := List.exists_cons_of_ne_nil (List.reverse_ne_nil_iff.mpr hu)
  rw [hv]
  rfl

theorem Settled.closes (h : Settled t) (htvw : t = v ++ w) (hopens : Opens v.reverse w) :
    Closes v.reverse w := by
  have hw : w ≠ [] := by
    obtain ⟨-, u, r, rfl, hu, -⟩ := hopens
    obtain ⟨c, u, rfl, -⟩ := hu.exists_cons
    simp
  have hn : v.length < t.length := by
    rw [htvw, List.length_append]
    have hpos := List.length_pos_iff.mpr hw
    omega
  have hsettled := h v.length hn
  rw [htvw, List.take_left, List.drop_left, isSome_countedOpening,
    isSome_closedBlockPattern] at hsettled
  exact hsettled hopens

/-- The contents of the blocks that are counted in a text behind `b`. -/
inductive Counts : (b t : Text) → List Text → Prop
  | nil (b : Text) : Counts b [] []
  | skip {b t : Text} {c : Char} {ts : List Text} :
    ¬ Closes b (c :: t) → Counts (c :: b) t ts → Counts b (c :: t) ts
  | block {b r whole content : Text} {ts : List Text} :
    AtLineStart b → IsCountedBlock whole content → Counts (whole.reverse ++ b) r ts →
    Counts b (whole ++ r) (content :: ts)

def countedFrom (b t : Text) : List Text :=
  (closedBlockPattern.findFrom b t).map (·.group "content")

theorem closedBlocks_eq (t : Text) : closedBlocks t = countedFrom [] t := rfl

theorem countedFrom_of_not_closes (h : ¬ Closes b (c :: t)) :
    countedFrom b (c :: t) = countedFrom (c :: b) t := by
  rw [← isSome_closedBlockPattern, Option.not_isSome_iff_eq_none] at h
  rw [countedFrom, findFrom_of_none h, countedFrom]

theorem countedFrom_of_isCountedBlock (hb : AtLineStart b) (h : IsCountedBlock whole content)
    (r : Text) : countedFrom b (whole ++ r) = content :: countedFrom (whole.reverse ++ b) r := by
  obtain ⟨m, hm, hwhole, hgroup⟩ := exists_match_of_isCountedBlock hb h r
  rw [countedFrom, findFrom_of_matchAt? hm hwhole h.ne_nil, List.map_cons, hgroup, countedFrom]

theorem Counts.eq (h : Counts b t ts) : countedFrom b t = ts := by
  induction h with
  | nil => rfl
  | skip hno _ ih => rw [countedFrom_of_not_closes hno, ih]
  | block hb hblock _ ih => rw [countedFrom_of_isCountedBlock hb hblock, ih]

theorem counts_countedFrom (b t : Text) : Counts b t (countedFrom b t) := by
  induction hn : t.length using Nat.strongRecOn generalizing b t with
  | _ n ih =>
    cases t with
    | nil => exact .nil b
    | cons c t =>
      by_cases hcloses : Closes b (c :: t)
      · obtain ⟨hb, whole, content, r, ht, hblock⟩ := hcloses
        have hlength := congrArg List.length ht
        rw [List.length_append] at hlength
        have hpos := List.length_pos_iff.mpr hblock.ne_nil
        rw [ht, countedFrom_of_isCountedBlock hb hblock]
        exact .block hb hblock (ih r.length (by omega) _ r rfl)
      · rw [countedFrom_of_not_closes hcloses]
        exact .skip hcloses (ih t.length (by simp [← hn]) _ t rfl)

/-- What stands before a place matters only in that a line may start there. -/
theorem Counts.congr (h : Counts b t ts) (hb : AtLineStart b ↔ AtLineStart b') :
    Counts b' t ts := by
  induction h generalizing b' with
  | nil => exact .nil b'
  | skip hno _ ih => exact .skip (fun hcloses ↦ hno ⟨hb.mpr hcloses.1, hcloses.2⟩) (ih .rfl)
  | block hstart hblock _ ih =>
    exact .block (hb.mp hstart) hblock (ih (atLineStart_append hblock.ne_nil _ _))

def WordNext (t : Text) : Prop := ∃ s w r, t = s ++ (w ++ r) ∧ Blank s ∧ IsWord "mermaid" w

/-- No opening reaches over the end of the text, if the word does not come next. -/
theorem opens_of_append (ht : ¬ WordNext t) (h : Opens b (w ++ '\n' :: t)) : Opens b w := by
  obtain ⟨hb, u, r, hur, hu, hedge⟩ := h
  rcases List.append_eq_append_iff.mp hur with ⟨z, rfl, hz⟩ | ⟨z, rfl, hz⟩
  · cases z with
    | nil =>
      rw [List.append_nil] at hu hedge
      rw [List.nil_append] at hz
      rw [← hz, ← List.nil_append ('\n' :: t), atWordEdge_append (by simp)] at hedge
      exact ⟨hb, w, [], by simp, hu, hedge⟩
    | cons c z =>
      obtain ⟨rfl, hrest⟩ := List.cons.inj hz
      obtain ⟨s, w', rfl, hs, hw'⟩ := hu.after_newline
      exact absurd ⟨s, w', r, by simp [hrest], hs, hw'⟩ ht
  · rw [hz, atWordEdge_append (by simp)] at hedge
    exact ⟨hb, u, z, rfl, hu, hedge⟩

/-- A text in which every block that opens is closed, and the lines after it, are counted apart. -/
theorem Counts.append (h : Counts b u ts) (ht : ¬ WordNext t)
    (hsettled : ∀ v w, u = v ++ w → Opens (v.reverse ++ b) w → Closes (v.reverse ++ b) w)
    (h' : Counts ('\n' :: (u.reverse ++ b)) t ts') : Counts b (u ++ '\n' :: t) (ts ++ ts') := by
  induction h with
  | nil b => exact .skip (fun hcloses ↦ not_opens_newline _ _ hcloses.opens) h'
  | @skip b u c ts hno _ ih =>
    refine .skip (fun hcloses ↦ hno (hsettled [] _ rfl (opens_of_append ht hcloses.opens))) ?_
    refine ih (fun v w huvw ↦ ?_) (by simpa using h')
    simpa using hsettled (c :: v) w (by simp [huvw])
  | @block b r whole content ts hb hblock _ ih =>
    rw [List.append_assoc, List.cons_append]
    refine .block hb hblock (ih (fun v w hr ↦ ?_) (by simpa using h'))
    simpa using hsettled (whole ++ v) w (by simp [hr])

theorem countedFrom_text {text : Text} (hb : AtLineStart b) (hsettled : Settled text)
    (ht : ¬ WordNext t) : countedFrom b (text ++ '\n' :: t) =
      closedBlocks text ++ countedFrom ('\n' :: (text.reverse ++ b)) t := by
  have htext : Counts b text (closedBlocks text) :=
    (counts_countedFrom [] text).congr (iff_of_true rfl hb)
  refine (htext.append ht (fun v w h hopens ↦ ?_) (counts_countedFrom _ t)).eq
  have hstart : AtLineStart (v.reverse ++ b) ↔ AtLineStart v.reverse := by
    cases hv : v.reverse with
    | nil => exact iff_of_true hb rfl
    | cons c v' => rfl
  obtain ⟨-, hcloses⟩ := hsettled.closes h ⟨hstart.mp hopens.1, hopens.2⟩
  exact ⟨hopens.1, hcloses⟩

/-- No block opens in the rest of a line. -/
theorem countedFrom_rest (hb : ¬ AtLineStart b) (hu : '\n' ∉ u) (t : Text) :
    countedFrom b (u ++ t) = countedFrom (u.reverse ++ b) t := by
  induction u generalizing b with
  | nil => rfl
  | cons c u ih =>
    rw [List.mem_cons, not_or] at hu
    have hrest := ih (b := c :: b) (by simpa [AtLineStart] using Ne.symm hu.1) hu.2
    rw [List.cons_append, countedFrom_of_not_closes fun h ↦ hb h.1, hrest]
    simp

theorem countedFrom_newline (b t : Text) :
    countedFrom b ('\n' :: t) = countedFrom ('\n' :: b) t :=
  countedFrom_of_not_closes fun h ↦ not_opens_newline b t h.opens

theorem render_closed {opening l : Text} {inner : List Text} (hinner : inner ≠ []) :
    Block.render ⟨opening, inner, some l⟩ =
      opening ++ '\n' :: (Text.unlines inner ++ '\n' :: l) := by
  change Text.unlines (opening :: (inner ++ [l])) = _
  rw [Text.unlines_cons (by simp), Text.unlines_append hinner (by simp), Text.unlines_singleton]

theorem not_endsBlock {inner : List Text} (hinner : inner ≠ []) (hlines : ∀ l ∈ inner, '\n' ∉ l)
    (hfences : ∀ l ∈ inner.tail, countedFence.isMatch l = false) {x y : Text}
    (hxy : Text.unlines inner = x ++ y) : ¬ EndsBlock y := by
  rintro ⟨f, r, rfl, hf⟩
  have htail : inner.tail = (Text.lines x).tail ++ Text.lines (f ++ r) := by
    rw [← Text.lines_unlines hinner hlines, hxy, Text.lines_append_newline,
      List.tail_append_of_ne_nil (Text.lines_ne_nil x)]
  -- The fence is the start of a line of the content.
  obtain ⟨z, hz⟩ := Text.exists_mem_lines_of_prefix hf.not_mem r
  have hmatch : countedFence.isMatch (f ++ z) := isMatch_countedFence.mpr ⟨f, z, rfl, hf⟩
  rw [hfences _ (by simp [htail, hz])] at hmatch
  exact Bool.false_ne_true hmatch

theorem IsCountedFence.not_atLineStart (hu : IsCountedFence u) (b : Text) :
    ¬ AtLineStart (u.reverse ++ b) := by
  intro hstart
  have hno := hu.not_mem
  obtain ⟨c, x, hx⟩ := List.exists_cons_of_ne_nil (List.reverse_ne_nil_iff.mpr hu.ne_nil)
  rw [← List.mem_reverse, hx, List.mem_cons, not_or] at hno
  have hc : c = '\n' := by simpa [hx, AtLineStart] using hstart
  exact hno.1 hc.symm

/-- The count reads the block up to the sign of its closing fence. -/
theorem Block.Counted.exists_isCountedBlock {block : Block} (h : block.Counted)
    (hlines : ∀ l ∈ block.lines, '\n' ∉ l) :
    ∃ whole z, block.render = whole ++ z ∧ '\n' ∉ z ∧ IsCountedBlock whole block.content ∧
      ∀ b, ¬ AtLineStart (whole.reverse ++ b) := by
  obtain ⟨opening, inner, closing⟩ := block
  obtain ⟨hopening, hinner, hfences, hclosing⟩ := h
  obtain ⟨l, rfl, hl⟩ := Option.any_eq_true _ _ |>.mp hclosing
  obtain ⟨v, w, rfl, hv, hedge⟩ := isMatch_countedOpening.mp hopening
  obtain ⟨u, z, rfl, hu⟩ := isMatch_countedFence.mp hl
  have hw : '\n' ∉ w := fun h ↦ hlines (v ++ w) (by simp [Block.lines]) (by simp [h])
  have hz : '\n' ∉ z := fun h ↦ hlines (u ++ z) (by simp [Block.lines]) (by simp [h])
  have hend : ∀ x y, Text.unlines inner = x ++ y → ¬ EndsBlock y := fun x y hxy ↦
    not_endsBlock hinner (fun l hl ↦ hlines l (by simp [Block.lines, hl])) hfences hxy
  refine ⟨v ++ (w ++ '\n' :: (Text.unlines inner ++ '\n' :: u)), z, ?_, hz,
    ⟨v, w, u, rfl, hv, hedge, hw, hu, hend⟩, fun b ↦ ?_⟩
  · simp [render_closed hinner]
  · simpa using hu.not_atLineStart _

theorem countedFrom_block {block : Block} (hb : AtLineStart b) (h : block.Counted)
    (hlines : ∀ l ∈ block.lines, '\n' ∉ l) (t : Text) :
    countedFrom b (block.render ++ t) =
      block.content :: countedFrom (block.render.reverse ++ b) t := by
  obtain ⟨whole, z, hrender, hz, hblock, hstop⟩ := h.exists_isCountedBlock hlines
  rw [hrender, List.append_assoc, countedFrom_of_isCountedBlock hb hblock,
    countedFrom_rest (hstop b) hz, List.reverse_append, List.append_assoc]

theorem closedBlocks_render {block : Block} (h : block.Counted)
    (hlines : ∀ l ∈ block.lines, '\n' ∉ l) : closedBlocks block.render = [block.content] := by
  have hblock := countedFrom_block (b := []) rfl h hlines []
  rwa [List.append_nil, ← closedBlocks_eq] at hblock

/-- A block comes next, and not the word alone. -/
theorem not_wordNext_renderAll {block : Block} (segments : List Segment)
    (hopening : Fence.isOpening block.opening) :
    ¬ WordNext (Segment.renderAll (.diagram block :: segments)) := by
  have hline : ∀ t, ¬ WordNext (block.opening ++ t) := by
    rintro t ⟨s, w, r, h, hs, hw⟩
    obtain ⟨s', u, r', hopening', hs', hu⟩ := Fence.isOpening_iff.mp hopening
    obtain ⟨⟨v, rfl⟩, -⟩ := hu.exists_snoc
    obtain ⟨c, w, rfl, hc, hblank⟩ := hw.head_mermaid
    simp only [hopening', List.append_assoc, List.cons_append] at h
    obtain ⟨-, h⟩ := Text.run_unique hs' hs (by simp; decide) (by simpa using hblank) h
    obtain ⟨rfl, -⟩ := List.cons.inj h
    exact absurd hc (by decide)
  rw [Segment.renderAll_eq, List.flatMap_cons, Segment.lines, Block.lines, List.append_assoc,
    List.cons_append]
  cases block.inner ++ (block.closing.toList ++ segments.flatMap Segment.lines) with
  | nil => simpa [Text.unlines_singleton] using hline []
  | cons l ls =>
    rw [Text.unlines_cons (by simp)]
    exact hline _

theorem countedFrom_renderAll_singleton (hb : AtLineStart b) (s : Segment) :
    countedFrom b (Segment.renderAll [s]) = closedBlocks s.render := by
  rw [Segment.renderAll_singleton]
  exact ((counts_countedFrom [] s.render).congr (iff_of_true rfl hb)).eq

theorem countedFrom_renderAll {segments : List Segment} (hcut : Segment.Cut segments)
    (hlines : ∀ s ∈ segments, ∀ l ∈ s.lines, '\n' ∉ l) (hcounted : ∀ s ∈ segments, s.Counted)
    (hb : AtLineStart b) :
    countedFrom b (Segment.renderAll segments) =
      segments.flatMap fun s ↦ closedBlocks s.render := by
  induction hcut generalizing b with
  | nil => rfl
  | plain | unclosed => rw [countedFrom_renderAll_singleton hb, List.flatMap_singleton]
  | @closed block segments hopening hclosed hcut ih =>
    rw [List.forall_mem_cons] at hlines hcounted
    have hcount := closedBlocks_render (hcounted.1 hclosed) hlines.1
    by_cases hnil : segments = []
    · rw [hnil, countedFrom_renderAll_singleton hb, List.flatMap_singleton]
    · have hrest := ih (b := '\n' :: (block.render.reverse ++ b)) hlines.2 hcounted.2 rfl
      rw [Segment.renderAll_cons hnil, Segment.render,
        countedFrom_block hb (hcounted.1 hclosed) hlines.1, countedFrom_newline, hrest,
        List.flatMap_cons, Segment.render, hcount, List.singleton_append]
  | @between text block segments hcut ih =>
    have hopening : Fence.isOpening block.opening := by cases hcut <;> assumption
    rw [List.forall_mem_cons] at hlines hcounted
    rw [Segment.renderAll_cons (by simp), Segment.render,
      countedFrom_text hb hcounted.1 (not_wordNext_renderAll segments hopening),
      ih (b := '\n' :: (text.reverse ++ b)) hlines.2 hcounted.2 rfl]
    rfl

theorem closedBlocks_eq_flatMap (h : ∀ s ∈ Segment.split t, s.Counted) :
    closedBlocks t = (Segment.split t).flatMap fun s ↦ closedBlocks s.render := by
  have hlines : ∀ s ∈ Segment.split t, ∀ l ∈ s.lines, '\n' ∉ l := fun s hs l hl ↦
    Text.newline_not_mem_of_mem_lines (Segment.mem_lines_of_mem_split hs hl)
  have hcounted := countedFrom_renderAll (b := []) (Segment.cut_split t) hlines h rfl
  rwa [Segment.renderAll_split, ← closedBlocks_eq] at hcounted

theorem mem_closedBlocks {block : Block} (h : ∀ s ∈ Segment.split t, s.Counted)
    (hblock : block ∈ Segment.blocks t) (hclosed : block.isClosed) :
    block.content ∈ closedBlocks t := by
  obtain ⟨s, hs, hsome⟩ := List.mem_filterMap.mp hblock
  cases s with
  | text t => cases hsome
  | diagram b =>
    obtain rfl := Option.some.inj hsome
    have hlines : ∀ l ∈ b.lines, '\n' ∉ l := fun l hl ↦
      Text.newline_not_mem_of_mem_lines (Segment.mem_lines_of_mem_split hs hl)
    rw [closedBlocks_eq_flatMap h, List.mem_flatMap]
    refine ⟨_, hs, ?_⟩
    rw [Segment.render, closedBlocks_render (h _ hs hclosed) hlines, List.mem_singleton]

end DiagramRepair
