import DiagramRepair.Block.Segment
import DiagramRepair.Proofs.Text.Lines
import Mathlib.Data.List.Forall2

namespace DiagramRepair.Block

variable {b : Block} {c l : Text}

theorem mem_inner_withContent (hl : l ∈ (b.withContent c).inner) : l ∈ Text.lines c := by
  rw [withContent] at hl
  split at hl
  · cases hl
  · exact hl

/-- What holds of the lines of a block and of its new content holds of the lines of the new block,
if it holds of the fence that is supplied. -/
theorem forall_mem_withContent {P : Text → Prop} (hb : ∀ l ∈ b.lines, P l)
    (hc : ∀ l ∈ Text.lines c, P l) (hfence : P Fence.closing) :
    ∀ l ∈ (b.withContent c).lines, P l := by
  have hopening : P b.opening := hb b.opening (by simp [lines])
  have hclosing : P (b.closing.getD Fence.closing) := by
    cases hclosing : b.closing with
    | none => exact hfence
    | some l => exact hb l (by simp [lines, hclosing])
  intro l hl
  rw [lines, List.cons_append, List.mem_cons, List.mem_append] at hl
  rcases hl with rfl | hl | hl
  · exact hopening
  · exact hc l (mem_inner_withContent hl)
  · rwa [List.mem_singleton.mp hl]

end DiagramRepair.Block

namespace DiagramRepair.Segment

variable {ls ls' rest inner inner' : List Text} {opening closing t : Text} {s : Segment}
  {segments : List Segment} {state : Reading}

theorem ofLines_plain (h : ∀ l ∈ ls', Fence.isOpening l = false) :
    ofLines (.plain ls) (ls' ++ rest) = ofLines (.plain (ls ++ ls')) rest := by
  induction ls' generalizing ls with
  | nil => simp
  | cons l ls' ih =>
    rw [List.forall_mem_cons] at h
    rw [List.cons_append, ofLines, if_neg (by simp [h.1]), ih h.2]
    simp

/-- A text without an opening fence is read as plain text to its end. -/
theorem ofLines_all_plain (h : ∀ l ∈ ls, Fence.isOpening l = false) :
    ofLines (.plain []) ls = ofPlain ls := by
  have hread : ofLines (.plain []) (ls ++ []) = ofLines (.plain ([] ++ ls)) [] := ofLines_plain h
  rwa [List.append_nil, List.nil_append, ofLines] at hread

theorem ofLines_diagram (h : ∀ l ∈ inner', Fence.isClosing l = false) :
    ofLines (.diagram opening inner) (inner' ++ rest) =
      ofLines (.diagram opening (inner ++ inner')) rest := by
  induction inner' generalizing inner with
  | nil => simp
  | cons l inner' ih =>
    rw [List.forall_mem_cons] at h
    rw [List.cons_append, ofLines, if_neg (by simp [h.1]), ih h.2]
    simp

theorem ofLines_block (hopening : Fence.isOpening opening)
    (hinner : ∀ l ∈ inner, Fence.isClosing l = false) (hclosing : Fence.isClosing closing) :
    ofLines (.plain ls) (opening :: (inner ++ closing :: rest)) =
      ofPlain ls ++ diagram ⟨opening, inner, some closing⟩ :: ofLines (.plain []) rest := by
  rw [ofLines, if_pos hopening, ofLines_diagram hinner, List.nil_append, ofLines, if_pos hclosing]

theorem filterMap_block?_ofPlain : (ofPlain ls).filterMap block? = [] := by
  rw [ofPlain]
  split <;> rfl

def lines : Segment → List Text
  | text t => Text.lines t
  | diagram b => b.lines

def Reading.lines : Reading → List Text
  | plain ls => ls
  | diagram opening inner => opening :: inner

theorem lines_ne_nil (s : Segment) : s.lines ≠ [] := by
  cases s with
  | text t => exact Text.lines_ne_nil t
  | diagram b => simp [lines, Block.lines]

theorem unlines_lines (s : Segment) : Text.unlines s.lines = s.render := by
  cases s with
  | text t => exact Text.unlines_lines t
  | diagram b => rfl

theorem flatMap_lines_ofPlain (h : ∀ l ∈ ls, '\n' ∉ l) : (ofPlain ls).flatMap lines = ls := by
  rw [ofPlain]
  split
  · rename_i hnil
    rw [List.isEmpty_iff.mp hnil]
    rfl
  · rename_i hne
    simp [lines, Text.lines_unlines (by simpa using hne) h]

theorem flatMap_lines_ofLines (state : Reading) (h : ∀ l ∈ state.lines ++ rest, '\n' ∉ l) :
    (ofLines state rest).flatMap lines = state.lines ++ rest := by
  induction rest generalizing state with
  | nil =>
    cases state with
    | plain ls => simpa [ofLines, Reading.lines] using
        flatMap_lines_ofPlain (by simpa [Reading.lines] using h)
    | diagram opening inner => simp [ofLines, lines, Reading.lines, Block.lines]
  | cons l rest ih =>
    cases state with
    | plain ls =>
      have hls : ∀ l ∈ ls, '\n' ∉ l := fun l hl ↦ h l (List.mem_append_left _ hl)
      rw [ofLines]
      split
      · have hrest := ih (.diagram l []) fun l' hl' ↦ h l' (List.mem_append_right _ hl')
        rw [List.flatMap_append, flatMap_lines_ofPlain hls, hrest]
        rfl
      · rw [ih (.plain (ls ++ [l])) (by simpa [Reading.lines] using h)]
        simp [Reading.lines]
    | diagram opening inner =>
      rw [ofLines]
      split
      · have hrest := ih (.plain []) fun l' hl' ↦ h l' (by simp_all [Reading.lines])
        rw [List.flatMap_cons, hrest]
        simp [lines, Reading.lines, Block.lines]
      · rw [ih (.diagram opening (inner ++ [l])) (by simpa [Reading.lines] using h)]
        simp [Reading.lines]

theorem flatMap_lines_split (t : Text) : (split t).flatMap lines = Text.lines t :=
  flatMap_lines_ofLines (.plain []) fun _ hl ↦ Text.newline_not_mem_of_mem_lines hl

theorem mem_lines_of_mem_split (hs : s ∈ split t) {l : Text} (hl : l ∈ s.lines) :
    l ∈ Text.lines t := by
  rw [← flatMap_lines_split]
  exact List.mem_flatMap.mpr ⟨s, hs, hl⟩

theorem renderAll_singleton (s : Segment) : renderAll [s] = s.render := by
  rw [renderAll, List.map_singleton, Text.unlines_singleton]

theorem renderAll_cons (h : segments ≠ []) :
    renderAll (s :: segments) = s.render ++ '\n' :: renderAll segments := by
  rw [renderAll, List.map_cons, Text.unlines_cons (by simpa using h), renderAll]

theorem renderAll_eq (segments : List Segment) :
    renderAll segments = Text.unlines (segments.flatMap lines) := by
  induction segments with
  | nil => rfl
  | cons s segments ih =>
    by_cases hnil : segments = []
    · simp [hnil, renderAll_singleton, unlines_lines]
    · obtain ⟨s', segments, rfl⟩ := List.exists_cons_of_ne_nil hnil
      have hlines : (s' :: segments).flatMap lines ≠ [] := by simp [lines_ne_nil]
      calc renderAll (s :: s' :: segments)
          = s.render ++ '\n' :: renderAll (s' :: segments) := renderAll_cons (by simp)
        _ = Text.unlines s.lines ++ '\n' :: Text.unlines ((s' :: segments).flatMap lines) := by
            rw [ih, unlines_lines]
        _ = Text.unlines ((s :: s' :: segments).flatMap lines) :=
            (Text.unlines_append s.lines_ne_nil hlines).symm

/-- Rendering the segments of a text gives the text back. -/
theorem renderAll_split (t : Text) : renderAll (split t) = t := by
  rw [renderAll_eq, flatMap_lines_split, Text.unlines_lines]

/-- A block follows every text but the last, and only the last block can lack its closing fence. -/
inductive Cut : List Segment → Prop
  | nil : Cut []
  | plain (t : Text) : Cut [text t]
  | unclosed {b : Block} :
    Fence.isOpening b.opening → b.isClosed = false → Cut [diagram b]
  | closed {b : Block} {segments : List Segment} :
    Fence.isOpening b.opening → b.isClosed → Cut segments → Cut (diagram b :: segments)
  | between (t : Text) {b : Block} {segments : List Segment} :
    Cut (diagram b :: segments) → Cut (text t :: diagram b :: segments)

theorem cut_ofLines (rest : List Text) :
    (∀ ls, Cut (ofLines (.plain ls) rest)) ∧
    ∀ opening inner, Fence.isOpening opening → Cut (ofLines (.diagram opening inner) rest) ∧
      ∃ b segments, ofLines (.diagram opening inner) rest = diagram b :: segments := by
  induction rest with
  | nil =>
    refine ⟨fun ls ↦ ?_, fun opening inner hopening ↦ ⟨.unclosed hopening rfl, _, _, rfl⟩⟩
    rw [ofLines, ofPlain]
    split
    · exact .nil
    · exact .plain _
  | cons l rest ih =>
    refine ⟨fun ls ↦ ?_, fun opening inner hopening ↦ ?_⟩
    · rw [ofLines]
      split
      · rename_i hl
        obtain ⟨hcut, b, segments, he⟩ := ih.2 l [] hl
        rw [he] at hcut ⊢
        rw [ofPlain]
        split
        · exact hcut
        · exact .between _ hcut
      · exact ih.1 _
    · rw [ofLines]
      split
      · exact ⟨.closed hopening rfl (ih.1 []), _, _, rfl⟩
      · exact ih.2 opening _ hopening

theorem cut_split (t : Text) : Cut (split t) := (cut_ofLines (Text.lines t)).1 []

/-- The segments are of one kind, and blocks have the same fences. -/
inductive SameFences : Segment → Segment → Prop
  | text {t t' : Text} : SameFences (text t) (text t')
  | diagram {b b' : Block} : b'.opening = b.opening → b'.closing = b.closing →
    SameFences (diagram b) (diagram b')

theorem Cut.congr {segments' : List Segment} (hcut : Cut segments)
    (h : List.Forall₂ SameFences segments segments') : Cut segments' := by
  induction hcut generalizing segments' with
  | nil =>
    cases h
    exact .nil
  | plain =>
    obtain ⟨_, _, ⟨⟩, hnil, rfl⟩ := List.forall₂_cons_left_iff.mp h
    cases hnil
    exact .plain _
  | unclosed hopening hclosed =>
    obtain ⟨_, _, hsame, hnil, rfl⟩ := List.forall₂_cons_left_iff.mp h
    cases hsame with
    | diagram hopening' hclosing' =>
      cases hnil
      exact .unclosed (hopening' ▸ hopening) (by rwa [Block.isClosed, hclosing'])
  | closed hopening hclosed _ ih =>
    obtain ⟨_, _, hsame, hrest, rfl⟩ := List.forall₂_cons_left_iff.mp h
    cases hsame with
    | diagram hopening' hclosing' =>
      exact .closed (hopening' ▸ hopening) (by rwa [Block.isClosed, hclosing']) (ih hrest)
  | between _ _ ih =>
    obtain ⟨_, _, hsame, hrest, rfl⟩ := List.forall₂_cons_left_iff.mp h
    obtain ⟨_, _, hblock, -, rfl⟩ := List.forall₂_cons_left_iff.mp hrest
    cases hsame
    cases hblock
    exact .between _ (ih hrest)

def Whole : Segment → Prop
  | text t => ∀ l ∈ Text.lines t, Fence.isOpening l = false
  | diagram b => (∀ l ∈ b.inner, Fence.isClosing l = false) ∧ ∀ l ∈ b.closing, Fence.isClosing l

theorem ofPlain_lines (t : Text) : ofPlain (Text.lines t) = [text t] := by
  simp [ofPlain, Text.lines_ne_nil, Text.unlines_lines]

theorem ofLines_opening (hopening : Fence.isOpening opening) :
    ofLines (.plain ls) (opening :: rest) =
      ofPlain ls ++ ofLines (.plain []) (opening :: rest) := by
  rw [ofLines, ofLines, if_pos hopening, if_pos hopening]
  rfl

theorem ofLines_flatMap_lines (hcut : Cut segments) (h : ∀ s ∈ segments, s.Whole) :
    ofLines (.plain []) (segments.flatMap lines) = segments := by
  induction hcut with
  | nil => rfl
  | plain t =>
    rw [List.flatMap_singleton, lines, ofLines_all_plain (h (text t) (by simp)), ofPlain_lines]
  | @unclosed b hopening hclosed =>
    obtain ⟨opening, inner, closing⟩ := b
    obtain rfl : closing = none := by simpa [Block.isClosed] using hclosed
    have hinner : ∀ l ∈ inner, Fence.isClosing l = false :=
      (h (diagram ⟨opening, inner, none⟩) (by simp)).1
    have hread : ofLines (.diagram opening []) (inner ++ []) =
        ofLines (.diagram opening inner) [] :=
      ofLines_diagram hinner
    rw [List.append_nil] at hread
    rw [List.flatMap_singleton, lines, Block.lines, Option.toList_none, List.append_nil, ofLines,
      if_pos hopening, hread]
    rfl
  | @closed b segments hopening hclosed _ ih =>
    obtain ⟨opening, inner, closing⟩ := b
    obtain ⟨l, rfl⟩ := Option.isSome_iff_exists.mp hclosed
    rw [List.forall_mem_cons] at h
    have hlines : (diagram ⟨opening, inner, some l⟩ :: segments).flatMap lines =
        opening :: (inner ++ l :: segments.flatMap lines) := by
      simp [lines, Block.lines]
    rw [hlines, ofLines_block hopening h.1.1 (h.1.2 l rfl), ih h.2]
    rfl
  | @between t b segments hcut ih =>
    have hopening : Fence.isOpening b.opening := by cases hcut <;> assumption
    rw [List.forall_mem_cons] at h
    have hread : ofLines (.plain []) (Text.lines t ++ (diagram b :: segments).flatMap lines) =
      ofLines (.plain (Text.lines t)) ((diagram b :: segments).flatMap lines) := ofLines_plain h.1
    have hlines : (diagram b :: segments).flatMap lines =
        b.opening :: (b.inner ++ b.closing.toList ++ segments.flatMap lines) := by
      simp [lines, Block.lines]
    rw [List.flatMap_cons, lines, hread, hlines, ofLines_opening hopening,
      ofPlain_lines, ← hlines, ih h.2]
    rfl

/-- Rendered segments are read as the same segments. -/
theorem split_renderAll (hne : segments ≠ []) (hcut : Cut segments) (h : ∀ s ∈ segments, s.Whole)
    (hlines : ∀ s ∈ segments, ∀ l ∈ s.lines, '\n' ∉ l) : split (renderAll segments) = segments := by
  have hflat : segments.flatMap lines ≠ [] := by
    obtain ⟨s, segments, rfl⟩ := List.exists_cons_of_ne_nil hne
    simp [s.lines_ne_nil]
  have hnewline : ∀ l ∈ segments.flatMap lines, '\n' ∉ l := by
    intro l hl
    obtain ⟨s, hs, hl⟩ := List.mem_flatMap.mp hl
    exact hlines s hs l hl
  rw [split, renderAll_eq, Text.lines_unlines hflat hnewline]
  exact ofLines_flatMap_lines hcut h

def Reading.Open : Reading → Prop
  | plain ls => ∀ l ∈ ls, Fence.isOpening l = false
  | diagram _ inner => ∀ l ∈ inner, Fence.isClosing l = false

theorem whole_ofPlain (hnewline : ∀ l ∈ ls, '\n' ∉ l) (h : ∀ l ∈ ls, Fence.isOpening l = false) :
    ∀ s ∈ ofPlain ls, s.Whole := by
  intro s hs
  rw [ofPlain] at hs
  split at hs
  · cases hs
  · rename_i hne
    obtain rfl := List.mem_singleton.mp hs
    rwa [Whole, Text.lines_unlines (by simpa using hne) hnewline]

theorem whole_ofLines (state : Reading) (hopen : state.Open)
    (hnewline : ∀ l ∈ state.lines ++ rest, '\n' ∉ l) : ∀ s ∈ ofLines state rest, s.Whole := by
  induction rest generalizing state with
  | nil =>
    cases state with
    | plain ls => exact whole_ofPlain (by simpa [Reading.lines] using hnewline) hopen
    | diagram opening inner =>
      intro s hs
      obtain rfl := List.mem_singleton.mp hs
      exact ⟨hopen, by simp⟩
  | cons l rest ih =>
    cases state with
    | plain ls =>
      have hls : ∀ l ∈ ls, '\n' ∉ l := fun l hl ↦ hnewline l (List.mem_append_left _ hl)
      rw [ofLines]
      split
      · rw [List.forall_mem_append]
        refine ⟨whole_ofPlain hls hopen, ih (.diagram l []) (List.forall_mem_nil _) ?_⟩
        exact fun l' hl' ↦ hnewline l' (List.mem_append_right _ hl')
      · rename_i hl
        refine ih (.plain (ls ++ [l])) ?_ (by simpa [Reading.lines] using hnewline)
        exact List.forall_mem_append.mpr ⟨hopen, by simpa using hl⟩
    | diagram opening inner =>
      rw [ofLines]
      split
      · rename_i hl
        refine List.forall_mem_cons.mpr ⟨⟨hopen, by simpa using hl⟩, ?_⟩
        refine ih (.plain []) (List.forall_mem_nil _) fun l' hl' ↦ hnewline l' ?_
        exact List.mem_append_right _ (List.mem_cons_of_mem l hl')
      · rename_i hl
        refine ih (.diagram opening (inner ++ [l])) ?_ (by simpa [Reading.lines] using hnewline)
        exact List.forall_mem_append.mpr ⟨hopen, by simpa using hl⟩

theorem whole_of_mem_split (hs : s ∈ split t) : s.Whole :=
  whole_ofLines (.plain []) (List.forall_mem_nil _)
    (fun _ hl ↦ Text.newline_not_mem_of_mem_lines hl) s hs

theorem split_ne_nil (t : Text) : split t ≠ [] := by
  intro hnil
  have hlines := flatMap_lines_split t
  rw [hnil] at hlines
  exact Text.lines_ne_nil t hlines.symm

end DiagramRepair.Segment
