import DiagramRepair.Proofs.Line.Broken
import DiagramRepair.Proofs.Line.Nested
import DiagramRepair.Proofs.Line.Normal
import DiagramRepair.Proofs.Line.Strip

namespace DiagramRepair.Line

open Pattern

variable {k l p r t tail u v : Text} {ps : List Part} {b b' : Bool}

namespace Mark

variable {m : Mark}

theorem not_isDangling_settled (k : Text) (m : Mark) : ¬ (m.settled k).IsDangling := by
  cases m with
  | standing x =>
    simp only [settled, bracketed]
    split <;> exact id
  | label | quoted | bar | quotedBar | dangling | broken | edge => exact id

theorem isWhole_straightened (hm : ¬ m.IsDangling) : (m.straightened k).IsWhole := by
  cases m with
  | dangling => exact hm trivial
  | label | quoted | standing | bar | quotedBar | broken | edge => trivial

theorem IsWhole.not_isDangling (hm : m.IsWhole) : ¬ m.IsDangling := by
  cases m with
  | dangling | broken => exact hm.elim
  | label | quoted | standing | bar | quotedBar | edge => exact id

theorem isWhole_repaired (k : Text) (m : Mark) : (m.repaired k).IsWhole :=
  isStep_labelQuoted.isWhole (isWhole_straightened (not_isDangling_settled k m))

def normal (spared : Bool) (k : Text) (m : Mark) : Mark :=
  if spared then m.finished k else (m.repaired k).finished k

theorem isStep_normal (spared : Bool) : IsStep (normal spared) := by
  cases spared with
  | true => exact isStep_finished
  | false => exact isStep_finished.comp isStep_repaired

theorem normal_normal (h : b → b') (k : Text) (m : Mark) :
    (m.normal b k).normal b' k = m.normal b k := by
  cases b with
  | true =>
    rw [h rfl]
    exact finished_finished k m
  | false =>
    cases b' with
    -- the word may come up when a label loses its decorations, but then the mark is finished
    | true => exact finished_finished k (m.repaired k)
    | false =>
      simp only [normal, Bool.false_eq_true, if_false]
      rw [repaired_finished_repaired, finished_finished]

end Mark

theorem repair_render (h : Orderly ps tail) :
    quoteNestedBracketLabels (fixBrokenEdgeLabels (settleLabels maxPasses (render ps tail))) =
      render (mapMarks Mark.repaired ps) tail := by
  have hsettled : Orderly (mapMarks Mark.settled ps) tail := h.mapMarks Mark.isStep_settled
  have hdangling : ∀ p ∈ mapMarks Mark.settled ps, ¬ p.mark.IsDangling :=
    forall_mapMarks (P := fun _ ↦ True) (Q := fun m ↦ ¬ m.IsDangling)
      (fun k m _ ↦ m.not_isDangling_settled k) (by simp)
  have hwhole : ∀ p ∈ mapMarks Mark.straightened (mapMarks Mark.settled ps), p.mark.IsWhole :=
    forall_mapMarks (fun _ _ ↦ Mark.isWhole_straightened) hdangling
  have hstraightened : Orderly (mapMarks Mark.straightened (mapMarks Mark.settled ps)) tail :=
    hsettled.mapMarks Mark.isStep_straightened
  rw [settleLabels_render h, fixBrokenEdgeLabels_render hsettled hdangling,
    quoteNestedBracketLabels_render hstraightened hwhole, mapMarks_mapMarks, mapMarks_mapMarks]
  rfl

theorem finish_render (h : Orderly ps tail) (hps : ∀ p ∈ ps, p.mark.IsWhole) :
    cleanLabelTail (stripLabelDecorations (quotePipeLabels (render ps tail))) =
      render (mapMarks Mark.finished ps) tail := by
  have hbars : Orderly (mapMarks Mark.barQuoted ps) tail := h.mapMarks Mark.isStep_barQuoted
  have hwhole : ∀ p ∈ mapMarks Mark.barQuoted ps, p.mark.IsWhole :=
    forall_mapMarks (fun _ _ ↦ Mark.isStep_barQuoted.isWhole) hps
  have hfinished : mapMarks Mark.stripped (mapMarks Mark.barQuoted ps) =
      mapMarks Mark.finished ps := mapMarks_mapMarks _ _ ps
  have hfull : ∀ p ∈ mapMarks Mark.finished ps, p.mark.IsWhole :=
    forall_mapMarks (fun _ _ ↦ Mark.isStep_finished.isWhole) hps
  have hclosed : mapMarks Mark.closed (mapMarks Mark.finished ps) = mapMarks Mark.finished ps :=
    mapMarks_eq_self fun p hp ↦ Mark.closed_of_not_isDangling (hfull p hp).not_isDangling
  rw [quotePipeLabels_render h hps, stripLabelDecorations_render hbars hwhole, hfinished,
    cleanLabelTail_render (h.mapMarks Mark.isStep_finished), hclosed]

/-- The normal form of a line with orderly marks. -/
theorem normalize_of_render (htext : mergeHashComment l = render ps tail) (h : Orderly ps tail)
    (hps : hasSubgraph (mergeHashComment l) → ∀ p ∈ ps, p.mark.IsWhole) :
    normalize l = render (mapMarks (Mark.normal (hasSubgraph (mergeHashComment l))) ps) tail := by
  rw [normalize]
  cases hspared : hasSubgraph (mergeHashComment l) with
  | true =>
    simp only [if_true, htext]
    exact finish_render h (hps hspared)
  | false =>
    have hwhole : ∀ p ∈ mapMarks Mark.repaired ps, p.mark.IsWhole :=
      forall_mapMarks (P := fun _ ↦ True) (fun k m _ ↦ m.isWhole_repaired k) (by simp)
    simp only [Bool.false_eq_true, if_false, htext]
    rw [repair_render h, finish_render (h.mapMarks Mark.isStep_repaired) hwhole, mapMarks_mapMarks]
    rfl

def CommentHead (p : Text) : Prop := ∃ indent source s s₂ target s₁,
  p = indent ++ (source ++ (s ++ '-' :: (Text.of "->" ++ (s₂ ++ (target ++ (Text.of ";" ++
      (s₁ ++ ['#']))))))) ∧
    Blank indent ∧ (source ≠ [] ∧ ∀ c ∈ source, isWordChar c) ∧ Blank s ∧ Blank s₂ ∧
      (target ≠ [] ∧ ∀ c ∈ target, isWordChar c) ∧ Blank s₁

theorem isMatch_hashCommentPattern : hashCommentPattern.isMatch l ↔ ∃ p comment r,
    l = p ++ (comment ++ r) ∧ CommentHead p ∧ '\n' ∉ comment ∧ (r = [] ∨ r = ['\n']) := by
  rw [isMatch_iff (by decide)]
  simp only [hashCommentPattern, many, takes_append_lastLineEnd, takes_append_group,
    takes_star_any, takes_append_blanks, takes_append_sign, takes_many1_one, takes_blanks,
    takes_textStart, existsAndEq, true_and, and_true, and_assoc, List.append_assoc,
    List.nil_append]
  constructor
  · rintro ⟨r, comment, s₁, target, s₂, s, indent, source, rfl, hr, hcomment, hs₁, htarget, htarget',
      hs₂, hs, hsource, hsource', hindent⟩
    exact ⟨_, comment, r, by simp [Text.of], ⟨indent, source, s, s₂, target, s₁, rfl, hindent,
      ⟨hsource, hsource'⟩, hs, hs₂, ⟨htarget, htarget'⟩, hs₁⟩, hcomment, hr⟩
  · rintro ⟨_, comment, r, rfl, ⟨indent, source, s, s₂, target, s₁, rfl, hindent, hsource, hs, hs₂,
      htarget, hs₁⟩, hcomment, hr⟩
    exact ⟨r, comment, s₁, target, s₂, s, indent, source, by simp [Text.of], hr, hcomment, hs₁,
      htarget.1, htarget.2, hs₂, hs, hsource.1, hsource.2, hindent⟩

theorem isMatch_of_commentHead (hp : CommentHead p) (hl : '\n' ∉ p ++ r) :
    hashCommentPattern.isMatch (p ++ r) :=
  isMatch_hashCommentPattern.mpr ⟨p, r, [], by simp, hp, fun h ↦ hl (by simp [h]), .inl rfl⟩

theorem dash_not_mem {indent source s : Text} (hindent : Blank indent)
    (hsource : ∀ c ∈ source, isWordChar c) (hs : Blank s) : '-' ∉ indent ++ (source ++ s) := by
  have hword : '-' ∉ source := not_mem_of_class hsource (by decide)
  simp [not_dash_of_blank hindent, hword, not_dash_of_blank hs]

theorem not_mem_mergeHashComment (hl : '\n' ∉ l) : '\n' ∉ mergeHashComment l := by
  intro hmem
  rcases (markEdit_mergeHashComment l).adds _ hmem with h | h
  · exact hl h
  · exact absurd h (by decide)

/-- The label that a comment becomes stands in the way of another one. -/
theorem not_isMatch_mergeHashComment (l : Text) :
    ¬ hashCommentPattern.isMatch (mergeHashComment l) := by
  cases hm : hashCommentPattern.match? l with
  | none => simp [mergeHashComment, hm, isMatch]
  | some m =>
    obtain ⟨s, s₁, s₂, hline, hindent, hsource, -⟩ := exists_of_hashComment hm
    rw [isMatch_hashCommentPattern, mergeHashComment, hm]
    rintro ⟨_, comment, r, heq, ⟨indent, source, s', s₂', target, s₁', rfl, hindent', hsource', hs',
      -⟩, -⟩
    have hdash := dash_not_mem hindent hsource (s := [' ']) (by decide)
    have hdash' := dash_not_mem hindent' hsource'.2 hs'
    have hsplit := Text.append_cons_inj hdash hdash' (by simpa [Text.of] using heq)
    simpa [Text.of] using hsplit.2

theorem CommentHead.not_mem {c : Char} (hc : c ∈ "\"[|".toList) (h : CommentHead p) : c ∉ p := by
  have hsign : ∀ c ∈ "\"[|".toList, Text.isBlank c = false ∧ isWordChar c = false ∧
      c ≠ '-' ∧ c ≠ '>' ∧ c ≠ ';' ∧ c ≠ '#' := by decide
  obtain ⟨hblank, hword, hsign⟩ := hsign c hc
  have hb : ∀ {s : Text}, Blank s → c ∉ s := fun hs ↦ not_mem_of_class hs hblank
  have hw : ∀ {s : Text}, (∀ c ∈ s, isWordChar c) → c ∉ s := fun hs ↦ not_mem_of_class hs hword
  obtain ⟨indent, source, s, s₂, target, s₁, rfl, hindent, hsource, hs, hs₂, htarget, hs₁⟩ := h
  simp [hb hindent, hw hsource.2, hb hs, hb hs₂, hw htarget.2, hb hs₁, hsign, Text.of]

theorem CommentHead.exists_hash (h : CommentHead p) : ∃ p', p = p' ++ ['#'] := by
  obtain ⟨indent, source, s, s₂, target, s₁, rfl, -⟩ := h
  exact ⟨indent ++ (source ++ (s ++ '-' :: (Text.of "->" ++ (s₂ ++ (target ++
    (Text.of ";" ++ s₁)))))), by simp⟩

/-- The head of a comment stands in the first run. -/
theorem exists_firstRun_of_commentHead (hp : CommentHead p) (hps : ∀ q ∈ ps, q.mark.IsWhole)
    (h : render ps tail = p ++ r) : ∃ r', firstRun ps tail = p ++ r' := by
  cases ps with
  | nil => exact ⟨r, h⟩
  | cons q ps =>
    have htext : ∃ v c t, q.mark.text = v ++ c :: t ∧ '#' ∉ v ∧ c ∈ "\"[|".toList := by
      have hwhole := hps q (by simp)
      cases hmark : q.mark with
      | label x => exact ⟨[], '[', _, rfl, by simp, by decide⟩
      | quoted x => exact ⟨[], '[', _, rfl, by simp, by decide⟩
      | standing x => exact ⟨[], '"', _, rfl, by simp, by decide⟩
      | bar x => exact ⟨[], '|', _, rfl, by simp, by decide⟩
      | quotedBar x => exact ⟨[], '|', _, rfl, by simp, by decide⟩
      | edge x => exact ⟨['-', '-', ' '], '"', _, rfl, by decide, by decide⟩
      | dangling | broken => simp [hmark, Mark.IsWhole] at hwhole
    obtain ⟨v, c, t, htext, hhash, hc⟩ := htext
    have hsplit : p ++ r = q.run ++ v ++ c :: (t ++ render ps tail) := by
      simp [← h, render, htext]
    obtain ⟨w, hrun, -⟩ := Text.exists_of_not_mem_left (hp.not_mem hc) hsplit
    -- the dashes of an edge label may belong to the head, but its hash may not
    obtain ⟨p', rfl⟩ := hp.exists_hash
    obtain ⟨r', hrun', -⟩ :=
      Text.exists_of_not_mem_right (p := p') (q := w) hhash (by simpa using hrun)
    exact ⟨r', by simpa [firstRun] using hrun'⟩

theorem firstRun_mapMarks (f : Text → Mark → Mark) (ps : List Part) (tail : Text) :
    firstRun (mapMarks f ps) tail = firstRun ps tail := by
  cases ps <;> rfl

/-- Other marks behind the same runs bring no comment behind an edge. -/
theorem mergeHashComment_render (hl : '\n' ∉ l) (htext : mergeHashComment l = render ps tail)
    {f : Text → Mark → Mark} (hps : ∀ p ∈ mapMarks f ps, p.mark.IsWhole) :
    mergeHashComment (render (mapMarks f ps) tail) = render (mapMarks f ps) tail := by
  rw [mergeHashComment]
  cases hm : hashCommentPattern.match? (render (mapMarks f ps) tail) with
  | none => rfl
  | some m =>
    have hmatch : hashCommentPattern.isMatch (render (mapMarks f ps) tail) := by simp [isMatch, hm]
    obtain ⟨p, comment, r, hline, hp, -⟩ := isMatch_hashCommentPattern.mp hmatch
    obtain ⟨r', hfirst⟩ := exists_firstRun_of_commentHead hp hps hline
    rw [firstRun_mapMarks] at hfirst
    obtain ⟨r'', hrender⟩ := exists_render_of_firstRun hfirst
    rw [hrender] at htext
    have hnot := not_isMatch_mergeHashComment l
    rw [htext] at hnot
    exact absurd (isMatch_of_commentHead hp (htext ▸ not_mem_mergeHashComment hl)) hnot

def runs (ps : List Part) (tail : Text) : List Text := ps.map Part.run ++ [tail]

theorem hasSubgraph_iff : hasSubgraph l ↔ ∃ u v, l = u ++ (Text.of "subgraph" ++ v) ∧
    u.getLast?.any isWordChar = false ∧ v.head?.any isWordChar = false := by
  have htakes : ∀ {b u r gs}, (wordEdge ++ sign "subgraph" ++ wordEdge).Takes b u r gs ↔
      u = Text.of "subgraph" ∧ b.head?.any isWordChar = false ∧ r.head?.any isWordChar = false ∧
        gs = [] := by
    intro b u r gs
    have hs : isWordChar 's' = true ∧ isWordChar 'h' = true := by decide
    simp only [wordEdge, takes_append_place, takes_append_sign, takes_place, existsAndEq, true_and]
    constructor
    · rintro ⟨hr, rfl, rfl, hb⟩
      exact ⟨rfl, by simpa [hs.1] using hb, by simpa [hs.2] using hr, rfl⟩
    · rintro ⟨rfl, hb, hr, rfl⟩
      exact ⟨by simp [Text.of, hs.2, hr], rfl, rfl, by simp [hs.1, hb]⟩
  constructor
  · intro h
    obtain ⟨m, hm⟩ := Option.isSome_iff_exists.mp h
    obtain ⟨⟨gs, ht, -⟩, hl⟩ := of_search? (by decide) hm
    obtain ⟨hwhole, hbefore, hafter, -⟩ := htakes.mp ht
    exact ⟨m.before.reverse, m.after, by rw [← hwhole, ← hl], by simpa using hbefore, hafter⟩
  · rintro ⟨u, v, hl, hu, hv⟩
    by_contra hnone
    rw [Bool.not_eq_true, hasSubgraph, occursIn, Option.isSome_eq_false_iff,
      Option.isNone_iff_eq_none] at hnone
    exact search?_eq_none (by decide) hnone hl [] (htakes.mpr ⟨rfl, by simpa using hu, hv, rfl⟩)

theorem hasSubgraph_around (h : hasSubgraph k) (hu : u.getLast?.any isWordChar = false)
    (hv : v.head?.any isWordChar = false) : hasSubgraph (u ++ (k ++ v)) := by
  obtain ⟨x, y, rfl, hx, hy⟩ := hasSubgraph_iff.mp h
  refine hasSubgraph_iff.mpr ⟨u ++ x, y ++ v, by simp, ?_, ?_⟩
  · rcases List.eq_nil_or_concat x with rfl | ⟨x, c, rfl⟩
    · simpa using hu
    · simpa [← List.append_assoc] using hx
  · cases y with
    | nil => exact hv
    | cons c y => exact hy

theorem Mark.IsWhole.text_ends {m : Mark} (hm : m.IsWhole) :
    (∃ c t, m.text = c :: t ∧ isWordChar c = false) ∧
      ∃ t c, m.text = t ++ [c] ∧ isWordChar c = false := by
  cases m with
  | label x => exact ⟨⟨'[', _, rfl, by decide⟩, '[' :: x, ']', by simp [text], by decide⟩
  | quoted x =>
    exact ⟨⟨'[', _, rfl, by decide⟩, '[' :: '"' :: (x ++ ['"']), ']', by simp [text], by decide⟩
  | standing x => exact ⟨⟨'"', _, rfl, by decide⟩, '"' :: x, '"', by simp [text], by decide⟩
  | bar x => exact ⟨⟨'|', _, rfl, by decide⟩, '|' :: x, '|', by simp [text], by decide⟩
  | quotedBar x =>
    exact ⟨⟨'|', _, rfl, by decide⟩, '|' :: '"' :: (x ++ ['"']), '|', by simp [text], by decide⟩
  | edge x =>
    exact ⟨⟨'-', _, rfl, by decide⟩, Text.of "-- \"" ++ (x ++ ['"']), ' ', by simp [text, Text.of],
      by decide⟩
  | dangling | broken => exact hm.elim

theorem exists_around_run (hk : k ∈ runs ps tail) (hps : ∀ p ∈ ps, p.mark.IsWhole) :
    ∃ u v, render ps tail = u ++ (k ++ v) ∧ u.getLast?.any isWordChar = false ∧
      v.head?.any isWordChar = false := by
  induction ps with
  | nil =>
    obtain rfl : k = tail := by simpa [runs] using hk
    exact ⟨[], [], by simp [render], rfl, rfl⟩
  | cons p ps ih =>
    obtain ⟨hwhole, hps⟩ := List.forall_mem_cons.mp hps
    obtain ⟨⟨c, t, hhead, hc⟩, t', c', hlast, hc'⟩ := hwhole.text_ends
    rcases List.mem_cons.mp hk with rfl | hk
    · exact ⟨[], p.mark.text ++ render ps tail, rfl, rfl, by simp [hhead, hc]⟩
    · obtain ⟨u, v, hrender, hu, hv⟩ := ih hk hps
      refine ⟨p.run ++ (p.mark.text ++ u), v, by simp [render, hrender], ?_, hv⟩
      rcases List.eq_nil_or_concat u with rfl | ⟨u, d, rfl⟩
      · simp [hlast, hc']
      · simpa [← List.append_assoc] using hu

theorem runs_mapMarks (f : Text → Mark → Mark) (ps : List Part) (tail : Text) :
    runs (mapMarks f ps) tail = runs ps tail := by
  simp [runs, mapMarks]

/-- The marks of the line are orderly. In a line with the word `subgraph` most steps spare them, so
they must be whole, and the word must stand between them, where no step takes it away. -/
structure Marked (l : Text) (ps : List Part) (tail : Text) : Prop where
  text : l = render ps tail
  orderly : Orderly ps tail
  whole : hasSubgraph l → ∀ p ∈ ps, p.mark.IsWhole
  kept : hasSubgraph l → ∃ k ∈ runs ps tail, hasSubgraph k

def WellMarked (l : Text) : Prop := ∃ ps tail, Marked (mergeHashComment l) ps tail

/-- Running the normal form twice gives the same line as running it once. -/
theorem normalize_normalize (hl : '\n' ∉ l) (h : WellMarked l) :
    normalize (normalize l) = normalize l := by
  obtain ⟨ps, tail, h⟩ := h
  let spared := hasSubgraph (mergeHashComment l)
  have hwhole : ∀ p ∈ mapMarks (Mark.normal spared) ps, p.mark.IsWhole := by
    cases hspared : spared with
    | true => exact forall_mapMarks (fun _ _ ↦ Mark.isStep_finished.isWhole) (h.whole hspared)
    | false =>
      exact forall_mapMarks (P := fun _ ↦ True)
        (fun k m _ ↦ Mark.isStep_finished.isWhole (m.isWhole_repaired k)) (by simp)
  have hfirst : normalize l = render (mapMarks (Mark.normal spared) ps) tail :=
    normalize_of_render h.text h.orderly h.whole
  have hcomment := mergeHashComment_render hl h.text hwhole
  have hsecond := normalize_of_render hcomment (h.orderly.mapMarks (Mark.isStep_normal spared))
    fun _ ↦ hwhole
  have hkept : spared →
      hasSubgraph (mergeHashComment (render (mapMarks (Mark.normal spared) ps) tail)) := by
    intro hspared
    obtain ⟨k, hk, hword⟩ := h.kept hspared
    rw [← runs_mapMarks] at hk
    obtain ⟨u, v, hrender, hu, hv⟩ := exists_around_run hk hwhole
    rw [hcomment, hrender]
    exact hasSubgraph_around hword hu hv
  rw [hfirst, hsecond, mapMarks_mapMarks]
  simp only [Mark.normal_normal hkept]

theorem normalize_normalize_glued :
    let l := Text.of "A -->|Yes| B[Start (now)] --> C\"Stop\";"
    ('\n' ∉ l ∧ WellMarked l) ∧ normalize (normalize l) = normalize l := by
  intro l
  have hboxed : ∀ x : Text, (∀ c ∈ x, c ≠ '[' ∧ c ≠ ']') → Boxed x := fun x hx ↦ by
    simpa using Grouped.plain_append hx .nil
  have hapart : ∀ x : Text, '|' ∉ x → BarsApart x := fun x ↦ barsApart_of_not_mem
  have hyes : Standing (Text.of "Yes") :=
    ⟨hboxed _ (by decide), by decide, hapart _ (by decide), by decide⟩
  have hstop : Standing (Text.of "Stop") :=
    ⟨hboxed _ (by decide), by decide, hapart _ (by decide), by decide⟩
  have hstop' : Quotable (Text.of "Stop") :=
    ⟨hboxed _ (by decide), by decide, hapart _ (by decide), by decide⟩
  have hstart : Labels (Text.of " B") (Text.of "Start (now)") :=
    ⟨hboxed _ (by decide), by decide, hapart _ (by decide), by decide, by decide,
      fun h ↦ absurd h (by decide)⟩
  have horderly : Orderly [⟨Text.of "A -->", .bar (Text.of "Yes")⟩,
      ⟨Text.of " B", .label (Text.of "Start (now)")⟩,
      ⟨Text.of " --> C", .standing (Text.of "Stop")⟩] (Text.of ";") := by
    refine .cons ⟨by decide, hapart _ (by decide)⟩ ⟨hyes, by decide, by decide, ?_⟩ trivial
      (.cons ⟨by decide, hapart _ (by decide)⟩ hstart trivial
        (.cons ⟨by decide, hapart _ (by decide)⟩ ⟨hstop, fun _ ↦ hstop'⟩ trivial
          (.nil ⟨by decide, hapart _ (by decide)⟩)))
    exact ⟨Text.of "A ", Text.of "-->", [], rfl, .inl (.inl rfl), by decide⟩
  have hword : hasSubgraph (mergeHashComment l) = false := by decide
  have hmarked : WellMarked l := ⟨_, _, by decide, horderly, by simp [hword], by simp [hword]⟩
  exact ⟨⟨by decide, hmarked⟩, normalize_normalize (by decide) hmarked⟩

/-- In brackets turned the wrong way the first label hides the glued one behind it. -/
theorem normalize_normalize_ne_broken :
    let l := Text.of "A --[\"Text[\"-->B\"End\""
    normalize l = Text.of "A -- \"Text\" -->B\"End\"" ∧
      normalize (normalize l) ≠ normalize l := by
  decide

end DiagramRepair.Line
