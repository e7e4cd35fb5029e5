import DiagramRepair.Proofs.Line.Mark
import DiagramRepair.Proofs.Pattern.First

namespace DiagramRepair.Line

open Pattern Rule

variable {b id k r r' s s' t tail u v x y z z' : Text} {c : Char} {p : Part} {ps : List Part}

def quoteLabel (m : Match) : Text :=
  let content := m.group "content"
  if !content.any (among "[]|") || (singleGroupPattern.fullMatch? content).isSome then m.whole
  else m.group "id" ++ ['[', '"'] ++ Text.dropQuotes content ++ ['"', ']']

def isNameChar (c : Char) : Bool := !Text.isBlank c && c != '['

theorem grouped_iff : Grouped "[]" u ↔ ∃ us : List Text, u = us.flatten ∧
    ∀ v ∈ us, (∃ c, v = [c] ∧ c ≠ '[' ∧ c ≠ ']') ∨ ∃ y, v = '[' :: (y ++ [']']) ∧
      ∀ c ∈ y, among "[]" c = false := by
  constructor
  · intro h
    induction h with
    | nil => exact ⟨[], rfl, List.forall_mem_nil _⟩
    | @plain c t hc _ ih =>
      obtain ⟨us, rfl, hus⟩ := ih
      exact ⟨[c] :: us, rfl, List.forall_mem_cons.mpr ⟨.inl ⟨c, rfl, hc⟩, hus⟩⟩
    | @group y t hy _ ih =>
      obtain ⟨us, rfl, hus⟩ := ih
      exact ⟨('[' :: (y ++ [']'])) :: us, by simp, List.forall_mem_cons.mpr ⟨.inr ⟨y, rfl, hy⟩, hus⟩⟩
  · rintro ⟨us, rfl, hus⟩
    induction us with
    | nil => exact .nil
    | cons v us ih =>
      obtain ⟨hv, hrest⟩ := List.forall_mem_cons.mp hus
      rcases hv with ⟨c, rfl, hc⟩ | ⟨y, rfl, hy⟩
      · exact .plain hc (ih hrest)
      · simpa using Grouped.group hy (ih hrest)

theorem takes_groups {gs : Groups} :
    (many (noneOf "[]" ||| sign "[" ++ many (noneOf "[]") ++ sign "]")).Takes b u r gs ↔
      Grouped "[]" u ∧ gs = [] := by
  rw [grouped_iff]
  refine takes_star_of fun b u r gs ↦ ?_
  have hplain : (∀ c : Char, (!among "[]" c) = true ↔ c ≠ '[' ∧ c ≠ ']') := by
    intro c
    rw [Bool.not_eq_true', among_eq_false]
    simp
  simp only [takes_or, takes_append_sign, many, noneOf, takes_append_star_one, takes_sign, takes_one,
    hplain, existsAndEq, true_and]
  constructor
  · rintro (⟨c, hc, rfl, rfl⟩ | ⟨y, rfl, hy, rfl⟩)
    · exact ⟨.inl ⟨c, rfl, hc⟩, rfl⟩
    · exact ⟨.inr ⟨y, by simp, fun c hc ↦ by simpa [among] using hy c hc⟩, rfl⟩
  · rintro ⟨⟨c, rfl, hc⟩ | ⟨y, rfl, hy⟩, rfl⟩
    · exact .inl ⟨c, hc, rfl, rfl⟩
    · exact .inr ⟨y, by simp, fun c hc ↦ by simpa [among] using hy c hc, rfl⟩

theorem head?_label_iff : (∀ c ∈ (x ++ ']' :: r).head?, among "\"'" c = false) ↔
    x.head? ≠ some '"' ∧ x.head? ≠ some '\'' := by
  cases x with
  | nil =>
    simp only [List.nil_append, List.head?_cons, List.head?_nil]
    refine iff_of_true ?_ (by simp)
    rintro c ⟨⟩
    decide
  | cons c x => simp [among]

theorem takes_nestedLabelPattern {gs : Groups} : nestedLabelPattern.Takes b u r gs ↔
    ∃ id s x, u = id ++ (s ++ '[' :: (x ++ [']'])) ∧ (id ≠ [] ∧ ∀ c ∈ id, isNameChar c) ∧ Blank s ∧
      (x.head? ≠ some '"' ∧ x.head? ≠ some '\'') ∧ Grouped "[]" x ∧
      gs = [("content", x), ("id", id)] := by
  simp only [nestedLabelPattern, takes_append_sign, takes_append_group, oneOf,
    takes_append_notAhead_one, takes_append_blanks, takes_group, takes_many1_one, ↓takes_groups,
    existsAndEq, true_and, and_true, List.append_assoc]
  constructor
  · rintro ⟨x, id, s, rfl, rfl, hx, hhead, hs, hid⟩
    exact ⟨id, s, x, rfl, hid, hs, head?_label_iff.mp hhead, hx, rfl⟩
  · rintro ⟨id, s, x, rfl, hid, hs, hhead, hx, rfl⟩
    exact ⟨x, id, s, rfl, rfl, hx, head?_label_iff.mpr hhead, hs, hid⟩

theorem Grouped.unique (hx : Grouped "[]" x) (hy : Grouped "[]" y)
    (h : x ++ ']' :: r = y ++ ']' :: r') : x = y ∧ r = r' := by
  have hclose : ∀ {t : Text}, (∀ c ∈ t, among "[]" c = false) → ']' ∉ t :=
    fun ht hmem ↦ absurd (ht _ hmem) (by decide)
  induction hx generalizing y with
  | nil =>
    cases hy with
    | nil => exact ⟨rfl, (List.cons.inj h).2⟩
    | plain hc _ => exact absurd (List.cons.inj h).1.symm hc.2
    | group _ _ => simp at h
  | @plain c x hc _ ih =>
    cases hy with
    | nil => exact absurd (List.cons.inj h).1 hc.2
    | plain hc' hy =>
      obtain ⟨rfl, hrest⟩ := List.cons.inj h
      obtain ⟨rfl, hr⟩ := ih hy hrest
      exact ⟨rfl, hr⟩
    | group _ _ => exact absurd (List.cons.inj h).1 hc.1
  | @group v x hv _ ih =>
    cases hy with
    | nil => simp at h
    | plain hc' _ => exact absurd (List.cons.inj h).1.symm hc'.1
    | @group v' y hv' hy =>
      have hsplit : v ++ ']' :: (x ++ ']' :: r) = v' ++ ']' :: (y ++ ']' :: r') := by simpa using h
      obtain ⟨rfl, hrest⟩ := Text.append_cons_inj (hclose hv) (hclose hv') hsplit
      obtain ⟨rfl, hr⟩ := ih hy hrest
      exact ⟨rfl, hr⟩

def LabelAhead (t : Text) : Prop := ∃ s x r, t = s ++ '[' :: (x ++ ']' :: r) ∧ Blank s ∧
  (x.head? ≠ some '"' ∧ x.head? ≠ some '\'') ∧ Grouped "[]" x

def labelText (s x : Text) : Text :=
  if needsQuotes x then '[' :: '"' :: (Text.dropQuotes x ++ ['"', ']'])
  else s ++ '[' :: (x ++ [']'])

theorem name_unique {id' : Text} (hid : ∀ c ∈ id, isNameChar c) (hid' : ∀ c ∈ id', isNameChar c)
    (hs : Blank s) (hs' : Blank s') (hx : Grouped "[]" x) (hy : Grouped "[]" y)
    (h : id ++ (s ++ '[' :: (x ++ ']' :: r)) = id' ++ (s' ++ '[' :: (y ++ ']' :: r'))) :
    id = id' ∧ s = s' ∧ x = y ∧ r = r' := by
  have hopen : ∀ {id s : Text}, (∀ c ∈ id, isNameChar c) → Blank s → '[' ∉ id ++ s := by
    intro id s hid hs hmem
    rcases List.mem_append.mp hmem with h | h
    · exact absurd (hid _ h) (by decide)
    · exact not_open_of_blank hs h
  have hlast : ∀ {id : Text}, (∀ c ∈ id, isNameChar c) → ∀ c ∈ id.getLast?, Text.isBlank c = false := by
    intro id hid c hc
    have hname := hid c (List.mem_of_getLast? hc)
    simp only [isNameChar, Bool.and_eq_true, Bool.not_eq_true'] at hname
    exact hname.1
  rw [← List.append_assoc, ← List.append_assoc] at h
  obtain ⟨hname, hlabel⟩ := Text.append_cons_inj (hopen hid hs) (hopen hid' hs') h
  obtain ⟨rfl, rfl⟩ := Text.run_unique_right hs hs' (hlast hid) (hlast hid') hname
  obtain ⟨rfl, rfl⟩ := hx.unique hy hlabel
  exact ⟨rfl, rfl, rfl, rfl⟩

theorem exists_match_of_label (hne : id ≠ []) (hid : ∀ c ∈ id, isNameChar c) (hs : Blank s)
    (hhead : x.head? ≠ some '"' ∧ x.head? ≠ some '\'') (hx : Grouped "[]" x) (b r : Text) :
    ∃ m, nestedLabelPattern.matchAt? b (id ++ (s ++ '[' :: (x ++ [']'])) ++ r) = some m ∧
      m.whole = id ++ (s ++ '[' :: (x ++ [']'])) ∧ quoteLabel m = id ++ labelText s x := by
  have htakes : nestedLabelPattern.Takes b (id ++ (s ++ '[' :: (x ++ [']']))) r _ :=
    takes_nestedLabelPattern.mpr ⟨id, s, x, rfl, ⟨hne, hid⟩, hs, hhead, hx, rfl⟩
  obtain ⟨m, hm⟩ := Option.isSome_iff_exists.mp (matchAt?_isSome (by decide) htakes)
  obtain ⟨⟨gs, htakes', hgs⟩, -, htext⟩ := of_matchAt? (by decide) hm
  obtain ⟨id', s', x', hwhole, ⟨-, hid'⟩, hs', -, hx', rfl⟩ := takes_nestedLabelPattern.mp htakes'
  have hsplit : id ++ (s ++ '[' :: (x ++ ']' :: r)) =
      id' ++ (s' ++ '[' :: (x' ++ ']' :: m.after)) := by simpa [hwhole] using htext
  obtain ⟨rfl, rfl, rfl, -⟩ := name_unique hid hid' hs hs' hx hx' hsplit
  have hcontent : m.group "content" = x ∧ m.group "id" = id := by
    simp only [Match.group, hgs]
    exact ⟨rfl, rfl⟩
  have hall : x.head?.all (· != '\'') := by
    cases x with
    | nil => rfl
    | cons c x => simpa using hhead.2
  refine ⟨m, hm, hwhole, ?_⟩
  simp only [quoteLabel, hcontent.1, hcontent.2, hwhole, labelText, needsQuotes, hall, Bool.true_and]
  cases x.any (among "[]|") <;> cases (singleGroupPattern.fullMatch? x).isSome <;> simp

theorem replaceFrom_label (hc : isNameChar c) (hs : Blank s)
    (hhead : x.head? ≠ some '"' ∧ x.head? ≠ some '\'') (hx : Grouped "[]" x) (b r : Text) : ∃ b',
    nestedLabelPattern.replaceFrom quoteLabel b (c :: (s ++ '[' :: (x ++ ']' :: r))) =
      c :: (labelText s x ++ nestedLabelPattern.replaceFrom quoteLabel b' r) := by
  have hname : ∀ d ∈ [c], isNameChar d := by simpa using hc
  obtain ⟨m, hm, hwhole, hquote⟩ := exists_match_of_label (by simp) hname hs hhead hx b r
  have hmatch := replaceFrom_of_matchAt? (f := quoteLabel) hm hwhole (by simp)
  rw [hquote] at hmatch
  refine ⟨([c] ++ (s ++ '[' :: (x ++ [']']))).reverse ++ b, ?_⟩
  simpa using hmatch

/-- A character stays if no label comes next. A match that starts at it takes a longer identifier,
and the one that starts behind it takes the rest of that. -/
theorem replaceFrom_cons (h : ¬ LabelAhead t) (b : Text) :
    nestedLabelPattern.replaceFrom quoteLabel b (c :: t) =
      c :: nestedLabelPattern.replaceFrom quoteLabel (c :: b) t := by
  by_cases hfree : nestedLabelPattern.Free b (c :: t)
  · exact replaceFrom_of_free (by decide) hfree
  · simp only [Free, not_forall, not_not] at hfree
    obtain ⟨u, r, gs, heq, htakes⟩ := hfree
    obtain ⟨id, s, x, rfl, ⟨hne, hid⟩, hs, hhead, hx, -⟩ := takes_nestedLabelPattern.mp htakes
    cases id with
    | nil => exact absurd rfl hne
    | cons d id =>
      obtain ⟨rfl, ht⟩ := List.cons.inj heq
      cases id with
      | nil => exact absurd ⟨s, x, r, by simpa using ht, hs, hhead, hx⟩ h
      | cons e id =>
        have hid' := (List.forall_mem_cons.mp hid).2
        obtain ⟨m, hm, hwhole, hquote⟩ := exists_match_of_label hne hid hs hhead hx b r
        obtain ⟨m', hm', hwhole', hquote'⟩ :=
          exists_match_of_label (by simp) hid' hs hhead hx (c :: b) r
        have hmatch := replaceFrom_of_matchAt? (f := quoteLabel) hm hwhole (by simp)
        have hmatch' := replaceFrom_of_matchAt? (f := quoteLabel) hm' hwhole' (by simp)
        rw [heq, hmatch, hquote]
        have ht' : t = e :: id ++ (s ++ '[' :: (x ++ [']'])) ++ r := by simpa using ht
        rw [ht', hmatch', hquote']
        simp

abbrev Turns (z z' : Text) : Prop := nestedLabelPattern.ReplacesBehind quoteLabel '[' z z'

theorem replaceFrom_of_not_name (hc : isNameChar c = false) (b : Text) :
    nestedLabelPattern.replaceFrom quoteLabel b (c :: t) =
      c :: nestedLabelPattern.replaceFrom quoteLabel (c :: b) t := by
  refine replaceFrom_of_free (by decide) fun u r gs heq htakes ↦ ?_
  obtain ⟨id, s, x, rfl, ⟨hne, hid⟩, -⟩ := takes_nestedLabelPattern.mp htakes
  cases id with
  | nil => exact hne rfl
  | cons d id =>
    obtain ⟨rfl, -⟩ := List.cons.inj heq
    simp [hid c (by simp)] at hc

theorem LabelAhead.eq (h : LabelAhead (u ++ '[' :: (x ++ ']' :: z))) (hu : '[' ∉ u)
    (hx : Grouped "[]" x) : Blank u ∧ x.head? ≠ some '"' ∧ x.head? ≠ some '\'' := by
  obtain ⟨s, y, r, heq, hs, hhead, hy⟩ := h
  obtain ⟨rfl, hlabel⟩ := Text.append_cons_inj hu (not_open_of_blank hs) heq
  obtain ⟨rfl, -⟩ := hx.unique hy hlabel
  exact ⟨hs, hhead⟩

theorem Turns.nil : Turns [] [] := by
  intro u b hu
  induction u generalizing b with
  | nil => rfl
  | cons c u ih =>
    rw [List.mem_cons, not_or] at hu
    have hnone : ¬ LabelAhead (u ++ []) := by
      rintro ⟨s, x, r, heq, -⟩
      exact hu.2 (by simpa using congrArg ('[' ∈ ·) heq)
    rw [List.cons_append, replaceFrom_cons hnone, ih _ hu.2]

/-- A label that needs no quotes, or has them, stays. -/
theorem Turns.label (hx : Grouped "[]" x) (hquotes : needsQuotes x = false ∨ x.head? = some '"')
    (hinside : Turns (x ++ ']' :: z) (x ++ ']' :: z')) (hz : Turns z z') :
    Turns ('[' :: (x ++ ']' :: z)) ('[' :: (x ++ ']' :: z')) := by
  intro u b hu
  induction u generalizing b with
  | nil =>
    rw [List.nil_append, replaceFrom_of_not_name (by decide)]
    exact congrArg ('[' :: ·) (hinside [] _ (by simp))
  | cons c u ih =>
    rw [List.mem_cons, not_or] at hu
    rw [List.cons_append, List.cons_append]
    by_cases hahead : LabelAhead (u ++ '[' :: (x ++ ']' :: z))
    · by_cases hc : isNameChar c
      · obtain ⟨hblank, hhead⟩ := hahead.eq hu.2 hx
        obtain ⟨b', hlabel⟩ := replaceFrom_label hc hblank hhead hx b z
        have hneeds := hquotes.resolve_right hhead.1
        rw [hlabel, labelText, hneeds, if_neg (by simp)]
        have hrest := hz [] b' (by simp)
        simp only [List.nil_append] at hrest
        simp [hrest]
      · rw [replaceFrom_of_not_name (Bool.eq_false_iff.mpr hc), ih _ hu.2]
    · rw [replaceFrom_cons hahead, ih _ hu.2]

/-- A label that needs quotes gets them. -/
theorem Turns.named (hc : isNameChar c) (hx : Grouped "[]" x) (hneeds : needsQuotes x)
    (hhead : x.head? ≠ some '"') (hz : Turns z z') :
    Turns (c :: '[' :: (x ++ ']' :: z))
      (c :: '[' :: '"' :: (Text.dropQuotes x ++ '"' :: ']' :: z')) := by
  have happostrophe : x.head? ≠ some '\'' := by
    intro h
    simp [needsQuotes, h] at hneeds
  intro u b hu
  induction u generalizing b with
  | nil =>
    obtain ⟨b', hlabel⟩ := replaceFrom_label (s := []) hc (List.forall_mem_nil _)
      ⟨hhead, happostrophe⟩ hx b z
    have hrest := hz [] b' (by simp)
    simp only [List.nil_append] at hrest hlabel
    simp [hlabel, labelText, hneeds, hrest]
  | cons d u ih =>
    rw [List.mem_cons, not_or] at hu
    have hahead : ¬ LabelAhead (u ++ c :: '[' :: (x ++ ']' :: z)) := by
      intro h
      rw [List.append_cons] at h
      have hopen : '[' ∉ u ++ [c] := by
        rintro hmem
        rcases List.mem_append.mp hmem with hmem | hmem
        · exact hu.2 hmem
        · rw [← List.mem_singleton.mp hmem] at hc
          exact absurd hc (by decide)
      have hblank := (h.eq hopen hx).1 c (by simp)
      simp [isNameChar, hblank] at hc
    rw [List.cons_append, List.cons_append, replaceFrom_cons hahead, ih _ hu.2]

/-- Groups without bars need no quotes. -/
theorem Turns.boxed (hx : Boxed x) (h : Turns z z') : Turns (x ++ z) (x ++ z') := by
  induction hx with
  | nil => exact h
  | @plain c x hc _ ih => exact ih.append (u := [c]) (by simpa using hc.1.symm)
  | @group y x hy _ ih =>
    have hnot := not_mem_of_group hy
    have hneeds : needsQuotes y = false := by
      have hany : y.any (among "[]|") = false := by
        rw [List.any_eq_false]
        intro c hc
        rw [Bool.not_eq_true, among_eq_false]
        have hsub : ∀ c ∈ "[]|".toList, c ∈ "[]\"|".toList := by decide
        exact fun hmem ↦ hnot c (hsub c hmem) hc
      simp [needsQuotes, hany]
    have hinside := (ih.append (u := [']']) (by decide)).append (hnot '[' (by decide))
    simpa using Turns.label (.of_group hy) (.inl hneeds) hinside ih

theorem isNameChar_of_not_isBlank (hblank : Text.isBlank c = false) (hc : c ≠ '[') : isNameChar c := by
  simp [isNameChar, hblank, hc]

theorem Boxed.grouped (hx : Boxed x) : Grouped "[]" x := hx.mono (by decide)

theorem Turns.around {w : Text} (hv : '[' ∉ v) (hx : Boxed x) (hw : '[' ∉ w) (h : Turns z z') :
    Turns (v ++ (x ++ (w ++ z))) (v ++ (x ++ (w ++ z'))) :=
  (Turns.boxed hx (h.append hw)).append hv

theorem Turns.part {m : Mark} (hk : IsRun k) (hm : m.Fits k) (hwhole : m.IsWhole) (h : Turns z z') :
    Turns (k ++ (m.text ++ z)) (k ++ ((m.labelQuoted k).text ++ z')) := by
  have hopen := hk.not_open
  cases m with
  | label x =>
    have hhead : x.head? ≠ some '"' := head?_ne_of_filter (by decide) hm.unquoted
    by_cases hneeds : needsQuotes x
    · obtain ⟨hlast, -⟩ := hm.place hneeds
      rcases List.eq_nil_or_concat k with rfl | ⟨k, c, rfl⟩
      · simp at hlast
      · have hc : isNameChar c := by
          refine isNameChar_of_not_isBlank (by simpa using hlast) ?_
          rintro rfl
          simp at hopen
        have hnamed := (Turns.named hc hm.boxed.grouped hneeds hhead h).append (u := k)
          (by simp_all)
        simpa [Mark.labelQuoted, hneeds, Mark.text] using hnamed
    · have hneeds : needsQuotes x = false := by simpa using hneeds
      have hlabel := Turns.label hm.boxed.grouped (.inl hneeds)
        (Turns.boxed hm.boxed (h.append (u := [']']) (by decide))) h
      simpa [Mark.labelQuoted, hneeds, Mark.text] using hlabel.append hopen
  | quoted x =>
    have hgrouped : Grouped "[]" ('"' :: (x ++ ['"'])) :=
      .plain (by decide) (hm.1.boxed.grouped.append (.plain (by decide) .nil))
    have hinside := Turns.around (v := ['"']) (w := ['"', ']']) (by decide) hm.1.boxed (by decide) h
    have hlabel := Turns.label hgrouped (.inr rfl) (by simpa using hinside) h
    simpa [Mark.labelQuoted, Mark.text] using hlabel.append hopen
  | standing x =>
    have htext := Turns.around (v := ['"']) (w := ['"']) (by decide) hm.1.boxed (by decide) h
    simpa [Mark.labelQuoted, Mark.text] using htext.append hopen
  | bar x =>
    have htext := Turns.around (v := ['|']) (w := ['|']) (by decide) hm.1.boxed (by decide) h
    simpa [Mark.labelQuoted, Mark.text] using htext.append hopen
  | quotedBar x =>
    have htext := Turns.around (v := ['|', '"']) (w := ['"', '|']) (by decide) hm.boxed
      (by decide) h
    simpa [Mark.labelQuoted, Mark.text] using htext.append hopen
  | dangling | broken => exact hwhole.elim
  | edge x =>
    have htext := Turns.around (v := ['-', '-', ' ', '"']) (w := ['"', ' ']) (by decide) hm.boxed
      (by decide) h
    simpa [Mark.labelQuoted, Mark.text] using htext.append hopen

theorem turns_render (h : Orderly ps tail) (hps : ∀ p ∈ ps, p.mark.IsWhole) :
    Turns (render ps tail) (render (mapMarks Mark.labelQuoted ps) tail) := by
  induction h with
  | @nil tail htail =>
    have hopen := htail.not_open
    simpa [render, mapMarks] using Turns.nil.append hopen
  | @cons p ps tail hrun hfits _ _ ih =>
    obtain ⟨hwhole, hrest⟩ := List.forall_mem_cons.mp hps
    exact Turns.part hrun hfits hwhole (ih hrest)

/-- The labels that need quotes get them, and nothing else changes. -/
theorem quoteNestedBracketLabels_render (h : Orderly ps tail) (hps : ∀ p ∈ ps, p.mark.IsWhole) :
    quoteNestedBracketLabels (render ps tail) = render (mapMarks Mark.labelQuoted ps) tail :=
  turns_render h hps [] [] (by simp)

end DiagramRepair.Line
