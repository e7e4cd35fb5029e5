import DiagramRepair.Rule.Note
import DiagramRepair.Proofs.Rule.Words
import DiagramRepair.Proofs.Text.Digits
import DiagramRepair.Proofs.Text.Lines
import Mathlib.Data.List.Nodup
import Mathlib.Data.List.Forall2
import Mathlib.Data.List.Perm.Subperm

namespace DiagramRepair

open Pattern

abbrev IsWord (s : String) (u : Text) : Prop := List.Forall₂ (fun l c ↦ sameLetter l c) s.toList u

namespace Pattern

variable {p : Pattern} {b u r : Text} {gs : Groups}

theorem takes_word {s : String} : (word s).Takes b u r gs ↔ IsWord s u ∧ gs = [] := by
  rw [word, IsWord]
  generalize s.toList = t
  induction t generalizing b u gs with
  | nil => simp [Takes]
  | cons l t ih =>
    rw [List.foldr_cons, List.forall₂_cons_left_iff]
    constructor
    · rintro ⟨_, w, _, _, rfl, rfl, ⟨c, hc, rfl, rfl⟩, hw⟩
      obtain ⟨hw', rfl⟩ := ih.mp hw
      exact ⟨⟨c, w, hc, hw', rfl⟩, rfl⟩
    · rintro ⟨⟨c, w, hc, hw, rfl⟩, rfl⟩
      exact ⟨[c], w, [], [], rfl, rfl, ⟨c, hc, rfl, rfl⟩, ih.mpr ⟨hw, rfl⟩⟩

theorem takes_append_word {s : String} : (p ++ word s).Takes b u r gs ↔
    ∃ v w, u = v ++ w ∧ IsWord s w ∧ p.Takes b v (w ++ r) gs :=
  takes_append_of (fun _ _ _ _ ↦ takes_word)

end Pattern

section

variable {c l : Char} {u : Text}

theorem isIdentChar_of_sameLetter (hl : l ∈ "note".toList) (h : sameLetter l c) :
    isIdentChar c := by
  have hlower : ∀ l ∈ "note".toList, isIdentChar l.toLower ∧
      ∀ c, sameLetter l c = (c.toLower == l.toLower) := by
    simp [sameLetter]
    decide
  obtain ⟨hident, hsame⟩ := hlower l hl
  rw [hsame, beq_iff_eq] at h
  exact isIdentChar_of_toLower (h ▸ hident)

theorem IsWord.isIdent_note (h : IsWord "note" u) : IsIdent u := by
  simp only [IsWord, String.reduceToList, List.forall₂_cons_left_iff,
    List.forall₂_nil_left_iff] at h
  obtain ⟨c, _, hc, ⟨d, _, hd, ⟨e, _, he, ⟨f, _, hf, rfl, rfl⟩, rfl⟩, rfl⟩, rfl⟩ := h
  refine ⟨by simp, ?_⟩
  simp only [List.mem_cons, List.not_mem_nil, or_false, forall_eq_or_imp, forall_eq]
  exact ⟨isIdentChar_of_sameLetter (by decide) hc, isIdentChar_of_sameLetter (by decide) hd,
    isIdentChar_of_sameLetter (by decide) he, isIdentChar_of_sameLetter (by decide) hf⟩

end

def IsNoteName (node name : Text) : Prop :=
  name = Text.of "Note" ++ node ∨ ∃ n, name = Text.of "Note" ++ (node ++ '_' :: Text.ofNat n)

theorem isNoteName_search (node : Text) (avoid : List Text) (fuel counter : Nat) {name : Text}
    (h : IsNoteName node name) :
    IsNoteName node (NoteNames.search node avoid fuel counter name).1 := by
  induction fuel generalizing counter name with
  | zero => exact h
  | succ fuel ih =>
    rw [NoteNames.search]
    split
    · refine ih _ (.inr ⟨counter + 1, ?_⟩)
      rw [List.append_assoc]
    · exact h

theorem isNoteName_next (names : NoteNames) (ids : List Text) (node : Text) :
    IsNoteName node (names.next ids node).1 := by
  have hname := isNoteName_search node (names.taken ++ ids) ((names.taken ++ ids).length + 1)
    names.counter (.inl rfl)
  exact hname

def NoteNames.numbered (node : Text) (n : Nat) : Text :=
  Text.of "Note" ++ node ++ '_' :: Text.ofNat n

theorem numbered_injective (node : Text) : Function.Injective (NoteNames.numbered node) := by
  intro n k h
  have hdigits : Text.ofNat n = Text.ofNat k := (List.cons.inj (List.append_cancel_left h)).2
  rw [← digitsValue_ofNat n, ← digitsValue_ofNat k, hdigits]

theorem mem_of_search_mem {node : Text} {avoid : List Text} {fuel counter : Nat} {name : Text}
    (h : (NoteNames.search node avoid fuel counter name).1 ∈ avoid) : name ∈ avoid := by
  cases fuel with
  | zero => exact h
  | succ fuel =>
    rw [NoteNames.search] at h
    split at h
    · rename_i hmem
      simpa using hmem
    · exact h

theorem numbered_mem_of_search_mem {node : Text} {avoid : List Text} {fuel counter : Nat}
    {name : Text} (h : (NoteNames.search node avoid fuel counter name).1 ∈ avoid) (n : Nat)
    (hlow : counter < n) (hhigh : n ≤ counter + fuel) : NoteNames.numbered node n ∈ avoid := by
  induction fuel generalizing counter name with
  | zero => omega
  | succ fuel ih =>
    rw [NoteNames.search] at h
    split at h
    · rcases Nat.lt_or_ge (counter + 1) n with hlt | hge
      · exact ih h hlt (by omega)
      · obtain rfl : n = counter + 1 := by omega
        exact mem_of_search_mem h
    · rename_i hno
      simp [h] at hno

/-- The search for a name ends before its tries run out, as they would all be different names to
avoid and there are more of them. -/
theorem next_not_mem (names : NoteNames) (ids : List Text) (node : Text) :
    (names.next ids node).1 ∉ names.taken ++ ids := by
  intro h
  simp only [NoteNames.next] at h
  have htried := numbered_mem_of_search_mem h
  generalize names.taken ++ ids = avoid at htried
  have hsubset : (List.range' (names.counter + 1) (avoid.length + 1)).map
      (NoteNames.numbered node) ⊆ avoid := by
    intro name hname
    obtain ⟨n, hn, rfl⟩ := List.mem_map.mp hname
    rw [List.mem_range'_1] at hn
    exact htried n (by omega) (by omega)
  have hnodup := List.Nodup.map (numbered_injective node)
    (List.nodup_range' (s := names.counter + 1) (n := avoid.length + 1))
  have hlength := (List.subperm_of_subset hnodup hsubset).length_le
  rw [List.length_map, List.length_range'] at hlength
  omega

namespace Rule

inductive LabelsPlainEdge (text : Text) : Text → Text → Prop
  | mk {indent source label s arrow s' target rest e : Text} (hindent : Blank indent)
    (hsource : IsIdent source) (hlabel : label = [] ∨ IsSquareLabel label) (hs : Blank s)
    (harrow : IsLineArrow arrow) (hs' : Blank s') (htarget : IsIdent target) (hrest : '\n' ∉ rest)
    (he : e = [] ∨ e = ['\n']) :
    LabelsPlainEdge text
      (indent ++ (source ++ (label ++ (s ++ (arrow ++ (s' ++ (target ++ (rest ++ e))))))))
      (indent ++ (source ++ (label ++ (Text.of " -- \"" ++ (text ++ (Text.of "\" " ++ (arrow ++
        ' ' :: (target ++ rest))))))))

theorem of_plainEdgePattern {line : Text} {m : Match} (hm : plainEdgePattern.match? line = some m) :
    ∃ s s' e, line = m.group "indent" ++ (m.group "source" ++ (m.group "label" ++ (s ++
        (m.group "arrow" ++ (s' ++ (m.group "target" ++ (m.group "rest" ++ e))))))) ∧
      Blank (m.group "indent") ∧ IsIdent (m.group "source") ∧
      (m.group "label" = [] ∨ IsSquareLabel (m.group "label")) ∧ Blank s ∧
      IsLineArrow (m.group "arrow") ∧ Blank s' ∧ IsIdent (m.group "target") ∧
      '\n' ∉ m.group "rest" ∧ (e = [] ∨ e = ['\n']) := by
  obtain ⟨⟨gs, h, hgs⟩, -, hline⟩ := of_match? (by decide) hm
  simp only [plainEdgePattern, many, takes_append_lastLineEnd, takes_append_group, takes_star_any,
    takes_ident, takes_append_blanks, takes_append_notAhead, ↓takes_lineArrow, existsAndEq,
    true_and, and_assoc, List.append_assoc, List.nil_append] at h
  obtain ⟨he, rest, target, s', arrow, g, v, s, hu, rfl, hrest, htarget, hs', -, harrow, hs, h⟩ := h
  obtain ⟨v, label, g, g', rfl, rfl, hv, hlabel⟩ := takes_append.mp h
  simp only [takes_append_group, takes_ident, takes_blanks, takes_textStart, existsAndEq, true_and,
    and_true, List.nil_append] at hv
  obtain ⟨indent, source, rfl, rfl, hsource, hindent, -⟩ := hv
  rw [hline, hu]
  refine ⟨s, s', m.after, ?_⟩
  rcases takes_opt.mp hlabel with ⟨g, rfl, htakes⟩ | ⟨rfl, rfl⟩
  · obtain ⟨hsquare, rfl⟩ := takes_squareLabel.mp htakes
    simp only [Match.group, hgs, List.append_assoc]
    exact ⟨rfl, hindent, hsource, .inr hsquare, hs, harrow, hs', htarget, hrest, he⟩
  · simp only [Match.group, hgs, List.append_assoc]
    exact ⟨rfl, hindent, hsource, .inl rfl, hs, harrow, hs', htarget, hrest, he⟩

theorem labelsPlainEdge_of_labelEdge? {node text line labelled : Text}
    (h : labelEdge? node text line = some labelled) : LabelsPlainEdge text line labelled := by
  rw [labelEdge?, Option.bind_eq_some_iff] at h
  obtain ⟨m, hm, h⟩ := h
  rw [Option.ite_none_right_eq_some] at h
  obtain ⟨-, h⟩ := h
  obtain rfl := Option.some.inj h
  obtain ⟨s, s', e, hline, hindent, hsource, hlabel, hs, harrow, hs', htarget, hrest, he⟩ :=
    of_plainEdgePattern hm
  generalize m.group "indent" = indent, m.group "source" = source, m.group "label" = label,
    m.group "arrow" = arrow, m.group "target" = target, m.group "rest" = rest at *
  rw [hline]
  simp only [List.append_assoc, List.cons_append]
  exact .mk hindent hsource hlabel hs harrow hs' htarget hrest he

/-- Of the lines the first is labelled that can be. -/
theorem of_attachToEdge? {node text : Text} {done labelled : List Text}
    (h : attachToEdge? node text done = some labelled) :
    ∃ after edge edge' before, done = after ++ edge :: before ∧
      labelled = after ++ edge' :: before ∧ labelEdge? node text edge = some edge' ∧
        ∀ l ∈ after, labelEdge? node text l = none := by
  induction done generalizing labelled with
  | nil => simp [attachToEdge?] at h
  | cons line done ih =>
    rw [attachToEdge?] at h
    cases hedge : labelEdge? node text line with
    | some edge =>
      rw [hedge] at h
      obtain rfl := Option.some.inj h
      exact ⟨[], line, edge, done, rfl, rfl, hedge, by simp⟩
    | none =>
      rw [hedge] at h
      obtain ⟨ls, hls, rfl⟩ := Option.map_eq_some_iff.mp h
      obtain ⟨after, edge, edge', before, rfl, rfl, hlabel, hafter⟩ := ih hls
      exact ⟨line :: after, edge, edge', before, rfl, rfl, hlabel,
        List.forall_mem_cons.mpr ⟨hedge, hafter⟩⟩

theorem labelEdge?_of_attachToEdge? {node text : Text} {done : List Text}
    (h : attachToEdge? node text done = none) : ∀ l ∈ done, labelEdge? node text l = none := by
  induction done with
  | nil => simp
  | cons line done ih =>
    rw [attachToEdge?] at h
    cases hedge : labelEdge? node text line with
    | some edge =>
      rw [hedge] at h
      cases h
    | none =>
      rw [hedge] at h
      exact List.forall_mem_cons.mpr ⟨hedge, ih (Option.map_eq_none_iff.mp h)⟩

def IsSide (u : Text) : Prop :=
  ∃ s, (s = "right" ∨ s = "left" ∨ s = "top" ∨ s = "bottom" ∨ s = "over") ∧ IsWord s u

theorem takes_sidePattern {b u r : Text} {gs : Groups} :
    sidePattern.Takes b u r gs ↔ IsSide u ∧ gs = [] := by
  simp only [sidePattern, takes_or, takes_word, IsSide]
  constructor
  · rintro ((((⟨hu, hgs⟩ | ⟨hu, hgs⟩) | ⟨hu, hgs⟩) | ⟨hu, hgs⟩) | ⟨hu, hgs⟩)
    all_goals exact ⟨⟨_, by simp, hu⟩, hgs⟩
  · rintro ⟨⟨s, rfl | rfl | rfl | rfl | rfl, hu⟩, hgs⟩ <;> simp_all

def IsFoldedIdent (u : Text) : Prop := u ≠ [] ∧ ∀ c ∈ u, isFoldedIdentChar c

theorem isFoldedIdent_of_isIdent {u : Text} (h : IsIdent u) : IsFoldedIdent u :=
  ⟨h.1, fun c hc ↦ isFoldedIdentChar_of_isIdentChar (h.2 c hc)⟩

theorem IsFoldedIdent.isBlank_head {u r : Text} {c : Char} (hu : IsFoldedIdent u)
    (hc : c ∈ (u ++ r).head?) : Text.isBlank c = false := by
  obtain ⟨d, u, rfl⟩ := List.exists_cons_of_ne_nil hu.1
  obtain rfl := Option.some.inj hc
  rw [Bool.eq_false_iff]
  intro hblank
  have hd := hu.2 d (by simp)
  simp [not_isFoldedIdentChar_of_isBlank hblank] at hd

inductive IsNote : (line indent node text : Text) → Prop
  | side {indent note s side s₁ of s₂ id s₃ s₄ text s₅ e : Text} (hindent : Blank indent)
    (hnote : IsWord "note" note) (hs : s ≠ [] ∧ Blank s) (hside : IsSide side)
    (hs₁ : s₁ ≠ [] ∧ Blank s₁) (hof : IsWord "of" of) (hs₂ : s₂ ≠ [] ∧ Blank s₂)
    (hid : IsFoldedIdent id) (hs₃ : Blank s₃) (hs₄ : Blank s₄) (htext : '\n' ∉ text)
    (hs₅ : Blank s₅) (he : e = [] ∨ e = ['\n']) :
    IsNote
      (indent ++ (note ++ (s ++ (side ++ (s₁ ++ (of ++ (s₂ ++ (id ++ (s₃ ++ (Text.of ":" ++ (s₄ ++
        (text ++ (s₅ ++ e)))))))))))))
      indent id (escapeQuotes text)
  | quoted {indent note s particle id s₁ colon s₂ text s₃ semicolon s₄ e : Text}
    (hindent : Blank indent) (hnote : IsWord "note" note) (hs : s ≠ [] ∧ Blank s)
    (hparticle : particle = [] ∨ ∃ w s', particle = w ++ s' ∧ (IsWord "for" w ∨ IsWord "of" w) ∧
      s' ≠ [] ∧ Blank s')
    (hid : IsFoldedIdent id) (hs₁ : Blank s₁) (hcolon : colon = [':'] ∨ colon = [])
    (hs₂ : Blank s₂) (htext : '"' ∉ text) (hs₃ : Blank s₃)
    (hsemicolon : semicolon = [';'] ∨ semicolon = []) (hs₄ : Blank s₄) (he : e = [] ∨ e = ['\n']) :
    IsNote
      (indent ++ (note ++ (s ++ (particle ++ (id ++ (s₁ ++ (colon ++ (s₂ ++ (Text.of "\"" ++
        (text ++ (Text.of "\"" ++ (s₃ ++ (semicolon ++ (s₄ ++ e))))))))))))))
      indent id text

theorem IsNote.blank_indent {line indent node text : Text} (h : IsNote line indent node text) :
    Blank indent := by
  cases h <;> assumption

theorem IsNote.isFoldedIdent_node {line indent node text : Text}
    (h : IsNote line indent node text) : IsFoldedIdent node := by
  cases h <;> assumption

theorem isNote_of_sideNotePattern {line : Text} {m : Match}
    (hm : sideNotePattern.match? line = some m) :
    IsNote line (m.group "indent") (m.group "id") (escapeQuotes (m.group "text")) := by
  obtain ⟨⟨gs, h, hgs⟩, -, hline⟩ := of_match? (by decide) hm
  simp only [sideNotePattern, foldedIdent, manyLazy, takes_append_lastLineEnd, takes_append_blanks,
    takes_append_group, takes_star_any, takes_append_sign, takes_append_blanks1, takes_append_word,
    takes_many1_one, takes_append_of (fun _ _ _ _ ↦ takes_sidePattern), takes_blanks,
    takes_textStart, existsAndEq, true_and, and_true, and_assoc, List.append_assoc,
    List.nil_append] at h
  obtain ⟨he, s₅, text, s₄, s₃, id, s₂, of, s₁, side, s, indent, note, hu, hs₅, rfl, htext, hs₄,
    hs₃, hne, hid, hs₂', hs₂, hof, hs₁', hs₁, hside, hs', hs, hnote, hindent, -⟩ := h
  rw [hline, hu]
  simp only [Match.group, hgs, List.append_assoc]
  exact .side hindent hnote ⟨hs', hs⟩ hside ⟨hs₁', hs₁⟩ hof ⟨hs₂', hs₂⟩ ⟨hne, hid⟩ hs₃ hs₄ htext
    hs₅ he

theorem takes_particle {b u r : Text} {gs : Groups} :
    (opt ((word "for" ||| word "of") ++ blanks1)).Takes b u r gs ↔
      (u = [] ∨ ∃ w s, u = w ++ s ∧ (IsWord "for" w ∨ IsWord "of" w) ∧ s ≠ [] ∧ Blank s) ∧
        gs = [] := by
  simp only [takes_opt, takes_append_blanks1, takes_or, takes_word, ← or_and_right]
  constructor
  · rintro (⟨w, s, hu, hs, hw, hgs⟩ | ⟨hu, hgs⟩)
    · exact ⟨.inr ⟨w, s, hu, hw, hs⟩, hgs⟩
    · exact ⟨.inl hu, hgs⟩
  · rintro ⟨hu | ⟨w, s, hu, hw, hs⟩, hgs⟩
    · exact .inr ⟨hu, hgs⟩
    · exact .inl ⟨w, s, hu, hs, hw, hgs⟩

theorem isNote_of_quotedNotePattern {line : Text} {m : Match}
    (hm : quotedNotePattern.match? line = some m) :
    IsNote line (m.group "indent") (m.group "id") (m.group "text") := by
  obtain ⟨⟨gs, h, hgs⟩, -, hline⟩ := of_match? (by decide) hm
  simp only [quotedNotePattern, foldedIdent, many, takes_append_lastLineEnd, takes_append_blanks,
    takes_append_group, takes_star_noneOf, takes_append_sign, takes_append_opt_sign,
    takes_append_blanks1, takes_append_word, takes_many1_one,
    takes_append_of (fun _ _ _ _ ↦ takes_particle), takes_blanks, takes_textStart, existsAndEq,
    true_and, and_true, and_assoc, List.append_assoc, List.nil_append] at h
  obtain ⟨he, s₄, semicolon, s₃, text, s₂, colon, s₁, id, particle, s, indent, note, hu, hs₄,
    hsemicolon, hs₃, rfl, htext, hs₂, hcolon, hs₁, hne, hid, hparticle, hs', hs, hnote, hindent,
    -⟩ := h
  rw [hline, hu]
  simp only [Match.group, hgs, List.append_assoc]
  exact .quoted hindent hnote ⟨hs', hs⟩ hparticle ⟨hne, hid⟩ hs₁ hcolon hs₂ (htext _ (by decide))
    hs₃ hsemicolon hs₄ he

/-- A note directive. -/
structure Directive where
  indent : Text
  node : Text
  text : Text
  onSide : Bool

def directive? (line : Text) : Option Directive :=
  match sideNotePattern.match? line with
  | some m => some ⟨m.group "indent", m.group "id", escapeQuotes (m.group "text"), true⟩
  | none => (quotedNotePattern.match? line).map fun m ↦
      ⟨m.group "indent", m.group "id", m.group "text", false⟩

section

variable {line : Text} {d : Directive} {done ids : List Text} {names : NoteNames}

theorem directive?_eq_none_iff : directive? line = none ↔
    sideNotePattern.isMatch line = false ∧ quotedNotePattern.isMatch line = false := by
  rw [directive?, isMatch, isMatch]
  cases sideNotePattern.match? line with
  | some m => simp
  | none => simp

theorem isNote_of_directive? (h : directive? line = some d) :
    IsNote line d.indent d.node d.text := by
  rw [directive?] at h
  cases hm : sideNotePattern.match? line with
  | some m =>
    rw [hm] at h
    obtain rfl := Option.some.inj h
    exact isNote_of_sideNotePattern hm
  | none =>
    rw [hm] at h
    obtain ⟨m, hm, rfl⟩ := Option.map_eq_some_iff.mp h
    exact isNote_of_quotedNotePattern hm

theorem directive?_eq_none (h : ∀ indent node text, ¬ IsNote line indent node text) :
    directive? line = none :=
  Option.eq_none_iff_forall_ne_some.mpr fun _ hd ↦ h _ _ _ (isNote_of_directive? hd)

theorem convertNote_of_directive? (h : directive? line = some d) :
    convertNote ids done names line =
      match if d.onSide then attachToEdge? d.node d.text done else none with
      | some labelled => (labelled, names)
      | none => (noteNode d.indent d.node d.text (names.next ids d.node).1 ++ done,
          (names.next ids d.node).2) := by
  rw [directive?] at h
  rw [convertNote]
  cases hm : sideNotePattern.match? line with
  | some m =>
    rw [hm] at h
    obtain rfl := Option.some.inj h
    rfl
  | none =>
    rw [hm] at h
    obtain ⟨m, hm', rfl⟩ := Option.map_eq_some_iff.mp h
    rw [hm']
    rfl

/-- Without a directive nothing is converted. -/
theorem convertNote_eq (h : directive? line = none) (ids done : List Text) (names : NoteNames) :
    convertNote ids done names line = (line :: done, names) := by
  obtain ⟨hside, hquoted⟩ := directive?_eq_none_iff.mp h
  rw [isMatch, Option.isSome_eq_false_iff, Option.isNone_iff_eq_none] at hside hquoted
  simp [convertNote, hside, hquoted]

end

/-- Behind the word stands another one. -/
theorem IsNote.exists_word {line indent node text : Text}
    (h : IsNote line indent node text) : ∃ note s c r,
      line = indent ++ (note ++ (s ++ c :: r)) ∧ Blank indent ∧ IsWord "note" note ∧
        s ≠ [] ∧ Blank s ∧ (isFoldedIdentChar c ∨ ∃ l ∈ "rltbof".toList, sameLetter l c) := by
  have hfirst : ∀ {w : String} {u : Text} {l : Char} {t : Text}, w.toList = l :: t → IsWord w u →
      ∃ c r, u = c :: r ∧ sameLetter l c := by
    intro w u l t hw hu
    rw [IsWord, hw, List.forall₂_cons_left_iff] at hu
    obtain ⟨c, r, hc, -, rfl⟩ := hu
    exact ⟨c, r, rfl, hc⟩
  cases h with
  | @side _ note s side s₁ of s₂ _ s₃ s₄ _ s₅ e hindent hnote hs hside =>
    obtain ⟨w, hw, hside⟩ := hside
    have hword : ∃ l t, w.toList = l :: t ∧ l ∈ "rltbof".toList := by
      rcases hw with rfl | rfl | rfl | rfl | rfl <;> exact ⟨_, _, rfl, by decide⟩
    obtain ⟨l, t, hlt, hl⟩ := hword
    obtain ⟨c, side, rfl, hc⟩ := hfirst hlt hside
    exact ⟨note, s, c, _, rfl, hindent, hnote, hs.1, hs.2, .inr ⟨l, hl, hc⟩⟩
  | @quoted _ note s particle id _ _ _ _ _ _ _ _ hindent hnote hs hparticle hid =>
    rcases hparticle with rfl | ⟨w, s', rfl, hw, -⟩
    · obtain ⟨c, id, rfl⟩ := List.exists_cons_of_ne_nil hid.1
      exact ⟨note, s, c, _, rfl, hindent, hnote, hs.1, hs.2, .inl (hid.2 c (by simp))⟩
    · obtain ⟨l, hl, c, w, rfl, hc⟩ :
          ∃ l ∈ "rltbof".toList, ∃ c w', w = c :: w' ∧ sameLetter l c := by
        rcases hw with hw | hw
        · exact ⟨'f', by decide, hfirst rfl hw⟩
        · exact ⟨'o', by decide, hfirst rfl hw⟩
      exact ⟨note, s, c, _, by simp; rfl, hindent, hnote, hs.1, hs.2, .inr ⟨l, hl, hc⟩⟩

/-- A line is no note when behind its first word stands a label or an arrow. -/
theorem not_isNote_of_word {indent w r : Text} (hindent : Blank indent) (hw : IsFoldedIdent w)
    (hr : (∃ t, r = '[' :: t) ∨ ∃ c t, r = ' ' :: c :: t ∧ (c = '-' ∨ c = '<'))
    (indent' node text : Text) : ¬ IsNote (indent ++ (w ++ r)) indent' node text := by
  intro h
  obtain ⟨note, s, c, r', hline, hindent', hnote, hne, hs, hc⟩ := h.exists_word
  obtain ⟨d, s, rfl⟩ := List.exists_cons_of_ne_nil hne
  have hnote : IsFoldedIdent note := isFoldedIdent_of_isIdent hnote.isIdent_note
  obtain ⟨-, hline⟩ := Text.run_unique hindent hindent' (fun _ hc ↦ hw.isBlank_head hc)
    (fun _ hc ↦ hnote.isBlank_head hc) hline
  have hd : Text.isBlank d := hs d (by simp)
  have hnext : ∀ e ∈ r.head?, isFoldedIdentChar e = false := by
    rcases hr with ⟨t, rfl⟩ | ⟨e, t, rfl, -⟩ <;> rintro e ⟨⟩ <;> decide
  obtain ⟨-, hrest⟩ := Text.run_unique hw.2 hnote.2 hnext
    (by rintro e ⟨⟩; exact not_isFoldedIdentChar_of_isBlank hd) hline
  rcases hr with ⟨t, rfl⟩ | ⟨e, t, rfl, he⟩
  · obtain ⟨rfl, -⟩ := List.cons.inj hrest
    exact absurd hd (by decide)
  · obtain ⟨rfl, htail⟩ := List.cons.inj hrest
    have hsign : ∀ e, e = '-' ∨ e = '<' → Text.isBlank e = false ∧ isFoldedIdentChar e = false ∧
        ∀ l ∈ "rltbof".toList, sameLetter l e = false := by
      rintro e (rfl | rfl) <;> decide
    obtain ⟨hblank, hword, hletter⟩ := hsign e he
    cases s with
    | nil =>
      obtain ⟨rfl, -⟩ := List.cons.inj htail
      rcases hc with hc | ⟨l, hl, hc⟩
      · simp [hword] at hc
      · simp [hletter l hl] at hc
    | cons f s =>
      have hf := hs f (by simp)
      obtain ⟨rfl, -⟩ := List.cons.inj htail
      simp [hblank] at hf

/-- What one line does to the lines written before it, the last one first. -/
inductive ConvertsNote (done : List Text) : (line : Text) → (done' : List Text) → Prop
  | keep {line : Text} : ConvertsNote done line (line :: done)
  | attach {line indent node text edge edge' : Text} {after before : List Text}
    (hnote : IsNote line indent node text) (hdone : done = after ++ edge :: before)
    (hedge : LabelsPlainEdge text edge edge') : ConvertsNote done line (after ++ edge' :: before)
  | node {line indent node text name : Text} (hnote : IsNote line indent node text)
    (hname : IsNoteName node name) :
    ConvertsNote done line (noteNode indent node text name ++ done)

theorem convertsNote (ids : List Text) (done : List Text) (names : NoteNames) (line : Text) :
    ConvertsNote done line (convertNote ids done names line).1 := by
  cases hline : directive? line with
  | none =>
    rw [convertNote_eq hline]
    exact .keep
  | some d =>
    have hnote := isNote_of_directive? hline
    rw [convertNote_of_directive? hline]
    split
    · rename_i labelled hlabelled
      obtain ⟨-, hlabelled⟩ := Option.ite_none_right_eq_some.mp hlabelled
      obtain ⟨after, edge, edge', before, hdone, rfl, hedge, -⟩ := of_attachToEdge? hlabelled
      exact .attach hnote hdone (labelsPlainEdge_of_labelEdge? hedge)
    · exact .node hnote (isNoteName_next names ids _)

theorem ConvertsNote.ne_nil {done done' : List Text} {line : Text}
    (h : ConvertsNote done line done') : done' ≠ [] := by
  cases h <;> simp [noteNode]

theorem convertNoteLines_ne_nil {done ls : List Text} (ids : List Text) (names : NoteNames)
    (h : done ≠ [] ∨ ls ≠ []) : (convertNoteLines ids done names ls).1 ≠ [] := by
  induction ls generalizing done names with
  | nil => simpa [convertNoteLines] using h
  | cons l ls ih =>
    rw [convertNoteLines]
    exact ih _ (.inl (convertsNote ids done names l).ne_nil)

theorem convertNoteLines_eq {ls : List Text} (h : ∀ l ∈ ls, directive? l = none)
    (ids done : List Text) (names : NoteNames) :
    convertNoteLines ids done names ls = (done.reverse ++ ls, names) := by
  induction ls generalizing done with
  | nil => simp [convertNoteLines]
  | cons l ls ih =>
    rw [convertNoteLines, convertNote_eq (h l (by simp))]
    simp [ih fun l' hl' ↦ h l' (by simp [hl'])]

theorem convertNoteDirectives_eq {content : Text}
    (h : ∀ l ∈ Text.lines content, directive? l = none) (ids : List Text) (names : NoteNames) :
    convertNoteDirectives ids names content = (content, names) := by
  rw [convertNoteDirectives, convertNoteLines_eq h]
  simp [Text.unlines_lines]

end Rule

end DiagramRepair
